import Monkey.Proofs.Frame
import Monkey.Proofs.Simulation

/-!
# What evaluations are confined to

An evaluation cannot make a function out of thin air: each one it comes by was
there before, or is made by a function literal of the code that is evaluated, in
a scope that the code runs in. So let some scopes, those from a number on, hold
only functions that some code has made and whose scopes are among them; and let
no link lead out of them. Evaluating the code in such a scope leaves the world
*confined* in the same way (`World.Confined.done`, `World.Confined.failed`).

That is a correspondence between a run and itself.
-/

namespace Monkey

/-- **The functions in a value are made by some code**, in scopes from `base` up
to `size`. -/
def Value.MadeBy (c : Code) (base size : ScopeId) (v : Value) : Prop :=
  ∀ id f, v.Holds (.fn id f) →
    c.node (.expr (.fn f.params f.body)) ∧ base ≤ f.scope ∧ f.scope < size

/-- **The scopes from `base` on are confined** to some code: they are linked
among each other, from later ones to earlier ones, and the functions in what
they bind are made by the code, in one of them. -/
structure World.Confined (c : Code) (base : ScopeId) (w : World) : Prop where
  /-- All scopes before `base` have been made. -/
  base_le : base ≤ w.scopes.size
  /-- Links do not lead out, and they lead to earlier scopes. -/
  links : ∀ {s o}, base ≤ s → w.outer? s = some o → base ≤ o ∧ o < s
  /-- What is bound is made by the code. -/
  bound : ∀ {s x v}, base ≤ s → w.getLocal? s x = some v →
    v.MadeBy c base w.scopes.size

/-- A run as a run that corresponds to itself. -/
def Code.selfCorrespondence (c : Code) (base : ScopeId) : Correspondence where
  rename := id
  rescope := id
  code := c
  name _ := True
  scope s := base ≤ s
  object _ := True
  strict := True
  names _ _ := trivial
  injective _ _ h := h
  increasing _ _ := Iff.rfl

section

variable {c d : Code} {base m n : ScopeId} {v : Value} {w w' : World}

theorem Code.covers_iff :
    (c.selfCorrespondence base).Covers n v ↔ v.MadeBy c base n := by
  constructor
  · intro h id f hf
    obtain ⟨⟨hbase, hlt⟩, hnode⟩ := (h _ hf).callable id f rfl
    exact ⟨hnode, hbase, hlt trivial⟩
  · intro h u hu
    refine ⟨fun _ _ => trivial, ?_⟩
    rintro id f rfl
    obtain ⟨hnode, hbase, hlt⟩ := h id f hu
    exact ⟨⟨hbase, fun _ => hlt⟩, hnode⟩

theorem Code.relabel_eq (v : Value) :
    (c.selfCorrespondence base).relabel v = v :=
  v.relabel_eq_self (fun _ _ => rfl) fun _ _ => rfl

theorem World.confined_iff :
    (c.selfCorrespondence base).Worlds w w ↔ w.Confined c base := by
  constructor
  · intro h
    refine ⟨h.scope_size, ?_, ?_⟩
    · intro s o hs ho
      exact ⟨(h.closed hs ho).1, (h.closed hs ho).2 trivial⟩
    · intro s x v hs hv
      exact Code.covers_iff.1 (h.covers hs trivial hv)
  · intro h
    exact {
      size := fun _ => rfl
      new := fun s hs => Nat.le_trans h.base_le hs
      outer := fun {s} _ => (congrFun Option.map_id (w.outer? s)).symm
      closed := fun hs ho =>
        ⟨(h.links hs ho).1, fun _ => (h.links hs ho).2⟩
      bindings := fun {s x} _ _ => by
        rw [funext Code.relabel_eq]
        exact (congrFun Option.map_id (w.getLocal? s x)).symm
      covers := fun hs _ hv => Code.covers_iff.2 (h.bound hs hv)
      next := fun _ => rfl
      fresh := fun _ => trivial }

theorem Value.MadeBy.mono (h : v.MadeBy c base m)
    (hcd : ∀ n, c.node n → d.node n) (hmn : m ≤ n) : v.MadeBy d base n := by
  intro id f hf
  obtain ⟨hnode, hbase, hlt⟩ := h id f hf
  exact ⟨hcd _ hnode, hbase, Nat.lt_of_lt_of_le hlt hmn⟩

/-- What is confined to some code is confined to more code. -/
theorem World.Confined.mono (h : w.Confined c base)
    (hcd : ∀ n, c.node n → d.node n) : w.Confined d base :=
  ⟨h.base_le, h.links, fun hs hv => (h.bound hs hv).mono hcd (Nat.le_refl _)⟩

/-! ## Steps -/

/-- **Making a scope**, around which none lies or one of those confined. -/
theorem World.Confined.addScope (h : w.Confined c base)
    {outer : Option ScopeId}
    (houter : ∀ o, outer = some o → base ≤ o ∧ o < w.scopes.size) :
    (w.addScope outer).1.Confined c base where
  base_le := by
    rw [World.size_addScope]
    exact Nat.le_succ_of_le h.base_le
  links {s o} hs ho := by
    rw [World.outer?_addScope] at ho
    split at ho
    · rename_i hnew
      rw [hnew]
      exact houter o ho
    · exact h.links hs ho
  bound {s x v} hs hv := by
    rw [World.getLocal?_addScope] at hv
    rw [World.size_addScope]
    exact (h.bound hs hv).mono (fun _ => id) (Nat.le_succ _)

/-- **Binding a name** to a value made by the code. -/
theorem World.Confined.set (h : w.Confined c base) {s : ScopeId}
    (hs : s < w.scopes.size) (x : String)
    (hv : v.MadeBy c base w.scopes.size) :
    (w.set s x v).Confined c base where
  base_le := by
    rw [World.size_scopes_set]
    exact h.base_le
  links ht ho := by
    rw [World.outer?_set] at ho
    exact h.links ht ho
  bound {t y u} ht hu := by
    rw [World.size_scopes_set]
    rw [w.getLocal?_set hs] at hu
    split at hu
    · rw [← Option.some.inj hu]
      exact hv
    · exact h.bound ht hu

/-- Where the scopes are the same, they are confined alike. -/
theorem World.Confined.sameScopes (h : w.Confined c base)
    (hsame : w.SameScopes w') : w'.Confined c base := by
  obtain ⟨scopes, next, output, arrangement⟩ := w'
  obtain rfl : scopes = w.scopes := hsame
  exact ⟨h.base_le, h.links, h.bound⟩

section

variable {program : Program}
  (hprogram : ∀ s ∈ program.statements, c.node (.stmt s)) {scope : ScopeId}
  (hbase : base ≤ scope) (hscope : scope < w.scopes.size)

include hprogram hbase hscope

/-- Running code goes together with itself. -/
theorem World.Confined.outcomes (h : w.Confined c base) (depth : Nat) :
    (c.selfCorrespondence base).Outcomes (c.selfCorrespondence base).Errors
      (c.selfCorrespondence base).Values w w
      ((program.eval depth scope).run w)
      ((program.eval depth scope).run w) := by
  have hcode : ∀ s ∈ program.statements,
      (c.selfCorrespondence base).code.node (.stmt s) := hprogram
  have havailable :
      (c.selfCorrespondence base).Available w.scopes.size scope :=
    ⟨hbase, fun _ => hscope⟩
  exact Correspondence.together_program depth hcode havailable w w
    (Nat.le_refl _) (World.confined_iff.2 h)

/-- **A program that is done leaves the world confined** to its code, and the
functions in its result are made by the code. -/
theorem World.Confined.done (h : w.Confined c base) {depth : Nat}
    (hrun : (program.eval depth scope).run w = .done v w') :
    w'.Confined c base ∧ w.scopes.size ≤ w'.scopes.size
      ∧ v.MadeBy c base w'.scopes.size := by
  have houtcomes := h.outcomes hprogram hbase hscope depth
  rw [hrun] at houtcomes
  cases houtcomes with
  | done hvalues hsteps =>
    exact ⟨World.confined_iff.1 hsteps.worlds, hsteps.size_le,
      Code.covers_iff.1 hvalues.2⟩

/-- **A program that fails leaves the world confined** to its code, and if it
complains of a name, the code asks for it and no builtin has it. -/
theorem World.Confined.failed (h : w.Confined c base) {depth : Nat}
    {e : EvalError}
    (hrun : (program.eval depth scope).run w = .failed e w') :
    w'.Confined c base ∧ w.scopes.size ≤ w'.scopes.size
      ∧ ∀ x, e = .unboundName x →
        c.node (.expr (.ident x)) ∧ Builtin.ofName? x = none := by
  have houtcomes := h.outcomes hprogram hbase hscope depth
  rw [hrun] at houtcomes
  cases houtcomes with
  | failed herrors hsteps =>
    exact ⟨World.confined_iff.1 hsteps.worlds, hsteps.size_le, herrors.2⟩

end

end

/-! ## Reach -/

/-- **The scopes that are connected** with some scopes: these, the scopes around
them, and the scopes that the functions bound in them hold. -/
inductive World.Connected (w : World) (T : ScopeId → Prop) :
    ScopeId → Prop where
  | root {s : ScopeId} : T s → World.Connected w T s
  | outer {s o : ScopeId} :
      World.Connected w T s → w.outer? s = some o → World.Connected w T o
  | bound {s t : ScopeId} {x : String} {v : Value} :
      World.Connected w T s → w.getLocal? s x = some v → v.Captures t →
      World.Connected w T t

/-- **Nothing leads out of the scopes that are confined.** -/
theorem World.Confined.connected {c : Code} {base : ScopeId} {w : World}
    (h : w.Confined c base) {T : ScopeId → Prop}
    (hT : ∀ s, T s → base ≤ s ∧ s < w.scopes.size) {s : ScopeId}
    (hs : w.Connected T s) : base ≤ s ∧ s < w.scopes.size := by
  induction hs with
  | root hroot => exact hT _ hroot
  | outer _ ho ih =>
    obtain ⟨hbase, hlt⟩ := h.links ih.1 ho
    exact ⟨hbase, Nat.lt_trans hlt ih.2⟩
  | bound _ hv ht ih =>
    obtain ⟨id, f, hf, rfl⟩ := ht
    exact (h.bound ih.1 hv id f hf).2

end Monkey
