import Mathlib.Logic.Relation
import Monkey.Proofs.Confinement

/-!
# What a host can do

A host that embeds the language holds on to scopes and values. It makes scopes,
binds names in them, and evaluates programs; and it may do so in any scope that
it can get hold of, which are those *in reach*: the scopes it holds, those that
the values it holds capture, and all that these are connected with. In the same
way it may bind a name to any value that it can build of what is in reach.

A `Host` is what the host holds, together with the world; `Host.Step` is one
thing that it can do. Whatever is done, all scopes in reach have been made, and
links lead from scopes to scopes made before them (`Host.Steps.sound`); and no
link is ever changed (`Host.Steps.extends`).
-/

namespace Monkey

/-- **A host**, and the world that it has made. -/
structure Host where
  /-- The scopes and objects made so far. -/
  world : World
  /-- The scopes that the host holds. -/
  handles : List ScopeId
  /-- The values that the host holds. -/
  values : List Value

namespace Host

/-- The scope is one that the host holds, or that a value captures that the host
holds. -/
def Holds (h : Host) (s : ScopeId) : Prop :=
  s ∈ h.handles ∨ ∃ v ∈ h.values, v.Captures s

/-- **The scope is in reach** of the host. -/
def Reaches (h : Host) (s : ScopeId) : Prop :=
  h.world.Connected h.Holds s

/-- **The value can be built** of what is in reach. -/
def Builds (h : Host) (v : Value) : Prop :=
  ∀ s, v.Captures s → h.Reaches s

/-- **What a host can do.** -/
inductive Step : Host → Host → Prop where
  /-- Make a scope with none around it. -/
  | new {h : Host} :
      Step h ⟨(h.world.addScope none).1,
        h.handles ++ [h.world.scopes.size], h.values⟩
  /-- Make a scope enclosed by another. -/
  | enclose {h : Host} {s : ScopeId} : h.Reaches s →
      Step h ⟨(h.world.addScope (some s)).1,
        h.handles ++ [h.world.scopes.size], h.values⟩
  /-- Hold on to a scope. -/
  | clone {h : Host} {s : ScopeId} : h.Reaches s →
      Step h ⟨h.world, h.handles ++ [s], h.values⟩
  /-- Hold on to a value. -/
  | keep {h : Host} {v : Value} : h.Builds v →
      Step h ⟨h.world, h.handles, h.values ++ [v]⟩
  /-- Bind a name. -/
  | set {h : Host} {s : ScopeId} {x : String} {v : Value} :
      h.Reaches s → h.Builds v →
      Step h ⟨h.world.set s x v, h.handles, h.values⟩
  /-- Evaluate a program that is done, and hold on to the result. -/
  | done {h : Host} {s : ScopeId} {program : Program} {depth : Nat}
      {v : Value} {w : World} : h.Reaches s →
      (program.eval depth s).run h.world = .done v w →
      Step h ⟨w, h.handles, h.values ++ [v]⟩
  /-- Evaluate a program that fails. -/
  | failed {h : Host} {s : ScopeId} {program : Program} {depth : Nat}
      {e : EvalError} {w : World} : h.Reaches s →
      (program.eval depth s).run h.world = .failed e w →
      Step h ⟨w, h.handles, h.values⟩
  /-- Hand out an identity, for a value that is to be built. -/
  | identify {h : Host} :
      Step h ⟨h.world.addObject.1, h.handles, h.values⟩
  /-- Attend to the output, by adding to it or by taking it away. -/
  | output {h : Host} {text : String} :
      Step h ⟨h.world.reword text, h.handles, h.values⟩

/-- What a host can do, one thing after the other. -/
abbrev Steps : Host → Host → Prop := Relation.ReflTransGen Step

/-- A host that has done nothing. -/
def start (a : Arrangement) : Host := ⟨World.empty a, [], []⟩

end Host

/-! ## Links are kept -/

/-- **No scope is removed and no link is changed.** -/
structure World.Extends (w w' : World) : Prop where
  size_le : w.scopes.size ≤ w'.scopes.size
  links : w.KeepsLinks w'

section

variable {w w' : World}

theorem World.Frame.extends {scope : ScopeId} {names : List String}
    (h : w.Frame scope names w') : w.Extends w' :=
  ⟨h.size_le, h.links⟩

theorem World.KeepsScopes.extends (h : w.KeepsScopes w') : w.Extends w' :=
  ⟨h.size_le, h.keepsLinks⟩

theorem World.SameScopes.extends (h : w.SameScopes w') : w.Extends w' :=
  h.keepsScopes.extends

instance : IsPreorder World World.Extends where
  refl w := (refl_of World.SameScopes w).extends
  trans u v w huv hvw := {
    size_le := Nat.le_trans huv.size_le hvw.size_le
    links := fun s hs => by
      rw [hvw.links s (Nat.lt_of_lt_of_le hs huv.size_le), huv.links s hs] }

end

namespace Host

variable {h h' : Host}

theorem Step.extends (hstep : Step h h') : h.world.Extends h'.world := by
  cases hstep with
  | new => exact (h.world.keepsScopes_addScope none).extends
  | enclose _ => exact (h.world.keepsScopes_addScope _).extends
  | clone _ | keep _ => exact refl_of World.Extends h.world
  | @set s x v =>
    have hframe : h.world.Frame s [x] (h.world.set s x v) :=
      h.world.frame_set (List.mem_singleton_self x) v
    exact hframe.extends
  | @done s program depth v w _ hrun =>
    exact (program.within_eval depth s h.world w (by rw [hrun]; rfl)).extends
  | @failed s program depth e w _ hrun =>
    exact (program.within_eval depth s h.world w (by rw [hrun]; rfl)).extends
  | identify | output => exact World.SameScopes.extends rfl

/-- **Whatever a host does, links are kept.** -/
theorem Steps.extends (hsteps : Steps h h') :
    h.world.Extends h'.world := by
  induction hsteps with
  | refl => exact refl_of World.Extends h.world
  | tail _ hstep ih => exact trans_of World.Extends ih hstep.extends

/-! ## What is in reach has been made -/

/-- **All that the host holds has been made**, in a world where links lead to
earlier scopes and where the functions that are bound hold scopes that have been
made. -/
structure Sound (h : Host) : Prop where
  confined : h.world.Confined .all 0
  held : ∀ s, h.Holds s → s < h.world.scopes.size

end Host

theorem Value.madeBy_all_iff {v : Value} {n : ScopeId} :
    v.MadeBy .all 0 n ↔ ∀ s, v.Captures s → s < n := by
  constructor
  · rintro h s ⟨id, f, hf, rfl⟩
    exact (h id f hf).2.2
  · intro h id f hf
    exact ⟨trivial, Nat.zero_le _, h _ ⟨id, f, hf, rfl⟩⟩

namespace Host

variable {h h' : Host}

theorem Sound.reaches (hsound : h.Sound) {s : ScopeId} (hs : h.Reaches s) :
    s < h.world.scopes.size :=
  (hsound.confined.connected
    (fun t ht => ⟨Nat.zero_le t, hsound.held t ht⟩) hs).2

theorem Sound.builds (hsound : h.Sound) {v : Value} (hv : h.Builds v) :
    v.MadeBy .all 0 h.world.scopes.size :=
  Value.madeBy_all_iff.2 fun s hs => hsound.reaches (hv s hs)

/-- A host that holds another scope. -/
theorem Sound.addHandle (hsound : h.Sound) {w : World}
    (hw : w.Confined .all 0) (hsize : h.world.scopes.size ≤ w.scopes.size)
    {s : ScopeId} (hs : s < w.scopes.size) :
    Sound ⟨w, h.handles ++ [s], h.values⟩ := by
  refine ⟨hw, ?_⟩
  rintro t (ht | ⟨v, hv, ht⟩)
  · obtain ht | ht := List.mem_append.1 ht
    · exact Nat.lt_of_lt_of_le (hsound.held t (.inl ht)) hsize
    · rw [List.mem_singleton.1 ht]
      exact hs
  · exact Nat.lt_of_lt_of_le (hsound.held t (.inr ⟨v, hv, ht⟩)) hsize

/-- A host that holds another value. -/
theorem Sound.addValue (hsound : h.Sound) {w : World}
    (hw : w.Confined .all 0) (hsize : h.world.scopes.size ≤ w.scopes.size)
    {v : Value} (hv : v.MadeBy .all 0 w.scopes.size) :
    Sound ⟨w, h.handles, h.values ++ [v]⟩ := by
  refine ⟨hw, ?_⟩
  rintro t (ht | ⟨u, hu, ht⟩)
  · exact Nat.lt_of_lt_of_le (hsound.held t (.inl ht)) hsize
  · obtain hu | hu := List.mem_append.1 hu
    · exact Nat.lt_of_lt_of_le (hsound.held t (.inr ⟨u, hu, ht⟩)) hsize
    · rw [List.mem_singleton.1 hu] at ht
      exact Value.madeBy_all_iff.1 hv t ht

/-- A host that holds what it held. -/
theorem Sound.change (hsound : h.Sound) {w : World} (hw : w.Confined .all 0)
    (hsize : h.world.scopes.size ≤ w.scopes.size) :
    Sound ⟨w, h.handles, h.values⟩ :=
  ⟨hw, fun t ht => Nat.lt_of_lt_of_le (hsound.held t ht) hsize⟩

/-- **Whatever a host does, it stays sound.** -/
theorem Step.sound (hstep : Step h h') (hsound : h.Sound) : h'.Sound := by
  have hsize := hstep.extends.size_le
  have hconfined := hsound.confined
  cases hstep with
  | new =>
    refine hsound.addHandle (hconfined.addScope ?_) hsize ?_
    · rintro o ⟨⟩
    · exact World.size_addScope none ▸ Nat.lt_succ_self _
  | enclose hs =>
    refine hsound.addHandle (hconfined.addScope ?_) hsize ?_
    · rintro o ⟨⟩
      exact ⟨Nat.zero_le _, hsound.reaches hs⟩
    · exact World.size_addScope _ ▸ Nat.lt_succ_self _
  | clone hs => exact hsound.addHandle hconfined hsize (hsound.reaches hs)
  | keep hv => exact hsound.addValue hconfined hsize (hsound.builds hv)
  | set hs hv =>
    exact hsound.change
      (hconfined.set (hsound.reaches hs) _ (hsound.builds hv)) hsize
  | done hs hrun =>
    obtain ⟨hw, -, hv⟩ := hconfined.done (fun _ _ => trivial)
      (Nat.zero_le _) (hsound.reaches hs) hrun
    exact hsound.addValue hw hsize hv
  | failed hs hrun =>
    obtain ⟨hw, -⟩ := hconfined.failed (fun _ _ => trivial)
      (Nat.zero_le _) (hsound.reaches hs) hrun
    exact hsound.change hw hsize
  | identify | output =>
    exact hsound.change (hconfined.sameScopes rfl) hsize

theorem sound_start (a : Arrangement) : (start a).Sound where
  confined := {
    base_le := Nat.zero_le _
    links := fun {s o} _ ho => by
      rw [World.outer?_of_size_le (Nat.zero_le s)] at ho
      cases ho
    bound := fun {s x v} _ hv => by
      rw [World.getLocal?_of_size_le (Nat.zero_le s)] at hv
      cases hv }
  held := by
    rintro s (hs | ⟨v, hv, -⟩)
    · cases hs
    · cases hv

/-- **Whatever a host has done, it is sound.** -/
theorem Steps.sound {a : Arrangement} (hsteps : Steps (start a) h) :
    h.Sound := by
  induction hsteps with
  | refl => exact sound_start a
  | tail _ hstep ih => exact hstep.sound ih

end Host

/-! ## Asking for a name -/

/-- **A scope is asked for a name**, and then the scope around it, and so on
until one binds it. The list has the scopes that are asked, in order. Nothing
says that this comes to an end. -/
inductive World.Asks (w : World) (x : String) :
    ScopeId → List ScopeId → Option Value → Prop where
  | found {s : ScopeId} {v : Value} :
      w.getLocal? s x = some v → World.Asks w x s [s] (some v)
  | missing {s : ScopeId} :
      w.getLocal? s x = none → w.outer? s = none → World.Asks w x s [s] none
  | outward {s o : ScopeId} {path : List ScopeId} {result : Option Value} :
      w.getLocal? s x = none → w.outer? s = some o →
      World.Asks w x o path result → World.Asks w x s (s :: path) result

/-- What a name means in a scope, by what it means in the scope around it. -/
theorem World.get?_eq (w : World) (s : ScopeId) (x : String) :
    w.get? s x = (w.getLocal? s x).or
      ((w.outer? s).bind fun o => if o < s then w.get? o x else none) := by
  rw [World.get?, World.chain, List.findSome?_cons]
  cases w.getLocal? s x with
  | some v => rfl
  | none =>
    cases w.outer? s with
    | none => rfl
    | some o =>
      dsimp only [Option.or, Option.bind_some]
      split <;> rfl

/-- **Where links lead to earlier scopes, asking comes to an end**, with what
the name means, and every scope is asked before those made earlier. -/
theorem World.exists_asks {w : World}
    (hlinks : ∀ s o, w.outer? s = some o → o < s) (s : ScopeId) (x : String) :
    ∃ path, w.Asks x s path (w.get? s x) ∧ path.Pairwise (· > ·)
      ∧ ∀ t ∈ path, t ≤ s := by
  induction s using Nat.strongRecOn with
  | ind s ih =>
    rw [w.get?_eq]
    cases hlocal : w.getLocal? s x with
    | some v => exact ⟨[s], .found hlocal, by simp, by simp⟩
    | none =>
      cases houter : w.outer? s with
      | none => exact ⟨[s], .missing hlocal houter, by simp, by simp⟩
      | some o =>
        have hlt := hlinks s o houter
        obtain ⟨path, hasks, hsorted, hle⟩ := ih o hlt
        refine ⟨s :: path, ?_, ?_, ?_⟩
        · rw [Option.bind_some, if_pos hlt]
          exact .outward hlocal houter hasks
        · refine List.pairwise_cons.2 ⟨fun t ht => ?_, hsorted⟩
          exact Nat.lt_of_le_of_lt (hle t ht) hlt
        · intro t ht
          obtain rfl | ht := List.mem_cons.1 ht
          · exact Nat.le_refl t
          · exact Nat.le_trans (hle t ht) (Nat.le_of_lt hlt)

/-- Asking comes to one end. -/
theorem World.Asks.unique {w : World} {x : String} {s : ScopeId}
    {path path' : List ScopeId} {result result' : Option Value}
    (h : w.Asks x s path result) (h' : w.Asks x s path' result') :
    path' = path ∧ result' = result := by
  induction h generalizing path' with
  | found hlocal =>
    cases h' with
    | found hlocal' => exact ⟨rfl, hlocal'.symm.trans hlocal⟩
    | missing hlocal' | outward hlocal' =>
      rw [hlocal] at hlocal'
      cases hlocal'
  | missing hlocal houter =>
    cases h' with
    | found hlocal' =>
      rw [hlocal] at hlocal'
      cases hlocal'
    | missing => exact ⟨rfl, rfl⟩
    | outward _ houter' =>
      rw [houter] at houter'
      cases houter'
  | outward hlocal houter _ ih =>
    cases h' with
    | found hlocal' =>
      rw [hlocal] at hlocal'
      cases hlocal'
    | missing _ houter' =>
      rw [houter] at houter'
      cases houter'
    | outward _ houter' hasks' =>
      rw [houter] at houter'
      cases houter'
      obtain ⟨rfl, hresult⟩ := ih hasks'
      exact ⟨rfl, hresult⟩

/-! ## Links are as they were made -/

/-- A scope has the link that it is made with. -/
theorem World.outer?_addScope_self (w : World) (outer : Option ScopeId) :
    (w.addScope outer).1.outer? w.scopes.size = outer := by
  rw [World.outer?_addScope, if_pos rfl]

/-- **The scope of a call lies in the scope of the function**, and still does
when the call has ended. -/
theorem Closure.outer?_call {depth : Nat} {f : Closure} {args : List Value}
    {w w' : World} (hlength : f.params.length = args.length)
    (hrun : ((f.call depth args).run w).world? = some w') :
    w'.outer? w.scopes.size = some f.scope := by
  cases depth with
  | zero => cases hrun
  | succ depth =>
    have henter : (f.enter args).run w = .done w.scopes.size
        (bindParams (w.addScope (some f.scope)).1 w.scopes.size f.params
          args) := rfl
    have hparams : World.Frame w.scopes.size f.params
        (w.addScope (some f.scope)).1 _ :=
      World.frame_bindParams _ (List.Subset.refl _) args
    have hnew : w.scopes.size < (w.addScope (some f.scope)).1.scopes.size := by
      rw [World.size_addScope]
      exact Nat.lt_succ_self _
    rw [Closure.call, Closure.enterAndRun, if_pos hlength,
      Eval.run_bind_of_done henter] at hrun
    have hbody := Evaluation.within_catchReturn
      (Stmt.within_evalStmts (Closure.within_call depth) .nothing f.body) _ _
      hrun
    rw [hbody.links _ (Nat.lt_of_lt_of_le hnew hparams.size_le),
      hparams.links _ hnew, w.outer?_addScope_self]

namespace Host

/-- **Scope chains are well-founded.** Whatever a host has done, the link of a
scope leads to a scope made before it. It is the link that the scope was made
with, by the host or for a call in the course of an evaluation, and nothing that
is evaluated or done afterwards changes it. All scopes in reach have been made,
and so have all that are captured by what is bound anywhere. And so asking for a
name comes to an end, with what the name means, and asks no scope twice. -/
theorem Steps.ancestry {a : Arrangement} {h : Host}
    (hsteps : Steps (start a) h) :
    (∀ s o, h.world.outer? s = some o → o < s ∧ s < h.world.scopes.size)
    ∧ (∀ outer, (h.world.addScope outer).1.outer? h.world.scopes.size = outer)
    ∧ (∀ depth (f : Closure) args w w', f.params.length = args.length →
      ((f.call depth args).run w).world? = some w' →
      w'.outer? w.scopes.size = some f.scope)
    ∧ (∀ depth scope,
      (∀ s : Stmt, (s.eval (Closure.call depth) scope).Within World.Extends)
      ∧ ∀ e : Expr, (e.eval (Closure.call depth) scope).Within World.Extends)
    ∧ (∀ h', Steps h h' → h.world.Extends h'.world)
    ∧ (∀ s, h.Reaches s → s < h.world.scopes.size)
    ∧ (∀ s x v, h.world.getLocal? s x = some v → ∀ t, v.Captures t →
      t < h.world.scopes.size)
    ∧ (∀ s x, ∃ path, h.world.Asks x s path (h.world.get? s x) ∧ path.Nodup
      ∧ ∀ path' result, h.world.Asks x s path' result →
        path' = path ∧ result = h.world.get? s x) := by
  have hsound := hsteps.sound
  have hlinks (s o : ScopeId) (ho : h.world.outer? s = some o) : o < s :=
    (hsound.confined.links (Nat.zero_le s) ho).2
  refine ⟨?_, h.world.outer?_addScope_self, ?_, ?_, ?_, ?_, ?_, ?_⟩
  · intro s o ho
    refine ⟨hlinks s o ho, Nat.not_le.1 fun hle => ?_⟩
    rw [World.outer?_of_size_le hle] at ho
    cases ho
  · intro depth f args w w' hlength hrun
    exact Closure.outer?_call hlength hrun
  · intro depth scope
    have hcall := Closure.within_call depth
    constructor
    · intro s
      exact (s.within_eval hcall).mono
        fun _ _ hframe => hframe.extends
    · intro e
      exact (e.within_eval hcall).mono
        fun _ _ hframe => hframe.extends
  · intro h' hsteps'
    exact Steps.extends hsteps'
  · intro s hs
    exact hsound.reaches hs
  · intro s x v hv t ht
    exact Value.madeBy_all_iff.1 (hsound.confined.bound (Nat.zero_le s) hv) t ht
  · intro s x
    obtain ⟨path, hasks, hsorted, -⟩ := World.exists_asks hlinks s x
    refine ⟨path, hasks, hsorted.imp Nat.ne_of_gt, ?_⟩
    intro path' result hasks'
    exact hasks.unique hasks'

/-! ### A function that holds the scope it is bound in -/

/-- The function has been made in scope 0 and yields itself. -/
def selfish : Value := .fn 0 ⟨["x"], [.expr (.ident "f")], 0⟩

/-- The function is bound to `f` in scope 0, and has been called once. -/
def cyclic : Host where
  world := ⟨#[⟨[("f", selfish)], none⟩, ⟨[("x", .int 1 1)], some 0⟩], 2, "",
    .ascending⟩
  handles := [0]
  values := [selfish]

theorem steps_cyclic : Steps (start .ascending) cyclic := by
  let w := ((World.empty .ascending).addScope none).1
  have hnew : Step (start .ascending) ⟨w, [0], []⟩ := .new
  have hreaches : (Host.mk w [0] []).Reaches 0 :=
    .root (.inl List.mem_cons_self)
  have hrun : ((Program.mk [.bind "f" (.fn ["x"] [.expr (.ident "f")]),
      .expr (.call (.ident "f") [.int 1])]).eval 1 0).run w
        = .done selfish cyclic.world := by cbv
  exact .tail (.single hnew) (.done hreaches hrun)

/-- A function and its scope may hold each other; still the scope of the call
leads out of the circle. -/
theorem Steps.ancestry_cyclic :
    Steps (start .ascending) cyclic ∧ cyclic.Reaches 0
      ∧ ∃ path, cyclic.world.Asks "f" 1 path (cyclic.world.get? 1 "f")
        ∧ path.Nodup := by
  obtain ⟨-, -, -, -, -, -, -, hasks⟩ := Steps.ancestry steps_cyclic
  obtain ⟨path, hpath, hnodup, -⟩ := hasks 1 "f"
  exact ⟨steps_cyclic, .root (.inl List.mem_cons_self), path, hpath, hnodup⟩

end Host

end Monkey
