import Monkey.Proofs.Embedding
import Monkey.Proofs.Naming

/-!
# Where a binding shows

To bind a name in a scope changes what the name means there, and in the scopes
from which the name is looked for there: those from which the links lead to the
scope, with no scope on the way that binds the name itself (`World.Exposes`). It
changes nothing else. Both directions are inductions along the links, the second
one on the number of the scope that is asked, which goes down with each link in
any world that a host makes, and so in any session (`Session.get?_set_shows`).

A host refers to scopes by handles, and several of them may belong to one scope.
Such handles are the same to every command, at any time from then on
(`Session.after_redirect`), since a handle is never given to another scope.
-/

namespace Monkey

/-! ## The scopes that a binding shows in -/

namespace World

/-- **The links lead from a scope to another.** The list has the scopes before
the other, from the first on. -/
inductive Outward (w : World) : ScopeId → List ScopeId → ScopeId → Prop where
  | here {s : ScopeId} : Outward w s [] s
  | outward {g o s : ScopeId} {path : List ScopeId} : w.outer? g = some o →
      Outward w o path s → Outward w g (g :: path) s

/-- **What the scope `s` binds the name to is what it means in `g`**: the links
lead from `g` to `s`, and no scope before `s` binds the name. -/
def Exposes (w : World) (s : ScopeId) (x : String) (g : ScopeId) : Prop :=
  ∃ path, w.Outward g path s ∧ ∀ t ∈ path, w.getLocal? t x = none

variable {w : World} {s g o : ScopeId} {x : String}

theorem exposes_self (w : World) (s : ScopeId) (x : String) : w.Exposes s x s :=
  ⟨[], .here, by simp⟩

theorem Exposes.outward (hlocal : w.getLocal? g x = none)
    (houter : w.outer? g = some o) (h : w.Exposes s x o) : w.Exposes s x g := by
  obtain ⟨path, hpath, hnone⟩ := h
  exact ⟨g :: path, .outward houter hpath,
    List.forall_mem_cons.2 ⟨hlocal, hnone⟩⟩

/-- **A binding shows** where the scope is exposed. -/
theorem Exposes.get?_set (hlinks : ∀ t o, w.outer? t = some o → o < t)
    (hs : s < w.scopes.size) (h : w.Exposes s x g) (v : Value) :
    (w.set s x v).get? g x = some v := by
  obtain ⟨path, hpath, hnone⟩ := h
  induction hpath with
  | here => rw [get?_eq, getLocal?_set w hs, if_pos ⟨rfl, rfl⟩, Option.some_or]
  | @outward g o s path houter _ ih =>
    obtain ⟨hlocal, hnone⟩ := List.forall_mem_cons.1 hnone
    rw [get?_eq, getLocal?_set w hs]
    split
    · exact Option.some_or
    · rw [hlocal, Option.none_or, outer?_set, houter, Option.bind_some,
        if_pos (hlinks g o houter)]
      exact ih hs hnone

/-- **A binding shows nowhere else.** -/
theorem get?_set_of_not_exposes (hlinks : ∀ t o, w.outer? t = some o → o < t)
    (hs : s < w.scopes.size) (h : ¬ w.Exposes s x g) (v : Value) :
    (w.set s x v).get? g x = w.get? g x := by
  induction g using Nat.strongRecOn with
  | ind g ih =>
    have hne : g ≠ s := by
      rintro rfl
      exact h (w.exposes_self g x)
    rw [get?_eq, w.get?_eq, getLocal?_set w hs, if_neg fun hg => hne hg.1,
      outer?_set]
    cases hlocal : w.getLocal? g x with
    | some u => rfl
    | none =>
      cases houter : w.outer? g with
      | none => rfl
      | some o =>
        have hlt : o < g := hlinks g o houter
        rw [Option.bind_some, Option.bind_some, if_pos hlt, if_pos hlt]
        rw [ih o hlt fun ho => h (ho.outward hlocal houter)]

/-- **A binding shows exactly where the scope is exposed**: there the name means
the value, and all else means what it did. -/
theorem get?_set_shows (hlinks : ∀ t o, w.outer? t = some o → o < t)
    (hs : s < w.scopes.size) (x : String) (v : Value) (g : ScopeId)
    (y : String) :
    (y = x ∧ w.Exposes s x g → (w.set s x v).get? g y = some v)
      ∧ (¬ (y = x ∧ w.Exposes s x g) →
        (w.set s x v).get? g y = w.get? g y) := by
  constructor
  · rintro ⟨rfl, hexposes⟩
    exact hexposes.get?_set hlinks hs v
  · intro hnot
    by_cases hy : y = x
    · subst hy
      refine get?_set_of_not_exposes hlinks hs (fun hg => ?_) v
      exact hnot ⟨rfl, hg⟩
    · exact get?_set_of_ne hs hy v g

end World

/-- **In every session a binding shows exactly where the scope is exposed**, if
the scope is that of a handle. -/
theorem Session.get?_set_shows (a : Arrangement) (depth : Nat)
    (commands : List Command) {scope : ScopeId}
    (hscope : scope ∈ ((start a).after depth commands).handles) (x : String)
    (v : Value) (g : ScopeId) (y : String) :
    let w := ((start a).after depth commands).world
    (y = x ∧ w.Exposes scope x g → (w.set scope x v).get? g y = some v)
      ∧ (¬ (y = x ∧ w.Exposes scope x g) →
        (w.set scope x v).get? g y = w.get? g y) := by
  obtain ⟨hmade, hlinks, -⟩ := chains_end a depth commands
  exact World.get?_set_shows hlinks (hmade scope hscope) x v g y

/-! ## Handles to one scope -/

/-- The command, given to other handles. -/
def Command.redirect (r : Nat → Nat) : Command → Command
  | .eval handle source => .eval (r handle) source
  | .get handle name => .get (r handle) name
  | .set handle name value => .set (r handle) name value
  | .describe handle => .describe (r handle)
  | .same first second => .same (r first) (r second)
  | .new => .new
  | .enclose handle => .enclose (r handle)
  | .clone handle => .clone (r handle)

namespace Session

variable {s : Session} {i j : Nat} {scope : ScopeId} {depth : Nat}

/-- **A command does the same** if it is given to handles of the same scopes. -/
theorem step_redirect {r : Nat → Nat}
    (h : ∀ k, s.handles[r k]? = s.handles[k]?) (command : Command) :
    s.step depth (command.redirect r) = s.step depth command := by
  have hon (k : Nat) (f : ScopeId → Session × Reply) :
      onScope ⟨s.world.clearOutput, s.handles⟩ (r k) f
        = onScope ⟨s.world.clearOutput, s.handles⟩ k f := by
    unfold onScope
    rw [h]
  cases command with
  | same first second =>
    refine (hon first _).trans (congrArg _ (funext fun a => ?_))
    exact hon second _
  | new => rfl
  | eval handle _ | get handle _ | set handle _ _ | describe handle
  | enclose handle | clone handle =>
    exact hon handle _

/-- Handles belong to one scope exactly if the session says so. -/
theorem same_iff : (s.step depth (.same i j)).2 = .same true ↔
    ∃ scope, s.handles[i]? = some scope ∧ s.handles[j]? = some scope := by
  unfold step onScope
  dsimp only
  cases s.handles[i]? with
  | none => simp
  | some a => cases s.handles[j]? <;> simp [eq_comm]

/-- **A handle is never given to another scope.** -/
theorem handle_step (h : s.handles[i]? = some scope) (command : Command) :
    (s.step depth command).1.handles[i]? = some scope := by
  have hon (k : Nat) {f : ScopeId → Session × Reply}
      (hf : ∀ a, (f a).1.handles[i]? = some scope) :
      (onScope ⟨s.world.clearOutput, s.handles⟩ k f).1.handles[i]?
        = some scope := by
    unfold onScope
    split
    · exact hf _
    · exact h
  have hgive (a : ScopeId) : (s.handles.push a)[i]? = some scope := by
    obtain ⟨hi, -⟩ := Array.getElem?_eq_some_iff.1 h
    rw [Array.getElem?_push, if_neg (Nat.ne_of_lt hi)]
    exact h
  cases command with
  | eval handle source =>
    refine hon handle fun a => ?_
    unfold evalIn
    split <;> exact h
  | get handle name =>
    refine hon handle fun a => ?_
    split <;> exact h
  | set handle name value =>
    refine hon handle fun a => ?_
    unfold setIn
    split <;> exact h
  | describe handle => exact hon handle fun _ => h
  | same first second => exact hon first fun _ => hon second fun _ => h
  | new => exact hgive _
  | enclose handle | clone handle => exact hon handle fun _ => hgive _

theorem handle_after (h : s.handles[i]? = some scope)
    (commands : List Command) :
    (s.after depth commands).handles[i]? = some scope := by
  induction commands generalizing s with
  | nil => exact h
  | cons command commands ih => exact ih (handle_step h command)

/-- **Handles of one scope are the same to every command**, whatever has
happened since. -/
theorem after_redirect (h : s.handles[i]? = some scope)
    (h' : s.handles[j]? = some scope) (commands : List Command)
    (command : Command) :
    (s.after depth commands).step depth
        (command.redirect fun k => if k = i then j else k)
      = (s.after depth commands).step depth command := by
  refine step_redirect (fun k => ?_) command
  split
  · rename_i hk
    rw [hk, handle_after h, handle_after h']
  · rfl

/-- A clone of a handle belongs to its scope. -/
theorem same_clone {k : Nat} (h : (s.step depth (.clone i)).2 = .made k) :
    ((s.step depth (.clone i)).1.step depth (.same i k)).2 = .same true := by
  rw [same_iff]
  cases hi : s.handles[i]? with
  | none =>
    have hnone : (s.step depth (.clone i)).2 = .noSuchHandle := by
      unfold step onScope
      dsimp only
      rw [hi]
    rw [hnone] at h
    cases h
  | some a =>
    have hstep : s.step depth (.clone i)
        = (⟨s.world.clearOutput, s.handles.push a⟩, .made s.handles.size) := by
      unfold step onScope
      dsimp only
      rw [hi]
      rfl
    refine ⟨a, handle_step hi _, ?_⟩
    rw [hstep] at h ⊢
    cases h
    exact Array.getElem?_push_size

end Session

/-! ## In every world that a host makes -/

open Host in
/-- **A binding shows exactly where the scope is exposed**, in every world that
a host makes. Wherever the links lead from a scope to the one in which the name
is bound, and no scope before it binds that name, the name means the value that
it is bound to; in all other scopes it means what it did, and so do all other
names in all scopes. In every session, a clone of a handle belongs to its
scope, and if two handles belong to one scope, a command to one of them is a
command to the other, whatever commands have come before it. -/
theorem Host.binding_shows {order : Arrangement} {h : Host}
    (hsteps : Steps (start order) h) {a : ScopeId} (ha : h.Reaches a)
    (x : String) (v : Value) :
    (∀ g y, (y = x ∧ h.world.Exposes a x g →
        (h.world.set a x v).get? g y = some v)
      ∧ (¬ (y = x ∧ h.world.Exposes a x g) →
        (h.world.set a x v).get? g y = h.world.get? g y))
    ∧ ∀ (s : Session) depth,
      (∀ i k, (s.step depth (.clone i)).2 = .made k →
        ((s.step depth (.clone i)).1.step depth (.same i k)).2 = .same true)
      ∧ ∀ i j, (s.step depth (.same i j)).2 = .same true →
        ∀ commands command, (s.after depth commands).step depth
            (command.redirect fun k => if k = i then j else k)
          = (s.after depth commands).step depth command := by
  have hsound := hsteps.sound
  have hlinks : ∀ t o, h.world.outer? t = some o → o < t :=
    fun t o ho => (hsound.confined.links (Nat.zero_le t) ho).2
  refine ⟨World.get?_set_shows hlinks (hsound.reaches ha) x v,
    fun s depth => ⟨?_, ?_⟩⟩
  · exact fun i k => Session.same_clone
  · intro i j hsame
    obtain ⟨scope, hi, hj⟩ := Session.same_iff.1 hsame
    exact Session.after_redirect hi hj

open Host in
/-- The scope of a call of `f`, which binds `x`: it shows what the scope around
it binds `f` to, but not what that binds `x` to. And a session with a clone. -/
theorem Host.binding_shows_cyclic :
    Steps (start .ascending) cyclic ∧ cyclic.Reaches 0
      ∧ (cyclic.world.set 0 "f" .nothing).get? 1 "f" = some .nothing
      ∧ (cyclic.world.set 0 "x" .nothing).get? 1 "x" = cyclic.world.get? 1 "x"
      ∧ ((Session.start .ascending).step 0 (.clone 0)).2 = .made 1
      ∧ let s := ((Session.start .ascending).step 0 (.clone 0)).1
        (s.step 0 (.same 0 1)).2 = .same true
        ∧ ∀ commands name, (s.after 0 commands).step 0 (.get 1 name)
          = (s.after 0 commands).step 0 (.get 0 name) := by
  have hreaches : cyclic.Reaches 0 := .root (.inl List.mem_cons_self)
  obtain ⟨hf, hsessions⟩ :=
    Host.binding_shows steps_cyclic hreaches "f" .nothing
  obtain ⟨hx, -⟩ := Host.binding_shows steps_cyclic hreaches "x" .nothing
  have hexposes : cyclic.world.Exposes 0 "f" 1 :=
    ⟨[1], .outward rfl .here, List.forall_mem_singleton.2 rfl⟩
  have hshadowed : ¬ cyclic.world.Exposes 0 "x" 1 := by
    rintro ⟨path, hpath, hnone⟩
    cases hpath with
    | outward => cases hnone 1 List.mem_cons_self
  have hclone : ((Session.start .ascending).step 0 (.clone 0)).2 = .made 1 :=
    rfl
  have hsame := (hsessions (Session.start .ascending) 0).1 0 1 hclone
  refine ⟨steps_cyclic, hreaches, (hf 1 "f").1 ⟨rfl, hexposes⟩,
    (hx 1 "x").2 fun h => hshadowed h.2, hclone, hsame, fun commands name => ?_⟩
  exact (hsessions _ 0).2 0 1 hsame commands (.get 0 name)

end Monkey
