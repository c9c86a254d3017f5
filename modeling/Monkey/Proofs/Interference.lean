import Monkey.Proofs.Confinement

/-!
# What a call depends on

A call depends on the function, the arguments and the scopes that can be
*reached* from them: the scopes that they capture, the scopes around these, and
the scopes that the values bound there capture in turn (`World.Reaches`). It
does not depend on the scope that it stands in, nor on any other.

So let two worlds have the same scopes with the same links, and let the scopes
in reach have the same bindings, whatever the other scopes bind. Then the call
ends alike in both (`call_noninterference`). The worlds may also differ in how
many objects have been made before. Then the objects made by the call are
numbered differently, and the results are the same up to that; all that is
asked is that no identity in reach is one that is still to be handed out.

What the call writes is another matter. A hash shows its entries in an order of
its own, and a hash that the call makes in one world is not the one that it
makes in the other. So the text is the same if hashes are shown alike
(`World.ShowAlike`), and need not be otherwise (`call_text_differs`).
-/

namespace Monkey

/-! ## Counting from another number -/

/-- The number `i`, where what is counted from `m` on is counted from `n` on. -/
def renumber (m n i : Nat) : Nat :=
  if i < m then i else i - m + n

theorem renumber_self (n i : Nat) : renumber n n i = i := by
  unfold renumber
  split <;> omega

theorem renumber_of_lt {m i : Nat} (h : i < m) (n : Nat) :
    renumber m n i = i := by
  rw [renumber, if_pos h]

theorem renumber_add (m n j : Nat) : renumber m n (m + j) = n + j := by
  unfold renumber
  split <;> omega

/-- Numbers below both counters are not mixed up with those counted. -/
theorem renumber_injective {m n i j : Nat} (hi : i < m ∧ i < n ∨ m ≤ i)
    (hj : j < m ∧ j < n ∨ m ≤ j) (h : renumber m n i = renumber m n j) :
    i = j := by
  unfold renumber at h
  split at h <;> split at h <;> omega

/-! ## Reach -/

namespace World

/-- **The scopes in reach** of some values: those that they capture, and all
that these are connected with. -/
abbrev Reaches (w : World) (vs : List Value) : ScopeId → Prop :=
  w.Connected fun s => ∃ v ∈ vs, v.Captures s

/-- **The identities in reach** of some values. -/
inductive InReach (w : World) (vs : List Value) (i : ObjectId) : Prop where
  /-- An identity that one of the values names. -/
  | given {v : Value} : v ∈ vs → v.Names i → InReach w vs i
  /-- An identity that a value bound in a scope in reach names. -/
  | bound {s : ScopeId} {name : String} {v : Value} :
      w.Reaches vs s → w.getLocal? s name = some v → v.Names i →
      InReach w vs i

/-- **The identities in reach have been handed out** in both worlds, if these
count differently. -/
def HandedOut (w w' : World) (vs : List Value) : Prop :=
  w.nextObject ≠ w'.nextObject →
    ∀ i, w.InReach vs i → i < w.nextObject ∧ i < w'.nextObject

/-- **Hashes are shown alike** in both worlds: those in reach of some values show
their entries in the same order, and so do those that are still to be made, in
the order of their making. -/
def ShowAlike (w w' : World) (vs : List Value) : Prop :=
  Arrangement.Alike (fun i => w.InReach vs i ∨ w.nextObject ≤ i)
    (renumber w.nextObject w'.nextObject) w.arrangement w'.arrangement

/-- **The worlds agree** on some scopes: they have the same scopes with the same
links, and what the scopes in question bind in the first is bound in the
second, as `f` has it. -/
structure AgreeOn (T : ScopeId → Prop) (f : Value → Value) (w w' : World) :
    Prop where
  /-- There are as many scopes. -/
  size : w'.scopes.size = w.scopes.size
  /-- The links are the same. -/
  outer : ∀ s, w'.outer? s = w.outer? s
  /-- The bindings are the same. -/
  bindings : ∀ s, T s → ∀ name,
    w'.getLocal? s name = (w.getLocal? s name).map f

end World

/-- **The outcomes are the same**: both a result, both a failure or both none.
The results correspond as `f` has it, the failures are equal, the worlds agree
on the scopes in question, and if `shown`, the same text has been written. -/
inductive SameOutcome (T : ScopeId → Prop) (f : Value → Value) (shown : Prop)
    (w w' : World) :
    Outcome EvalError Value → Outcome EvalError Value → Prop where
  | done {v : Value} {u u' : World} :
      u.AgreeOn T f u' → World.WroteAlike shown w w' u u' →
      SameOutcome T f shown w w' (.done v u) (.done (f v) u')
  | failed {e : EvalError} {u u' : World} :
      u.AgreeOn T f u' → World.WroteAlike shown w w' u u' →
      SameOutcome T f shown w w' (.failed e u) (.failed e u')
  | exhausted : SameOutcome T f shown w w' .exhausted .exhausted

section

variable {w w' : World} {vs : List Value}

theorem World.HandedOut.renumber_eq (h : w.HandedOut w' vs) {i : ObjectId}
    (hi : w.InReach vs i) : renumber w.nextObject w'.nextObject i = i := by
  by_cases hnext : w.nextObject = w'.nextObject
  · rw [hnext]
    exact renumber_self _ i
  · exact renumber_of_lt (h hnext i hi).1 _

/-- A value whose identities are in reach is the same in both worlds. -/
theorem World.HandedOut.relabel_eq (h : w.HandedOut w' vs) {v : Value}
    (hv : ∀ i, v.Names i → w.InReach vs i) :
    v.relabel (renumber w.nextObject w'.nextObject) id = v :=
  v.relabel_eq_self (fun i hi => h.renumber_eq (hv i hi)) fun _ _ => rfl

/-- **What two runs from the same values have in common**: the scopes in reach
and those still to be made. Any code may be evaluated, and scopes keep their
numbers. -/
def World.HandedOut.correspondence (h : w.HandedOut w' vs) :
    Correspondence where
  rename := renumber w.nextObject w'.nextObject
  rescope := id
  code := .all
  name _ := True
  scope s := w.Reaches vs s ∨ w.scopes.size ≤ s
  object i := w.InReach vs i ∨ w.nextObject ≤ i
  strict := False
  names _ _ := trivial
  injective {i j} hi hj heq := by
    by_cases hnext : w.nextObject = w'.nextObject
    · rwa [hnext, renumber_self, renumber_self] at heq
    · exact renumber_injective (hi.imp_left (h hnext i))
        (hj.imp_left (h hnext j)) heq
  increasing _ _ := Iff.rfl

section

variable (h : w.HandedOut w' vs)

/-- The values themselves are the same in both runs. -/
theorem World.values_of_mem {v : Value} (hv : v ∈ vs) (n : Nat) :
    h.correspondence.Values n v v := by
  refine ⟨(h.relabel_eq fun i hi => .given hv hi).symm, ?_⟩
  refine Correspondence.covers_of_captures (fun _ => trivial) id ?_ ?_
  · exact fun s hs => .inl (.root ⟨v, hv, hs⟩)
  · exact fun i hi => .inl (.given hv hi)

/-- What is bound in reach is the same in both runs. -/
theorem World.values_of_bound {s : ScopeId} (hs : w.Reaches vs s)
    {name : String} {v : Value} (hv : w.getLocal? s name = some v) (n : Nat) :
    h.correspondence.Values n v v := by
  refine ⟨(h.relabel_eq fun i hi => .bound hs hv hi).symm, ?_⟩
  refine Correspondence.covers_of_captures (fun _ => trivial) id ?_ ?_
  · exact fun t ht => .inl (.bound hs hv ht)
  · exact fun i hi => .inl (.bound hs hv hi)

/-- **Worlds that agree on the scopes in reach correspond.** -/
theorem World.AgreeOn.worlds (hagree : w.AgreeOn (w.Reaches vs) id w') :
    h.correspondence.Worlds w w' where
  size j := congrArg (· + j) hagree.size.symm
  new _ hs := .inr hs
  outer {s} _ := by
    show w'.outer? s = (w.outer? s).map id
    rw [hagree.outer s, Option.map_id]
    rfl
  closed {s o} hs ho := by
    refine ⟨?_, False.elim⟩
    obtain hs | hs := hs
    · exact .inl (.outer hs ho)
    · rw [World.outer?_of_size_le hs] at ho
      cases ho
  bindings {s name} hs _ := by
    show w'.getLocal? s name = _
    obtain hs | hs := hs
    · rw [hagree.bindings s hs name]
      cases hv : w.getLocal? s name with
      | none => rfl
      | some v => exact congrArg some (World.values_of_bound h hs hv 0).1
    · rw [World.getLocal?_of_size_le hs,
        World.getLocal?_of_size_le (hagree.size ▸ hs)]
      rfl
  covers {s name v} hs _ hv := by
    obtain hs | hs := hs
    · exact (World.values_of_bound h hs hv _).2
    · rw [World.getLocal?_of_size_le hs] at hv
      cases hv
  next := renumber_add _ _
  fresh j := .inr (Nat.le_add_right _ _)

/-- **Worlds that have agreed and still correspond** agree, if no link has
changed: the scopes that have been made since count. -/
theorem World.AgreeOn.of_worlds {u u' : World}
    (hagree : w.AgreeOn (w.Reaches vs) id w')
    (hworlds : h.correspondence.Worlds u u') (hu : w.KeepsLinks u)
    (hu' : w'.KeepsLinks u') :
    u.AgreeOn (fun s => w.Reaches vs s ∨ w.scopes.size ≤ s)
      (Value.relabel (renumber w.nextObject w'.nextObject) id) u' where
  size := hworlds.rescope_size.symm
  outer s := by
    by_cases hs : s < w.scopes.size
    · rw [hu s hs, hu' s (hagree.size ▸ hs), hagree.outer s]
    · have houter := hworlds.outer (s := s) (.inr (Nat.not_lt.1 hs))
      rwa [show h.correspondence.rescope = id from rfl, Option.map_id]
        at houter
  bindings s hs name := hworlds.bindings hs trivial

end

end

/-! ## Calls -/

/-- **A call ends alike** in worlds that agree on the scopes in reach. -/
theorem World.AgreeOn.call {f : Value} {args : List Value} {w w' : World}
    (hagree : w.AgreeOn (w.Reaches (f :: args)) id w')
    (h : w.HandedOut w' (f :: args)) (depth : Nat) :
    SameOutcome (fun s => w.Reaches (f :: args) s ∨ w.scopes.size ≤ s)
      (Value.relabel (renumber w.nextObject w'.nextObject) id)
      (w.ShowAlike w' (f :: args)) w w'
      ((f.call depth args).run w) ((f.call depth args).run w') := by
  have hvalues {v : Value} (hv : v ∈ f :: args) :=
    World.values_of_mem h hv 0
  have hargs : h.correspondence.Lists 0 args args := by
    refine ⟨?_, fun v hv => (hvalues (List.mem_cons_of_mem f hv)).2⟩
    exact ((List.map_congr_left fun v hv =>
      (hvalues (List.mem_cons_of_mem f hv)).1.symm).trans (List.map_id args)).symm
  have houtcomes := (hvalues List.mem_cons_self).together_call depth hargs w w'
    (Nat.zero_le _) (hagree.worlds h)
  have hlinks (v : World) :=
    Value.within_callWith (Closure.within_call depth) f args v
  have hends {u u' : World}
      (hu : ((f.call depth args).run w).world? = some u)
      (hu' : ((f.call depth args).run w').world? = some u')
      (hworlds : h.correspondence.Worlds u u') :=
    hagree.of_worlds h hworlds (hlinks w u hu).keepsLinks
      (hlinks w' u' hu').keepsLinks
  generalize (f.call depth args).run w = o at houtcomes hends
  generalize (f.call depth args).run w' = o' at houtcomes hends
  cases houtcomes with
  | done hresult hsteps =>
    rw [hresult.1]
    exact .done (hends rfl rfl hsteps.worlds) hsteps.output
  | failed herror hsteps =>
    rw [herror.1]
    exact .failed (hends rfl rfl hsteps.worlds) hsteps.output
  | exhausted => exact .exhausted

theorem SameOutcome.exhausted_iff {T : ScopeId → Prop} {f : Value → Value}
    {shown : Prop} {w w' : World} {o o' : Outcome EvalError Value}
    (h : SameOutcome T f shown w w' o o') :
    o = .exhausted ↔ o' = .exhausted := by
  cases h <;> simp

/-- A function made in scope 0, which adds the `x` of that scope. -/
def addX : Value :=
  .fn 2 ⟨["a"], [.expr (.binary .plus (.ident "a") (.ident "x"))], 0⟩

/-- Scope 0 binds `x`, and scope 1 within it binds `y`. -/
def nestedWorld (y : Value) (nextObject : ObjectId) : World :=
  ⟨#[⟨[("x", .int 0 7)], none⟩, ⟨[("y", y)], some 0⟩], nextObject, "",
    .ascending⟩

theorem getLocal?_nestedWorld {y : Value} {n : ObjectId} {name : String}
    {v : Value} (h : (nestedWorld y n).getLocal? 0 name = some v) :
    v = .int 0 7 := by
  change (if name = "x" then some _ else none) = some v at h
  split at h
  · exact (Option.some.inj h).symm
  · cases h

/-- Only scope 0 is in reach of the function and a number. -/
theorem eq_zero_of_reaches {y : Value} {n : ObjectId} {s : ScopeId}
    (h : (nestedWorld y n).Reaches [addX, .int 1 5] s) : s = 0 := by
  induction h with
  | root hroot =>
    obtain ⟨v, hv, id, closure, hholds, rfl⟩ := hroot
    rcases List.mem_cons.1 hv with rfl | hv
    · cases hholds
      rfl
    · rw [List.mem_singleton.1 hv] at hholds
      cases hholds
  | outer _ ho ih =>
    rw [ih] at ho
    cases ho
  | bound _ hv ht ih =>
    rw [ih] at hv
    obtain ⟨id, closure, hholds, rfl⟩ := ht
    rw [getLocal?_nestedWorld hv] at hholds
    cases hholds

theorem lt_three_of_inReach {y : Value} {n : ObjectId} {i : ObjectId}
    (h : (nestedWorld y n).InReach [addX, .int 1 5] i) : i < 3 := by
  have hatom {j k : ObjectId} {m : Int64} (hj : (Value.int j m).Names k) :
      k = j := by
    obtain ⟨u, hholds, hid⟩ := hj
    cases hholds
    cases hid
    rfl
  cases h with
  | given hv hi =>
    rcases List.mem_cons.1 hv with rfl | hv
    · obtain ⟨u, hholds, hid⟩ := hi
      cases hholds
      cases hid
      decide
    · rw [List.mem_singleton.1 hv] at hi
      rw [hatom hi]
      decide
  | bound hs hv hi =>
    rw [eq_zero_of_reaches hs] at hv
    rw [getLocal?_nestedWorld hv] at hi
    rw [hatom hi]
    decide

/-- Hashes with odd identities show their entries the other way round. -/
def Arrangement.alternating : Arrangement where
  arrange id keys := if id % 2 = 0 then keys else keys.reverse
  perm id keys := by
    split
    · exact .refl _
    · exact keys.reverse_perm

/-- The function `fn() { puts({1: 1, 2: 2}) }`, made in scope 0. -/
def showsHash : Value :=
  .fn 0 ⟨[], [.expr (.call (.ident "puts")
    [.hash [(.int 1, .int 1), (.int 2, .int 2)]])], 0⟩

/-- A world with an empty scope. -/
def bareWorld (nextObject : ObjectId) : World :=
  ⟨#[⟨[], none⟩], nextObject, "", .alternating⟩

end Monkey
