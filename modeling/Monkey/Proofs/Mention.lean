import Monkey.Proofs.Interference

/-!
# Bindings that a program does not mention

A program that is evaluated in a scope with none around it can look up only the
names that it mentions, since all functions that it can call are its own, if
none are bound to these names. So it does not matter what the scope binds other
names to, nor what else there is in the world.

Let two scopes, of one world or of two, bind the names that a program mentions
to the same objects, and let there be no functions among them
(`World.AgreeOnNames`). Then evaluating the program in either of them has the
same outcome (`Program.eval_noninterference`). The scopes need not have the same
number. So the results are the same only up to the numbers of new objects and
of the scopes that functions hold, which are counted from another number on. The
text that is written is the same if hashes are shown alike
(`World.ShowNamesAlike`), and need not be otherwise (`Program.eval_text_differs`).
-/

namespace Monkey

/-- **The scopes agree on some names**: there is no scope around them, and they
bind the names to the same objects, if to any, among which there is no function.
If the worlds have handed out different numbers of identities, these objects
have been made in both. -/
structure World.AgreeOnNames (names : List String) (w : World) (s : ScopeId)
    (w' : World) (s' : ScopeId) : Prop where
  /-- The first scope has been made, with none around it. -/
  outermost : s < w.scopes.size ∧ w.outer? s = none
  /-- The second scope has been made, with none around it. -/
  outermost' : s' < w'.scopes.size ∧ w'.outer? s' = none
  /-- The names are bound to the same objects. -/
  bindings : ∀ x ∈ names, w'.getLocal? s' x = w.getLocal? s x
  /-- The objects are no functions, and hold none. -/
  plain : ∀ x ∈ names, ∀ v, w.getLocal? s x = some v →
    ∀ id f, ¬ v.Holds (.fn id f)
  /-- The objects have been made, if the worlds count differently. -/
  handedOut : w.nextObject ≠ w'.nextObject →
    ∀ x ∈ names, ∀ v, w.getLocal? s x = some v → ∀ i, v.Names i →
      i < w.nextObject ∧ i < w'.nextObject

/-- **The identities that some names lead to** in a scope. -/
def World.NamesLeadTo (names : List String) (w : World) (s : ScopeId)
    (i : ObjectId) : Prop :=
  ∃ x ∈ names, ∃ v, w.getLocal? s x = some v ∧ v.Names i

/-- **Hashes are shown alike** in both worlds: those that the names lead to show
their entries in the same order, and so do those that are still to be made, in
the order of their making. -/
def World.ShowNamesAlike (names : List String) (w : World) (s : ScopeId)
    (w' : World) : Prop :=
  Arrangement.Alike (fun i => w.NamesLeadTo names s i ∨ w.nextObject ≤ i)
    (renumber w.nextObject w'.nextObject) w.arrangement w'.arrangement

/-- The number of a scope in the second world: that of the second scope for the
first, and new scopes are counted on. -/
def World.rescope (w : World) (s : ScopeId) (w' : World) (s' : ScopeId)
    (t : ScopeId) : ScopeId :=
  if t = s then s' else renumber w.scopes.size w'.scopes.size t

/-- **A value in the second world**: the objects and scopes that are new are
counted on from there, and the second scope is in place of the first. -/
def World.carry (w : World) (s : ScopeId) (w' : World) (s' : ScopeId) :
    Value → Value :=
  Value.relabel (renumber w.nextObject w'.nextObject) (w.rescope s w' s')

/-- **Two scopes have gone on alike** in their worlds: the names in question are
bound to the same values, other names are bound to what they have been bound to,
and if `shown`, the same text has been written. -/
structure GoneOnAlike (names : List String) (f : Value → Value) (shown : Prop)
    (w : World) (s : ScopeId) (w' : World) (s' : ScopeId) (u u' : World) :
    Prop where
  /-- What has been written is the same if `shown`. -/
  output : World.WroteAlike shown w w' u u'
  /-- The names are bound to the same values. -/
  bindings : ∀ x ∈ names, u'.getLocal? s' x = (u.getLocal? s x).map f
  /-- The first scope keeps its other bindings. -/
  others : ∀ x ∉ names, u.getLocal? s x = w.getLocal? s x
  /-- The second scope keeps its other bindings. -/
  others' : ∀ x ∉ names, u'.getLocal? s' x = w'.getLocal? s' x

/-- **The evaluations end alike** in two scopes that go on alike: both with the
same result, both with the same failure or both without an answer. -/
inductive EndAlike (names : List String) (f : Value → Value) (shown : Prop)
    (w : World) (s : ScopeId) (w' : World) (s' : ScopeId) :
    Outcome EvalError Value → Outcome EvalError Value → Prop where
  | done {v : Value} {u u' : World} :
      GoneOnAlike names f shown w s w' s' u u' →
      EndAlike names f shown w s w' s' (.done v u) (.done (f v) u')
  | failed {e : EvalError} {u u' : World} :
      GoneOnAlike names f shown w s w' s' u u' →
      EndAlike names f shown w s w' s' (.failed e u) (.failed e u')
  | exhausted : EndAlike names f shown w s w' s' .exhausted .exhausted

section

variable {w w' : World} {s s' : ScopeId}

theorem World.rescope_self : w.rescope s w' s' s = s' := if_pos rfl

/-- Scopes that are still to be made are counted on. -/
theorem World.rescope_of_size_le {t : ScopeId} (hs : s < w.scopes.size)
    (ht : w.scopes.size ≤ t) :
    w.rescope s w' s' t = w'.scopes.size + (t - w.scopes.size) := by
  have hne : t ≠ s := Nat.ne_of_gt (Nat.lt_of_lt_of_le hs ht)
  obtain ⟨j, rfl⟩ := Nat.exists_eq_add_of_le ht
  rw [World.rescope, if_neg hne, renumber_add, Nat.add_sub_cancel_left]

/-- Where both worlds count alike, values without functions are carried over
unchanged; so are all values if the scopes have the same number. -/
theorem World.carry_eq_self (hnext : w.nextObject = w'.nextObject) {v : Value}
    (hv : (∀ id f, ¬ v.Holds (.fn id f))
      ∨ s = s' ∧ w.scopes.size = w'.scopes.size) :
    w.carry s w' s' v = v := by
  refine v.relabel_eq_self ?_ ?_
  · intro i _
    rw [hnext]
    exact renumber_self _ i
  · rintro t ⟨id, f, hf, -⟩
    obtain hv | ⟨rfl, hsize⟩ := hv
    · exact absurd hf (hv id f)
    · rw [World.rescope, hsize, renumber_self]
      split
      · rename_i ht
        exact ht.symm
      · rfl

variable {program : Program}

namespace World.AgreeOnNames

variable (h : w.AgreeOnNames program.names s w' s')

include h

/-- The objects that the names are bound to are the same in both worlds. -/
theorem renumber_eq {x : String} (hx : x ∈ program.names) {v : Value}
    (hv : w.getLocal? s x = some v) {i : ObjectId} (hi : v.Names i) :
    renumber w.nextObject w'.nextObject i = i := by
  by_cases hnext : w.nextObject = w'.nextObject
  · rw [hnext]
    exact renumber_self _ i
  · exact renumber_of_lt (h.handedOut hnext x hx v hv i hi).1 _

theorem carry_eq {x : String} (hx : x ∈ program.names) {v : Value}
    (hv : w.getLocal? s x = some v) : w.carry s w' s' v = v := by
  refine v.relabel_eq_self (fun i hi => h.renumber_eq hx hv hi) ?_
  rintro t ⟨id, f, hf, -⟩
  exact absurd hf (h.plain x hx v hv id f)

/-- **What the two evaluations have in common**: the code of the program, the
names that it mentions, and the scopes in which it runs. -/
def correspondence : Correspondence where
  rename := renumber w.nextObject w'.nextObject
  rescope := w.rescope s w' s'
  code := program.code
  name x := x ∈ program.names
  scope t := t = s ∨ w.scopes.size ≤ t
  object i := w.NamesLeadTo program.names s i ∨ w.nextObject ≤ i
  strict := False
  names hn hx := Program.mem_names hn hx
  injective {i j} hi hj heq := by
    by_cases hnext : w.nextObject = w'.nextObject
    · rwa [hnext, renumber_self, renumber_self] at heq
    · refine renumber_injective (hi.imp_left ?_) (hj.imp_left ?_) heq
      · rintro ⟨x, hx, v, hv, hi⟩
        exact h.handedOut hnext x hx v hv i hi
      · rintro ⟨x, hx, v, hv, hj⟩
        exact h.handedOut hnext x hx v hv j hj
  increasing {t u} ht hu := by
    have hs := h.outermost.1
    have hs' := h.outermost'.1
    -- The two scopes are older than all that are still to be made.
    obtain rfl | ht := ht
    · obtain rfl | hu := hu
      · simp
      · rw [World.rescope_self, World.rescope_of_size_le hs hu]
        exact iff_of_true (Nat.lt_add_right _ hs') (Nat.lt_of_lt_of_le hs hu)
    · rw [World.rescope_of_size_le hs ht]
      obtain rfl | hu := hu
      · rw [World.rescope_self]
        exact iff_of_false (Nat.lt_asymm (Nat.lt_add_right _ hs'))
          (Nat.lt_asymm (Nat.lt_of_lt_of_le hs ht))
      · rw [World.rescope_of_size_le hs hu, Nat.add_lt_add_iff_left]
        exact Nat.sub_lt_sub_iff_right ht

/-- A scope that is still to be made in the first world is so in the second. -/
theorem size_le_rescope {t : ScopeId} (ht : w.scopes.size ≤ t) :
    w'.scopes.size ≤ w.rescope s w' s' t := by
  rw [World.rescope_of_size_le h.outermost.1 ht]
  exact Nat.le_add_right _ _

/-- **Worlds whose scopes agree correspond.** -/
theorem worlds : h.correspondence.Worlds w w' where
  size j := by
    show w.rescope s w' s' (w.scopes.size + j) = _
    rw [World.rescope_of_size_le h.outermost.1 (Nat.le_add_right _ _),
      Nat.add_sub_cancel_left]
  new _ ht := .inr ht
  outer {t} ht := by
    show w'.outer? (w.rescope s w' s' t) = _
    obtain rfl | ht := ht
    · rw [World.rescope_self, h.outermost.2, h.outermost'.2]
      rfl
    · rw [World.outer?_of_size_le ht,
        World.outer?_of_size_le (h.size_le_rescope ht)]
      rfl
  closed {t o} ht ho := by
    obtain rfl | ht := ht
    · rw [h.outermost.2] at ho
      cases ho
    · rw [World.outer?_of_size_le ht] at ho
      cases ho
  bindings {t x} ht hx := by
    show w'.getLocal? (w.rescope s w' s' t) x = _
    obtain rfl | ht := ht
    · rw [World.rescope_self, h.bindings x hx]
      cases hv : w.getLocal? t x with
      | none => rfl
      | some v => exact congrArg some (h.carry_eq hx hv).symm
    · rw [World.getLocal?_of_size_le ht,
        World.getLocal?_of_size_le (h.size_le_rescope ht)]
      rfl
  covers {t x v} ht hx hv := by
    obtain rfl | ht := ht
    · intro u hu
      constructor
      · intro i hi
        exact .inl ⟨x, hx, v, hv, u, hu, hi⟩
      · rintro id f rfl
        exact absurd hu (h.plain x hx v hv id f)
    · rw [World.getLocal?_of_size_le ht] at hv
      cases hv
  next := renumber_add _ _
  fresh j := .inr (Nat.le_add_right _ _)

/-- Worlds that correspond after the program has been evaluated in both. What
other names are bound to, the correspondence does not say; but the program gives
no other names to `let`. -/
theorem goneOnAlike {depth : Nat} {u u' : World}
    (hu : ((program.eval depth s).run w).world? = some u)
    (hu' : ((program.eval depth s').run w').world? = some u')
    (hsteps : h.correspondence.Steps w w' u u') :
    GoneOnAlike program.names (w.carry s w' s')
      (w.ShowNamesAlike program.names s w') w s w' s' u u' where
  output := hsteps.output
  bindings x hx := by
    have hbindings := hsteps.worlds.bindings (s := s) (.inl rfl) hx
    rwa [show h.correspondence.rescope s = s' from World.rescope_self]
      at hbindings
  others x hx :=
    (program.within_eval depth s w u hu).values h.outermost.1 x
      fun htarget => hx (program.targets_subset_names htarget)
  others' x hx :=
    (program.within_eval depth s' w' u' hu').values h.outermost'.1 x
      fun htarget => hx (program.targets_subset_names htarget)

/-- **The program ends alike** in scopes that agree on its names. -/
theorem endAlike (depth : Nat) :
    EndAlike program.names (w.carry s w' s')
      (w.ShowNamesAlike program.names s w') w s w' s'
      ((program.eval depth s).run w) ((program.eval depth s').run w') := by
  have hcode : ∀ s ∈ program.statements,
      h.correspondence.code.node (.stmt s) := program.stmts_code
  have havailable : h.correspondence.Available 0 s := ⟨.inl rfl, False.elim⟩
  have houtcomes := Correspondence.together_program depth hcode havailable w w'
    (Nat.zero_le _) h.worlds
  rw [show h.correspondence.rescope s = s' from World.rescope_self]
    at houtcomes
  have hgone {u u' : World}
      (hu : ((program.eval depth s).run w).world? = some u)
      (hu' : ((program.eval depth s').run w').world? = some u')
      (hsteps : h.correspondence.Steps w w' u u') :=
    h.goneOnAlike hu hu' hsteps
  generalize (program.eval depth s).run w = o at houtcomes hgone
  generalize (program.eval depth s').run w' = o' at houtcomes hgone
  cases houtcomes with
  | done hvalues hsteps =>
    rw [hvalues.1]
    exact .done (hgone rfl rfl hsteps)
  | failed herrors hsteps =>
    rw [herrors.1]
    exact .failed (hgone rfl rfl hsteps)
  | exhausted => exact .exhausted

end World.AgreeOnNames

theorem EndAlike.exhausted_iff {names : List String} {f : Value → Value}
    {shown : Prop} {o o' : Outcome EvalError Value}
    (h : EndAlike names f shown w s w' s' o o') :
    o = .exhausted ↔ o' = .exhausted := by
  cases h <;> simp

end

/-- A world with two scopes that have none around them. Both bind `x` to the
same string; the first binds `y` as well, and the second `z`. -/
def twoScopes : World :=
  ⟨#[⟨[("x", .str 0 "!"), ("y", .str 1 "left")], none⟩,
    ⟨[("z", .array 2 []), ("x", .str 0 "!")], none⟩], 3, "", .ascending⟩

/-- A program that mentions `x`, and neither `y` nor `z`:
`[fn(a) { a + x }("a"), fn() { x }]`. -/
def appendsX : Program :=
  ⟨[.expr (.array
    [.call (.fn ["a"] [.expr (.binary .plus (.ident "a") (.ident "x"))])
        [.str "a"],
      .fn [] [.expr (.ident "x")]])]⟩

theorem agreeOnNames_twoScopes :
    twoScopes.AgreeOnNames appendsX.names 0 twoScopes 1 := by
  have hbound : ∀ x ∈ appendsX.names,
      twoScopes.getLocal? 1 x = twoScopes.getLocal? 0 x
      ∧ ∀ v, twoScopes.getLocal? 0 x = some v → v = .str 0 "!" := by
    have hnames : appendsX.names = ["a", "a", "x", "x"] := rfl
    rw [hnames]
    simp only [List.forall_mem_cons]
    refine ⟨?_, ?_, ?_, ?_, nofun⟩
    all_goals
      refine ⟨rfl, fun v hv => ?_⟩
      cases hv
    all_goals rfl
  refine ⟨⟨by decide, rfl⟩, ⟨by decide, rfl⟩, fun x hx => (hbound x hx).1, ?_,
    fun hne => absurd rfl hne⟩
  intro x hx v hv id f hf
  rw [(hbound x hx).2 v hv] at hf
  cases hf

/-- The program `puts({1: 1, 2: 2})`. -/
def Program.showsHash : Program :=
  ⟨[.expr (.call (.ident "puts")
    [.hash [(.int 1, .int 1), (.int 2, .int 2)]])]⟩

end Monkey
