import Mathlib.Logic.Relation
import Monkey.Proofs.Simulation

/-!
# How values come about

There are three values from the start, which are shared: null, `true` and
`false`. Values of the other types are made at some point: such a value gets the
identity that is next, and its parts are values that there are already. A
`History` is a world together with all values that there have been up to then,
whether or not anything still refers to them, and `History.Step` is one thing
that can happen to it. A program that embeds the language does such things when
it makes values. That evaluation does nothing else either is not in its type, and
has to be shown of each operation (`Eval.Recorded`): what it yields is part of
what there has been, is shared, or is made as a value that may be made.

So what is so of every history is so of all values that ever come up. Here it is
that a truth value or null is one of the shared ones (`History.Steps.shared`) and
that a value is told by its identity (`History.Steps.coherent`): two values that
are the same object are the same value.
-/

namespace Monkey

open Eval

/-- The objects that a table of entries refers to: its keys and its values. -/
def Table.contents (t : Table HashKey (Value × Value)) : List Value :=
  t.flatMap fun e => [e.2.1, e.2.2]

/-- **The parts of a value**: the elements of an array, and the keys and values
of a hash. -/
def Value.parts : Value → List Value
  | .array _ elements => elements
  | .hash _ entries => Table.contents entries
  | _ => []

/-- **The types whose values are not made**: a truth value or null that comes up
is to be a shared one. -/
def ValueType.shared : List ValueType := [.boolean, .null]

/-- **The shared values.** -/
def Value.shared : List Value := [.nothing, .truth true, .truth false]

theorem Value.nothing_mem_shared : nothing ∈ shared := List.mem_cons_self

theorem Value.truth_mem_shared (b : Bool) : truth b ∈ shared := by
  cases b with
  | false =>
    exact List.mem_cons_of_mem _ (List.mem_cons_of_mem _ List.mem_cons_self)
  | true => exact List.mem_cons_of_mem _ List.mem_cons_self

/-- **A world, and all values that there have been.** -/
structure History where
  /-- The scopes and what has been handed out. -/
  world : World
  /-- The values. -/
  values : List Value

namespace History

/-- **What can happen.** -/
inductive Step : History → History → Prop where
  /-- An object is made of values that there are. -/
  | make {h : History} {v : Value} :
      v.type ∉ ValueType.shared → v.identity = .object h.world.nextObject →
      v.parts ⊆ h.values → Step h ⟨h.world.addObject.1, v :: h.values⟩
  /-- A scope is made. -/
  | scope {h : History} {outer : Option ScopeId} :
      Step h ⟨(h.world.addScope outer).1, h.values⟩
  /-- A name is bound to a value that there is. -/
  | bind {h : History} {s : ScopeId} {x : String} {v : Value} :
      v ∈ h.values → Step h ⟨h.world.set s x v, h.values⟩
  /-- Something is written, or what is written is taken away. -/
  | output {h : History} {text : String} :
      Step h ⟨h.world.reword text, h.values⟩

/-- What can happen, one thing after the other. -/
abbrev Steps : History → History → Prop := Relation.ReflTransGen Step

/-- **The start**: there are the values that are never made. -/
def start (a : Arrangement) : History := ⟨World.empty a, Value.shared⟩

variable {a : Arrangement} {h h' : History}

/-- Values are not forgotten. -/
theorem Steps.values_subset (hsteps : Steps h h') : h.values ⊆ h'.values := by
  induction hsteps with
  | refl => exact List.Subset.refl _
  | tail _ hstep ih =>
    refine List.Subset.trans ih ?_
    cases hstep with
    | make => exact List.subset_cons_self _ _
    | scope | bind | output => exact List.Subset.refl _

/-! ## Nothing refers to a value that there has not been -/

/-- **The history is closed**: the shared values are there, what is bound is
there, and so are the parts of what is there. -/
structure Closed (h : History) : Prop where
  shared : Value.shared ⊆ h.values
  bound : ∀ {s x v}, h.world.getLocal? s x = some v → v ∈ h.values
  parts : ∀ {v}, v ∈ h.values → v.parts ⊆ h.values

theorem Closed.nothing (hclosed : h.Closed) : .nothing ∈ h.values :=
  hclosed.shared Value.nothing_mem_shared

theorem Closed.truth (hclosed : h.Closed) (b : Bool) : .truth b ∈ h.values :=
  hclosed.shared (Value.truth_mem_shared b)

theorem Step.closed (hstep : Step h h') (hclosed : h.Closed) : h'.Closed := by
  cases hstep with
  | @make v htype hid hparts =>
    have hsub : h.values ⊆ v :: h.values := List.subset_cons_self _ _
    refine ⟨List.Subset.trans hclosed.shared hsub,
      fun hbound => hsub (hclosed.bound hbound), ?_⟩
    intro u hu
    obtain rfl | hu := List.mem_cons.1 hu
    · exact List.Subset.trans hparts hsub
    · exact List.Subset.trans (hclosed.parts hu) hsub
  | scope =>
    refine ⟨hclosed.shared, fun hbound => ?_, hclosed.parts⟩
    rw [World.getLocal?_addScope] at hbound
    exact hclosed.bound hbound
  | @bind s x v hv =>
    refine ⟨hclosed.shared, fun {t y u} hbound => ?_, hclosed.parts⟩
    by_cases hs : s < h.world.scopes.size
    · rw [World.getLocal?_set _ hs] at hbound
      split at hbound
      · rw [← Option.some.inj hbound]
        exact hv
      · exact hclosed.bound hbound
    · rw [World.set_of_size_le (Nat.not_lt.1 hs)] at hbound
      exact hclosed.bound hbound
  | output => exact ⟨hclosed.shared, hclosed.bound, hclosed.parts⟩

theorem Steps.closed (hsteps : Steps h h') (hclosed : h.Closed) :
    h'.Closed := by
  induction hsteps with
  | refl => exact hclosed
  | tail _ hstep ih => exact hstep.closed ih

theorem closed_start : (start a).Closed where
  shared := List.Subset.refl _
  bound {s x v} h := by
    rw [World.getLocal?_of_size_le (Nat.zero_le s)] at h
    cases h
  parts {v} hv := by
    have hparts : v.parts = [] := by
      simp only [start, Value.shared, List.mem_cons, List.not_mem_nil,
        or_false] at hv
      obtain rfl | rfl | rfl := hv <;> rfl
    rw [hparts]
    exact List.nil_subset _

/-- What a value holds has been there with it. -/
theorem Closed.holds (hclosed : h.Closed) {v u : Value} (hv : v ∈ h.values)
    (hu : v.Holds u) : u ∈ h.values := by
  induction hu with
  | self => exact hv
  | element hmem _ ih => exact ih (hclosed.parts hv hmem)
  | key hmem _ ih =>
    refine ih (hclosed.parts hv ?_)
    exact List.mem_flatMap.2 ⟨_, hmem, List.mem_cons_self⟩
  | entry hmem _ ih =>
    refine ih (hclosed.parts hv ?_)
    exact List.mem_flatMap.2
      ⟨_, hmem, List.mem_cons_of_mem _ List.mem_cons_self⟩

/-! ## Every world can have a history -/

/-- **Nothing is missing**: the parts of the values are among them. -/
def Whole (vs : List Value) : Prop := ∀ v ∈ vs, v.parts ⊆ vs

theorem Whole.append {us vs : List Value} (hu : Whole us)
    (hv : Whole vs) : Whole (us ++ vs) := by
  intro v hmem
  obtain hmem | hmem := List.mem_append.1 hmem
  · exact List.Subset.trans (hu v hmem) (List.subset_append_left _ _)
  · exact List.Subset.trans (hv v hmem) (List.subset_append_right _ _)

theorem Whole.cons {v : Value} {vs : List Value} (hvs : Whole vs)
    (hv : v.parts ⊆ vs) : Whole (v :: vs) := by
  intro u hmem
  obtain rfl | hmem := List.mem_cons.1 hmem
  · exact List.Subset.trans hv (List.subset_cons_self _ _)
  · exact List.Subset.trans (hvs u hmem) (List.subset_cons_self _ _)

theorem whole_nil : Whole [] := fun _ h => absurd h List.not_mem_nil

end History

open History in
mutual

/-- A value, its parts, their parts, and so on. -/
theorem Value.exists_whole (v : Value) : ∃ vs, Whole vs ∧ v ∈ vs := by
  match v with
  | .array id elements =>
    obtain ⟨vs, hwhole, hsub⟩ := exists_wholeValues elements
    exact ⟨.array id elements :: vs, hwhole.cons hsub, List.mem_cons_self⟩
  | .hash id entries =>
    obtain ⟨vs, hwhole, hsub⟩ := exists_wholeEntries entries
    exact ⟨.hash id entries :: vs, hwhole.cons hsub, List.mem_cons_self⟩
  | .int _ _ | .bool _ _ | .str _ _ | .fn _ _ | .builtin _ _ | .null _ =>
    exact ⟨[_], whole_nil.cons (List.nil_subset _), List.mem_cons_self⟩

theorem exists_wholeValues (us : List Value) : ∃ vs, Whole vs ∧ us ⊆ vs := by
  match us with
  | [] => exact ⟨[], whole_nil, List.nil_subset _⟩
  | u :: us =>
    obtain ⟨vs, hvs, hu⟩ := u.exists_whole
    obtain ⟨vs', hvs', hus⟩ := exists_wholeValues us
    refine ⟨vs ++ vs', hvs.append hvs', List.cons_subset.2 ⟨?_, ?_⟩⟩
    · exact List.mem_append_left _ hu
    · exact List.Subset.trans hus (List.subset_append_right _ _)

theorem exists_wholeEntries (es : List (HashKey × Value × Value)) :
    ∃ vs, Whole vs ∧ Table.contents es ⊆ vs := by
  match es with
  | [] => exact ⟨[], whole_nil, List.nil_subset _⟩
  | (_, key, value) :: es =>
    obtain ⟨vs₁, hvs₁, hkey⟩ := key.exists_whole
    obtain ⟨vs₂, hvs₂, hvalue⟩ := value.exists_whole
    obtain ⟨vs₃, hvs₃, hes⟩ := exists_wholeEntries es
    refine ⟨vs₁ ++ (vs₂ ++ vs₃), hvs₁.append (hvs₂.append hvs₃), ?_⟩
    refine List.cons_subset.2 ⟨?_, List.cons_subset.2 ⟨?_, ?_⟩⟩
    · exact List.mem_append_left _ hkey
    · exact List.mem_append_right _ (List.mem_append_left _ hvalue)
    · exact List.Subset.trans hes (List.Subset.trans
        (List.subset_append_right _ _) (List.subset_append_right _ _))

end
/-- **Every world has a history**, in which any values have been. -/
theorem World.exists_closed (w : World) (vs : List Value) :
    ∃ h : History, h.Closed ∧ h.world = w ∧ vs ⊆ h.values := by
  let bound := w.scopes.toList.flatMap fun s => s.bindings.map (·.2)
  obtain ⟨us, hwhole, hsub⟩ :=
    exists_wholeValues (Value.shared ++ (bound ++ vs))
  obtain ⟨hshared, hrest⟩ := List.append_subset.1 hsub
  obtain ⟨hbound, hvs⟩ := List.append_subset.1 hrest
  refine ⟨⟨w, us⟩, ⟨hshared, ?_, fun hv => hwhole _ hv⟩, rfl, hvs⟩
  intro s x v hget
  obtain ⟨scope, hscope, hv⟩ := Option.bind_eq_some_iff.1 hget
  refine hbound (List.mem_flatMap.2 ⟨scope, ?_, ?_⟩)
  · exact Array.mem_toList_iff.2 (Array.mem_of_getElem? hscope)
  · exact List.mem_map.2 ⟨_, Table.mem_of_get? hv, rfl⟩

namespace History

variable {a : Arrangement} {h h' : History}

/-- Identities are handed out one after the other. -/
theorem Steps.nextObject_le (hsteps : Steps h h') :
    h.world.nextObject ≤ h'.world.nextObject := by
  induction hsteps with
  | refl => exact Nat.le_refl _
  | tail _ hstep ih =>
    refine Nat.le_trans ih ?_
    cases hstep with
    | make => exact Nat.le_succ _
    | scope | bind | output => exact Nat.le_refl _

/-- The orders of hashes stay as they are. -/
theorem Steps.arrangement_eq (hsteps : Steps h h') :
    h'.world.arrangement = h.world.arrangement := by
  induction hsteps with
  | refl => rfl
  | tail _ hstep ih =>
    rw [← ih]
    cases hstep with
    | make | scope | bind | output => rfl

/-! ## Truth values and null are shared -/

/-- **Whatever happens, truth values and null are the shared ones**: there are
three at the start, and none is made. -/
theorem Steps.shared (hsteps : Steps (start a) h) {v : Value}
    (hv : v ∈ h.values) (htype : v.type ∈ ValueType.shared) :
    v ∈ Value.shared := by
  induction hsteps with
  | refl => exact hv
  | tail _ hstep ih =>
    cases hstep with
    | make hmade =>
      obtain rfl | hv := List.mem_cons.1 hv
      · exact absurd htype hmade
      · exact ih hv
    | scope | bind | output => exact ih hv

/-! ## Identities tell values apart -/

/-- **A value is told by its identity**: identities are those that have been
handed out, and no two values have the same. -/
structure Coherent (h : History) : Prop where
  made : ∀ {v i}, v ∈ h.values → v.identity = .object i →
    i < h.world.nextObject
  unique : ∀ {u v}, u ∈ h.values → v ∈ h.values →
    u.identity = v.identity → u = v

theorem Step.coherent (hstep : Step h h') (hcoherent : h.Coherent) :
    h'.Coherent := by
  cases hstep with
  | @make v htype hid hparts =>
    -- the new identity is none that a value had before
    have hnew {u : Value} (hu : u ∈ h.values) : u.identity ≠ v.identity := by
      intro heq
      exact Nat.lt_irrefl _ (hcoherent.made hu (heq.trans hid))
    constructor
    · intro u i hu hi
      obtain rfl | hu := List.mem_cons.1 hu
      · rw [hid] at hi
        cases hi
        exact Nat.lt_succ_self _
      · exact Nat.lt_succ_of_lt (hcoherent.made hu hi)
    · intro u u' hu hu' heq
      obtain hu | hu := List.mem_cons.1 hu
      · obtain hu' | hu' := List.mem_cons.1 hu'
        · rw [hu, hu']
        · exact absurd (heq.symm.trans (congrArg _ hu)) (hnew hu')
      · obtain hu' | hu' := List.mem_cons.1 hu'
        · exact absurd (heq.trans (congrArg _ hu')) (hnew hu)
        · exact hcoherent.unique hu hu' heq
  | scope | bind | output => exact ⟨hcoherent.made, hcoherent.unique⟩

theorem coherent_start : (start a).Coherent where
  made {v i} hv hi := by
    simp only [start, Value.shared, List.mem_cons, List.not_mem_nil,
      or_false] at hv
    obtain rfl | rfl | rfl := hv <;> cases hi
  unique {u v} hu hv heq := by
    simp only [start, Value.shared, List.mem_cons, List.not_mem_nil,
      or_false] at hu hv
    obtain rfl | rfl | rfl := hu <;> obtain rfl | rfl | rfl := hv <;>
      first | rfl | cases heq

/-- **Whatever happens, a value is told by its identity.** -/
theorem Steps.coherent (hsteps : Steps (start a) h) : h.Coherent := by
  induction hsteps with
  | refl => exact coherent_start
  | tail _ hstep ih => exact hstep.coherent ih

/-! ## Evaluations -/

/-- **An evaluation has ended** with the history: with a result of which `P` is
true, or with a failure of which `E` is, both about the values that there have
been; or it has no answer. -/
inductive Ends {ε α : Type} (h : History) (E : List Value → ε → Prop)
    (P : List Value → α → Prop) : Outcome ε α → Prop where
  | done {a : α} : P h.values a → Ends h E P (.done a h.world)
  | failed {e : ε} : E h.values e → Ends h E P (.failed e h.world)
  | exhausted : Ends h E P .exhausted

end History

/-- **The evaluation is recorded.** Started with a history in which the values
`known` are, it is a sequence of steps, and at its end all values are in the
history that come up in its course, which are those of which `R` is true. -/
def Eval.Recorded {ε α : Type} (R : World → Value → Prop)
    (E : List Value → ε → Prop) (P : List Value → α → Prop)
    (known : List Value) (x : Eval ε α) : Prop :=
  ∀ h : History, h.Closed → known ⊆ h.values →
    ∃ h', History.Steps h h' ∧ (∀ v, R h.world v → v ∈ h'.values)
      ∧ h'.Ends E P (x.run h.world)

namespace History

/-- No value. -/
def Nothing (_ : World) (_ : Value) : Prop := False

/-- The value has been. -/
def Has (vs : List Value) (v : Value) : Prop := v ∈ vs

/-- The values have been. -/
def HasAll (vs us : List Value) : Prop := us ⊆ vs

/-- The contents of the table have been. -/
def HasTable (vs : List Value) (t : Table HashKey (Value × Value)) : Prop :=
  Table.contents t ⊆ vs

/-- The value that is returned has been. -/
def HasReturned (vs : List Value) : Interrupt → Prop
  | .returned v => v ∈ vs
  | .failed _ => True

/-- Nothing is asked. -/
def Anything {α : Type} (_ : List Value) (_ : α) : Prop := True

end History

open History

namespace Eval

variable {ε ε' α β : Type} {R : World → Value → Prop}
  {E : List Value → ε → Prop} {F : List Value → ε' → Prop}
  {P : List Value → α → Prop} {Q : List Value → β → Prop}
  {known : List Value}

theorem recorded_done {a : α}
    (h : ∀ h : History, h.Closed → known ⊆ h.values → P h.values a) :
    (done a : Eval ε α).Recorded Nothing E P known := by
  intro k hclosed hknown
  exact ⟨k, .refl, fun v hv => hv.elim, .done (h k hclosed hknown)⟩

theorem recorded_fail {e : ε}
    (h : ∀ h : History, h.Closed → known ⊆ h.values → E h.values e) :
    (fail e : Eval ε α).Recorded Nothing E P known := by
  intro k hclosed hknown
  exact ⟨k, .refl, fun v hv => hv.elim, .failed (h k hclosed hknown)⟩

theorem recorded_exhaust :
    (exhaust : Eval ε α).Recorded Nothing E P known :=
  fun k _ _ => ⟨k, .refl, fun _ hv => hv.elim, .exhausted⟩

theorem recorded_ask {f : World → α}
    (h : ∀ h : History, h.Closed → known ⊆ h.values →
      P h.values (f h.world)) :
    (ask f : Eval ε α).Recorded Nothing E P known := by
  intro k hclosed hknown
  exact ⟨k, .refl, fun v hv => hv.elim, .done (h k hclosed hknown)⟩

/-- What happens to the world happens in steps. -/
theorem recorded_step {f : World → World × α}
    (h : ∀ h : History, known ⊆ h.values →
      ∃ k, Steps h k ∧ k.world = (f h.world).1 ∧ P k.values (f h.world).2) :
    (step f : Eval ε α).Recorded Nothing E P known := by
  intro k _ hknown
  obtain ⟨k', hsteps, hworld, hP⟩ := h k hknown
  refine ⟨k', hsteps, fun v hv => hv.elim, ?_⟩
  show k'.Ends E P (.done (f k.world).2 (f k.world).1)
  rw [← hworld]
  exact .done hP

theorem recorded_update {f : World → World}
    (h : ∀ h : History, known ⊆ h.values →
      ∃ k, Steps h k ∧ k.world = f h.world) :
    (update f : Eval ε Unit).Recorded Nothing E Anything known := by
  intro k _ hknown
  obtain ⟨k', hsteps, hworld⟩ := h k hknown
  refine ⟨k', hsteps, fun v hv => hv.elim, ?_⟩
  rw [run_update, ← hworld]
  exact .done trivial

/-- **Making an object** of values that are known, but no truth value or
null. -/
theorem recorded_make {object : ObjectId → Value} (t : ValueType)
    (ht : t ∉ ValueType.shared) (htype : ∀ i, (object i).type = t)
    (hid : ∀ i, (object i).identity = .object i)
    (hparts : ∀ i, (object i).parts ⊆ known) :
    (make object : Eval ε Value).Recorded Nothing E Has known := by
  refine recorded_step fun h hknown => ?_
  have hmade : (object h.world.nextObject).type ∉ ValueType.shared := by
    rw [htype]
    exact ht
  exact ⟨_, .single (.make hmade (hid _) (List.Subset.trans (hparts _) hknown)),
    rfl, List.mem_cons_self⟩

theorem recorded_newInt (value : Int64) :
    (newInt value : Eval ε Value).Recorded Nothing E Has known :=
  recorded_make .integer (by decide) (fun _ => rfl) (fun _ => rfl)
    fun _ => List.nil_subset _

theorem recorded_newStr (text : String) :
    (newStr text : Eval ε Value).Recorded Nothing E Has known :=
  recorded_make .string (by decide) (fun _ => rfl) (fun _ => rfl)
    fun _ => List.nil_subset _

theorem recorded_newArray {elements : List Value} (h : elements ⊆ known) :
    (newArray elements : Eval ε Value).Recorded Nothing E Has known :=
  recorded_make .array (by decide) (fun _ => rfl) (fun _ => rfl)
    fun _ => h

theorem recorded_newHash {entries : Table HashKey (Value × Value)}
    (h : HasTable known entries) :
    (newHash entries : Eval ε Value).Recorded Nothing E Has known :=
  recorded_make .hash (by decide) (fun _ => rfl) (fun _ => rfl)
    fun _ => h

/-- **Evaluations put after each other**: what comes up in their course comes up
in one of them. -/
theorem Recorded.bind {S : α → World → Value → Prop} {x : Eval ε α}
    {f : α → Eval ε β} (hx : x.Recorded R E P known)
    (hf : ∀ a known', known ⊆ known' → P known' a →
      (f a).Recorded (S a) E Q known') :
    (x >>= f).Recorded
      (fun w v => R w v ∨ ∃ a w', x.run w = .done a w' ∧ S a w' v)
      E Q known := by
  intro h hclosed hknown
  obtain ⟨k, hsteps, hR, hends⟩ := hx h hclosed hknown
  cases hrun : x.run h.world with
  | done a w =>
    rw [hrun] at hends
    cases hends with
    | done ha =>
      obtain ⟨k', hsteps', hS, hends'⟩ := hf a k.values
        (List.Subset.trans hknown hsteps.values_subset) ha k
        (hsteps.closed hclosed) (List.Subset.refl _)
      refine ⟨k', hsteps.trans hsteps', ?_, ?_⟩
      · rintro v (hv | ⟨a', w', hrun', hv⟩)
        · exact hsteps'.values_subset (hR v hv)
        · rw [hrun] at hrun'
          cases hrun'
          exact hS v hv
      · rw [run_bind_of_done hrun]
        exact hends'
  | failed e w =>
    rw [hrun] at hends
    cases hends with
    | failed he =>
      refine ⟨k, hsteps, ?_, ?_⟩
      · rintro v (hv | ⟨a', w', hrun', hv⟩)
        · exact hR v hv
        · rw [hrun] at hrun'
          cases hrun'
      · rw [run_bind_of_failed hrun]
        exact .failed he
  | exhausted =>
    refine ⟨k, hsteps, ?_, ?_⟩
    · rintro v (hv | ⟨a', w', hrun', hv⟩)
      · exact hR v hv
      · rw [hrun] at hrun'
        cases hrun'
    · rw [run_bind_of_exhausted hrun]
      exact .exhausted

/-- Less may come up than is recorded. -/
theorem Recorded.mono {S : World → Value → Prop} {x : Eval ε α}
    (h : x.Recorded R E P known) (hSR : ∀ w v, S w v → R w v) :
    x.Recorded S E P known := by
  intro k hclosed hknown
  obtain ⟨k', hsteps, hR, hends⟩ := h k hclosed hknown
  exact ⟨k', hsteps, fun v hv => hR v (hSR _ v hv), hends⟩

/-- Null is always known. -/
theorem Recorded.of_nothing {x : Eval ε α}
    (h : x.Recorded R E P (.nothing :: known)) : x.Recorded R E P known :=
  fun k hclosed hknown =>
    h k hclosed (List.cons_subset.2 ⟨hclosed.nothing, hknown⟩)

/-- Evaluations in the course of which nothing comes up but their results. -/
theorem Recorded.andThen {x : Eval ε α} {f : α → Eval ε β}
    (hx : x.Recorded Nothing E P known)
    (hf : ∀ a known', known ⊆ known' → P known' a →
      (f a).Recorded Nothing E Q known') :
    (x >>= f).Recorded Nothing E Q known :=
  (hx.bind hf).mono fun _ _ h => h.elim

theorem Recorded.mapError {x : Eval ε α} (h : x.Recorded R E P known)
    {f : ε → ε'} (hf : ∀ vs e, E vs e → F vs (f e)) :
    (x.mapError f).Recorded R F P known := by
  intro k hclosed hknown
  obtain ⟨k', hsteps, hR, hends⟩ := h k hclosed hknown
  refine ⟨k', hsteps, hR, ?_⟩
  unfold Eval.run Eval.mapError at *
  cases hrun : x k.world with
  | done a w =>
    rw [hrun] at hends
    cases hends with
    | done ha => exact .done ha
  | failed e w =>
    rw [hrun] at hends
    cases hends with
    | failed he => exact .failed (hf _ _ he)
  | exhausted => exact .exhausted

end Eval

section

variable {R : World → Value → Prop} {known : List Value}

theorem Operation.recorded_lift {α : Type} {P : List Value → α → Prop}
    {x : Operation α} (h : Eval.Recorded R Anything P known x) :
    Eval.Recorded R HasReturned P known x.lift :=
  h.mapError fun _ _ _ => trivial

/-- A `return` that is caught: the value has been when it was returned. -/
theorem Evaluation.recorded_catchReturn {x : Evaluation Value}
    (h : Eval.Recorded R HasReturned Has known x) :
    Eval.Recorded R Anything Has known x.catchReturn := by
  intro k hclosed hknown
  obtain ⟨k', hsteps, hR, hends⟩ := h k hclosed hknown
  refine ⟨k', hsteps, hR, ?_⟩
  unfold Eval.run Evaluation.catchReturn at *
  cases hrun : x k.world with
  | done v w =>
    rw [hrun] at hends
    cases hends with
    | done hv => exact .done hv
  | failed i w =>
    rw [hrun] at hends
    cases hends with
    | failed hi =>
      cases i with
      | returned v => exact .done hi
      | failed e => exact .failed trivial
  | exhausted => exact .exhausted

end

/-! ## Operations -/

section

variable {known : List Value}

theorem Value.recorded_asKey (v : Value) :
    v.asKey.Recorded Nothing Anything Anything known := by
  unfold Value.asKey
  split
  · exact recorded_done fun _ _ _ => trivial
  · exact recorded_fail fun _ _ _ => trivial

theorem recorded_exactly (e : EvalError) (value : Option Int64) :
    (exactly e value).Recorded Nothing Anything Has known := by
  cases value with
  | some value => exact recorded_newInt value
  | none => exact recorded_fail fun _ _ _ => trivial

theorem UnaryOp.recorded_apply (op : UnaryOp) (v : Value) :
    (op.apply v).Recorded Nothing Anything Has known := by
  unfold UnaryOp.apply
  split
  · exact recorded_done fun h hclosed _ => hclosed.truth _
  · exact recorded_exactly _ _
  · exact recorded_fail fun _ _ _ => trivial

/-- **Operators** make integers and strings, and their answers are shared. -/
theorem BinaryOp.recorded_apply (op : BinaryOp) (v w : Value) :
    (op.apply v w).Recorded Nothing Anything Has known := by
  unfold BinaryOp.apply
  split
  · cases op with
    | plus | minus | multiply => exact recorded_exactly _ _
    | divide =>
      unfold BinaryOp.onInts
      dsimp only
      split
      · exact recorded_fail fun _ _ _ => trivial
      · exact recorded_exactly _ _
    | lessThan | greaterThan | equal | notEqual =>
      exact recorded_done fun h hclosed _ => hclosed.truth _
  · cases op with
    | plus => exact recorded_newStr _
    | _ => exact recorded_fail fun _ _ _ => trivial
  · cases op with
    | equal | notEqual => exact recorded_done fun h hclosed _ => hclosed.truth _
    | _ =>
      unfold BinaryOp.onObjects
      dsimp only
      split <;> exact recorded_fail fun _ _ _ => trivial

/-- **An index** gives a part of a value, or null. -/
theorem Value.recorded_at {v : Value} (hv : v ∈ known) (w : Value) :
    (v.at w).Recorded Nothing Anything Has known := by
  unfold Value.at
  split
  · rename_i id elements i position
    refine recorded_done fun h hclosed hknown => ?_
    cases hget : elementAt? elements position with
    | none => exact hclosed.nothing
    | some u =>
      exact hclosed.parts (hknown hv) (Correspondence.mem_of_elementAt? hget)
  · rename_i id entries
    refine w.recorded_asKey.andThen fun key known' hsub _ => ?_
    split
    · rename_i object value hget
      refine recorded_done fun h hclosed hknown => ?_
      refine hclosed.parts (hknown (hsub hv)) ?_
      exact List.mem_flatMap.2 ⟨_, Table.mem_of_get? hget,
        List.mem_cons_of_mem _ List.mem_cons_self⟩
    · exact recorded_done fun h hclosed _ => hclosed.nothing
  · exact recorded_fail fun _ _ _ => trivial

theorem Builtin.recorded_elementsOf (b : Builtin) {v : Value}
    (hv : v ∈ known) :
    (b.elementsOf v).Recorded Nothing Anything HasAll known := by
  unfold Builtin.elementsOf
  split
  · exact recorded_done fun h hclosed hknown => hclosed.parts (hknown hv)
  · exact recorded_fail fun _ _ _ => trivial

theorem History.steps_writeValues (h : History) (vs : List Value) :
    ∃ k, Steps h k ∧ k.world = h.world.writeValues vs := by
  induction vs generalizing h with
  | nil => exact ⟨h, .refl, rfl⟩
  | cons v vs ih =>
    obtain ⟨k, hsteps, hworld⟩ := ih ⟨h.world.writeValue v, h.values⟩
    exact ⟨k, .head .output hsteps, hworld⟩

/-- **Builtins** give parts of their arguments, null, and objects made of
them. -/
theorem Builtin.recorded_apply (b : Builtin) {args : List Value}
    (hargs : args ⊆ known) :
    (b.apply args).Recorded Nothing Anything Has known := by
  unfold Builtin.apply
  split
  · unfold Builtin.lengthOf
    split
    · exact recorded_newInt _
    · exact recorded_newInt _
    · exact recorded_fail fun _ _ _ => trivial
  · rename_i v
    have hv : v ∈ known := hargs List.mem_cons_self
    refine (first.recorded_elementsOf hv).andThen
      fun elements known' _ hall => ?_
    refine recorded_done fun h hclosed hknown => ?_
    cases elements with
    | nil => exact hclosed.nothing
    | cons u us => exact hknown (hall List.mem_cons_self)
  · rename_i v
    have hv : v ∈ known := hargs List.mem_cons_self
    refine (last.recorded_elementsOf hv).andThen fun elements known' _ hall => ?_
    refine recorded_done fun h hclosed hknown => ?_
    cases hlast : elements.getLast? with
    | none => exact hclosed.nothing
    | some u => exact hknown (hall (List.mem_of_getLast? hlast))
  · rename_i v
    have hv : v ∈ known := hargs List.mem_cons_self
    refine (rest.recorded_elementsOf hv).andThen fun elements known' _ hall => ?_
    split
    · exact recorded_done fun h hclosed _ => hclosed.nothing
    · exact recorded_newArray
        (List.Subset.trans (List.subset_cons_self _ _) hall)
  · rename_i v element
    have hv : v ∈ known := hargs List.mem_cons_self
    refine (push.recorded_elementsOf hv).andThen fun elements known' hsub hall =>
      ?_
    refine recorded_newArray (List.append_subset.2 ⟨hall, ?_⟩)
    refine List.cons_subset.2 ⟨hsub (hargs ?_), List.nil_subset _⟩
    exact List.mem_cons_of_mem _ List.mem_cons_self
  · refine (recorded_update fun h _ => h.steps_writeValues args).andThen
      fun _ known' _ _ => ?_
    exact recorded_done fun h hclosed _ => hclosed.nothing
  · exact recorded_fail fun _ _ _ => trivial
  · exact recorded_fail fun _ _ _ => trivial

/-- **A name** is bound to a value that there has been, or makes a builtin. -/
theorem recorded_lookup (scope : ScopeId) (x : String) :
    (lookup scope x).Recorded Nothing Anything Has known := by
  unfold lookup
  have hask : (Eval.ask (·.get? scope x) : Operation (Option Value)).Recorded
      Nothing Anything (fun vs o => ∀ v, o = some v → v ∈ vs) known := by
    refine recorded_ask fun h hclosed _ v hv => ?_
    obtain ⟨s, -, hs⟩ := List.exists_of_findSome?_eq_some hv
    exact hclosed.bound hs
  refine hask.andThen fun o known' _ ho => ?_
  split
  · exact recorded_done fun h _ hknown => hknown (ho _ rfl)
  · split
    · exact recorded_make .builtin (by decide) (fun _ => rfl) (fun _ => rfl)
        fun _ => List.nil_subset _
    · exact recorded_fail fun _ _ _ => trivial

end

end Monkey
