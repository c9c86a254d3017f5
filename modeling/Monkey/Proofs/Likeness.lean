import Mathlib.Data.List.Perm.Subperm
import Monkey.Proofs.Order

/-!
# What it is to have the same contents

`Value.equal` goes through two values at once and compares what it finds, but
for the identities. So two values have the same contents exactly if they are
the same once their identities are taken away (`Value.equal_iff_bare`), and
that having the same contents is an equivalence, and which questions about a
value it does not change the answers to, is immediate.

What it says of two hashes is less so. It goes through their entries side by
side, which is right only since the keys of both ascend: then hashes have the
same contents if they have as many entries and each of the first is found in
the second (`Value.equal_iff_like`), in whichever order they were filled. For
values that an evaluation meets, this is so (`Moment.Meets.orderly`).
-/

namespace Monkey

open Eval History

/-! ## Values without their identities -/

mutual

/-- **The value without its identities**: truth values and null are the shared
ones, and all objects have the same number. -/
def Value.bare : Value → Value
  | .int _ value => .int 0 value
  | .bool _ value => .truth value
  | .str _ text => .str 0 text
  | .array _ elements => .array 0 (bareValues elements)
  | .hash _ entries => .hash 0 (bareEntries entries)
  | .fn _ closure => .fn 0 closure
  | .builtin _ which => .builtin 0 which
  | .null _ => .nothing

/-- The elements of an array without their identities. -/
def bareValues : List Value → List Value
  | [] => []
  | v :: vs => v.bare :: bareValues vs

/-- The entries of a hash without the identities of their objects. -/
def bareEntries :
    List (HashKey × Value × Value) → List (HashKey × Value × Value)
  | [] => []
  | (k, key, value) :: es => (k, key.bare, value.bare) :: bareEntries es

end

/-- The two objects of an entry without their identities. -/
def barePair (p : Value × Value) : Value × Value := (p.1.bare, p.2.bare)

theorem bareEntries_eq_map (es : List (HashKey × Value × Value)) :
    bareEntries es = es.map fun e => (e.1, barePair e.2) := by
  induction es with
  | nil => rfl
  | cons e es ih =>
    rw [bareEntries, ih]
    rfl

mutual

/-- **Values have the same contents if they differ in their identities at
most.** -/
theorem Value.equal_iff_bare (a b : Value) :
    a.equal b = true ↔ a.bare = b.bare := by
  match a with
  | .array _ vs =>
    cases b with
    | array _ ws =>
      refine (equalValues_iff_bare vs ws).trans ?_
      simp [Value.bare]
    | _ => simp [Value.equal, Value.bare]
  | .hash _ es =>
    cases b with
    | hash _ fs =>
      refine (equalEntries_iff_bare es fs).trans ?_
      simp [Value.bare]
    | _ => simp [Value.equal, Value.bare]
  | .int _ _ | .bool _ _ | .str _ _ | .fn _ _ | .builtin _ _ | .null _ =>
    cases b <;> simp [Value.equal, Value.bare]

theorem equalValues_iff_bare (vs ws : List Value) :
    equalValues vs ws = true ↔ bareValues vs = bareValues ws := by
  match vs, ws with
  | [], [] => simp [equalValues]
  | [], w :: ws => simp [equalValues, bareValues]
  | v :: vs, [] => simp [equalValues, bareValues]
  | v :: vs, w :: ws =>
    rw [equalValues, Bool.and_eq_true, v.equal_iff_bare w,
      equalValues_iff_bare vs ws, bareValues, bareValues, List.cons.injEq]

theorem equalEntries_iff_bare (es fs : List (HashKey × Value × Value)) :
    equalEntries es fs = true ↔ bareEntries es = bareEntries fs := by
  match es, fs with
  | [], [] => simp [equalEntries]
  | [], f :: fs => simp [equalEntries, bareEntries]
  | e :: es, [] => simp [equalEntries, bareEntries]
  | (k, key, v) :: es, (k', key', v') :: fs =>
    rw [equalEntries, Bool.and_eq_true, Bool.and_eq_true, Bool.and_eq_true,
      beq_iff_eq, key.equal_iff_bare key', v.equal_iff_bare v',
      equalEntries_iff_bare es fs, bareEntries, bareEntries,
      List.cons.injEq, Prod.mk.injEq, Prod.mk.injEq, and_assoc, and_assoc,
      and_assoc, and_assoc]

end

namespace Value

variable {a b : Value}

theorem equal_comm (a b : Value) : a.equal b = b.equal a := by
  rw [Bool.eq_iff_iff, equal_iff_bare, equal_iff_bare]
  exact eq_comm

/-- What does not ask for identities has the same answer for values with the
same contents. -/
theorem eq_of_equal {α : Type} {f : Value → α} (hf : ∀ v, f v.bare = f v)
    (h : a.equal b = true) : f a = f b := by
  rw [← hf a, (equal_iff_bare a b).1 h, hf b]

/-- **A key has the contents of its value**, and no more. -/
theorem equal_iff_of_key? {j k : HashKey} (ha : a.key? = some j)
    (hb : b.key? = some k) : a.equal b = true ↔ j = k := by
  cases a <;> cases ha <;> cases b <;> cases hb <;> simp [equal]

end Value

/-! ## Hashes -/

/-- **Hashes have the same contents** if they have as many entries, and those of
the first are found in the second. -/
theorem equalEntries_iff {es fs : Table HashKey (Value × Value)}
    (hes : es.Ascending) (hfs : fs.Ascending) :
    equalEntries es fs = true ↔ es.length = fs.length
      ∧ ∀ k key v, Table.get? k es = some (key, v) →
        ∃ key' v', Table.get? k fs = some (key', v')
          ∧ key.equal key' = true ∧ v.equal v' = true := by
  have hpair {p q : Value × Value} : p.1.equal q.1 = true ∧ p.2.equal q.2 = true
      ↔ barePair p = barePair q := by
    rw [Value.equal_iff_bare, Value.equal_iff_bare, ← Prod.mk.injEq]
    rfl
  rw [equalEntries_iff_bare, bareEntries_eq_map, bareEntries_eq_map]
  constructor
  · intro h
    refine ⟨by simpa using congrArg List.length h, ?_⟩
    intro k key v hget
    have hmap := congrArg (Table.get? k) h
    rw [Table.get?_map, Table.get?_map, hget, Option.map_some] at hmap
    obtain ⟨⟨key', v'⟩, hget', hbare⟩ := Option.map_eq_some_iff.1 hmap.symm
    exact ⟨key', v', hget', hpair.2 hbare.symm⟩
  · -- no key stands twice, so as many entries as the second has are all of them
    rintro ⟨hlength, hfound⟩
    have hes' := hes.map barePair
    refine hes'.eq_of_perm (hfs.map barePair) ?_
    have hnodup := List.Nodup.of_map _ hes'.nodup_keys
    refine (hnodup.subperm ?_).perm_of_length_le ?_
    · intro e he
      obtain ⟨⟨k, key, v⟩, hmem, rfl⟩ := List.mem_map.1 he
      have hget := (Table.get?_eq_some_iff hes.nodup_keys).2 hmem
      obtain ⟨key', v', hget', hequal⟩ := hfound k key v hget
      refine List.mem_map.2 ⟨(k, key', v'), Table.mem_of_get? hget', ?_⟩
      exact congrArg (Prod.mk k) (hpair.1 hequal).symm
    · simp [hlength]

/-! ## What is compared -/

/-- **What it is to have the same contents**, said of what two values consist
of: the same number, truth value or text; elements that have the same contents,
place by place; as many entries, each of which is found in the other, with the
same contents; the same parameters and body, and the same scope; the same name.
-/
def Value.Like : Value → Value → Prop
  | .int _ m, .int _ n => m = n
  | .bool _ p, .bool _ q => p = q
  | .str _ s, .str _ t => s = t
  | .array _ vs, .array _ ws =>
    List.Forall₂ (fun v w => v.equal w = true) vs ws
  | .hash _ es, .hash _ fs => es.length = fs.length
    ∧ ∀ k key v, Table.get? k es = some (key, v) →
      ∃ key' v', Table.get? k fs = some (key', v')
        ∧ key.equal key' = true ∧ v.equal v' = true
  | .fn _ f, .fn _ g =>
    f.params = g.params ∧ f.body = g.body ∧ f.scope = g.scope
  | .builtin _ b, .builtin _ c => b.name = c.name
  | .null _, .null _ => True
  | _, _ => False

theorem equalValues_iff_forall₂ {vs ws : List Value} : equalValues vs ws = true
    ↔ List.Forall₂ (fun v w => v.equal w = true) vs ws := by
  induction vs generalizing ws with
  | nil => cases ws <;> simp [equalValues]
  | cons v vs ih => cases ws <;> simp [equalValues, ih]

theorem Closure.eq_iff {f g : Closure} : f = g ↔
    f.params = g.params ∧ f.body = g.body ∧ f.scope = g.scope := by
  cases f
  cases g
  rw [Closure.mk.injEq]

theorem Builtin.name_inj {b c : Builtin} : b.name = c.name ↔ b = c := by
  refine ⟨fun h => ?_, congrArg _⟩
  rw [← Option.some_inj, ← ofName?_name b, h, ofName?_name]

/-- **Orderly values have the same contents** if what they consist of has. -/
theorem Value.equal_iff_like {a b : Value} (ha : a.Orderly) (hb : b.Orderly) :
    a.equal b = true ↔ a.Like b := by
  cases a with
  | array id vs =>
    cases b with
    | array id' ws => exact equalValues_iff_forall₂
    | _ => exact Bool.false_eq_true.to_iff
  | hash id es =>
    cases b with
    | hash id' fs => exact equalEntries_iff (ha id es .self) (hb id' fs .self)
    | _ => exact Bool.false_eq_true.to_iff
  | fn id f =>
    cases b with
    | fn id' g => exact beq_iff_eq.trans Closure.eq_iff
    | _ => exact Bool.false_eq_true.to_iff
  | builtin id which =>
    cases b with
    | builtin id' which' => exact beq_iff_eq.trans Builtin.name_inj.symm
    | _ => exact Bool.false_eq_true.to_iff
  | int | bool | str | null =>
    cases b <;> simp [equal, Like]

/-! ## In every evaluation -/

/-- **Values that are the same object are the same value.** -/
theorem Reached.eq_of_identical {m : Moment} {kept : List Value}
    (hreached : Reached m.world kept) (hinputs : m.job.inputs ⊆ kept)
    {a b : Value} (ha : m.Meets ⟨m.world, kept⟩ a)
    (hb : m.Meets ⟨m.world, kept⟩ b) (hsame : a.identical b = true) :
    a = b := by
  obtain ⟨order, h, hsteps, hworld, hkept⟩ := hreached.exists_history
  obtain ⟨h', hsteps', hbrings⟩ := m.exists_history (hsteps.closed closed_start)
    hworld.symm (List.Subset.trans hinputs hkept)
  have hall : Steps (History.start order) h' := hsteps.trans hsteps'
  have hclosed : h'.Closed := hall.closed closed_start
  have hvalues : kept ⊆ h'.values :=
    List.Subset.trans hkept hsteps'.values_subset
  exact hall.coherent.unique (ha.mem hclosed hvalues hbrings)
    (hb.mem hclosed hvalues hbrings) (eq_of_beq hsame)

/-- Hashes that are filled with the same pairs have the same contents, in
whichever order. -/
theorem Value.equal_hash_enter {ps qs : List (HashKey × Value × Value)}
    (hperm : ps.Perm qs) (hnodup : (ps.map Prod.fst).Nodup) (id id' : ObjectId)
    (v : Value) : (Value.hash id (Table.enter [] ps)).equal v
      = (Value.hash id' (Table.enter [] qs)).equal v := by
  rw [Table.enter_eq_of_perm hperm hnodup]
  cases v <;> rfl

theorem Value.truthy_bare (v : Value) : v.bare.truthy = v.truthy := by
  cases v <;> rfl

theorem Value.asKey_bare (v : Value) : v.bare.asKey = v.asKey := by
  cases v <;> rfl

/-- **Having the same contents is a congruence.** Let a run have come to some
world, and let an evaluation begin there. For the values that it meets, to have
the same contents means what it says (`Value.Like`). It is reflexive, symmetric
and transitive, and does not depend on the order in which hashes have been
filled. Values that are the same object have the same contents. Values with the
same contents have the same type and count alike in conditions and as keys, and
two that can be keys have the same contents exactly if they are the same key.
-/
theorem Moment.likeness_congruent {m : Moment} {kept : List Value}
    (hreached : Reached m.world kept) (hinputs : m.job.inputs ⊆ kept)
    {a b : Value} (ha : m.Meets ⟨m.world, kept⟩ a)
    (hb : m.Meets ⟨m.world, kept⟩ b) :
    (a.equal b = true ↔ a.Like b)
      ∧ a.equal a = true
      ∧ a.equal b = b.equal a
      ∧ (∀ c, a.equal b = true → b.equal c = true → a.equal c = true)
      ∧ (∀ ps qs, List.Perm ps qs → (ps.map Prod.fst).Nodup → ∀ id id',
        (Value.hash id (Table.enter [] ps)).equal a
          = (Value.hash id' (Table.enter [] qs)).equal a)
      ∧ (a.identical b = true → a.equal b = true)
      ∧ (a.equal b = true →
        a.type = b.type ∧ a.truthy = b.truthy ∧ a.asKey = b.asKey)
      ∧ (∀ j k, a.key? = some j → b.key? = some k →
        (a.equal b = true ↔ j = k)) := by
  obtain ⟨hbound, hkept⟩ := hreached.orderly
  have hm : m.Orderly := ⟨hbound, fun v hv => hkept v (hinputs hv)⟩
  refine ⟨Value.equal_iff_like (ha.orderly hkept hm) (hb.orderly hkept hm),
    a.equal_self, a.equal_comm b, ?_, ?_, ?_, ?_, ?_⟩
  · intro c hab hbc
    rw [Value.equal_iff_bare] at hab hbc ⊢
    exact hab.trans hbc
  · exact fun ps qs hperm hnodup id id' =>
      Value.equal_hash_enter hperm hnodup id id' a
  · intro hsame
    rw [hreached.eq_of_identical hinputs ha hb hsame]
    exact b.equal_self
  · intro hab
    exact ⟨Value.type_eq_of_equal hab,
      Value.eq_of_equal Value.truthy_bare hab,
      Value.eq_of_equal Value.asKey_bare hab⟩
  · exact fun j k hj hk => Value.equal_iff_of_key? hj hk

/-- The two elements of `[{1: 2}, {1: 2}]` are not the same object, but have the
same contents. -/
theorem Moment.likeness_congruent_hashes :
    let m : Moment := ⟨.expr (.array
      [.hash [(.int 1, .int 2)], .hash [(.int 1, .int 2)]]), 0, 0,
      World.empty .ascending⟩
    let a : Value := .hash 2 [(.int 1, .int 0 1, .int 1 2)]
    let b : Value := .hash 5 [(.int 1, .int 3 1, .int 4 2)]
    m.Meets (start .ascending) a ∧ m.Meets (start .ascending) b
      ∧ a.identical b = false ∧ a.equal b = true ∧ b.equal a = true
      ∧ a.asKey = b.asKey := by
  intro m a b
  have hcomes : m.ComesTo (.array 6 [a, b]) := .expr rfl
  have ha : m.Meets (start .ascending) a :=
    ⟨_, .inr ⟨m, .refl, .result hcomes⟩, .element List.mem_cons_self .self⟩
  have hb : m.Meets (start .ascending) b :=
    ⟨_, .inr ⟨m, .refl, .result hcomes⟩,
      .element (List.mem_cons_of_mem _ List.mem_cons_self) .self⟩
  obtain ⟨hlike, -, hcomm, -, -, -, hsame, -⟩ :=
    Moment.likeness_congruent .start (List.nil_subset _) ha hb
  have hab : a.equal b = true := by
    refine hlike.2 ⟨rfl, fun k key v hget => ?_⟩
    obtain ⟨rfl, rfl, rfl⟩ : k = .int 1 ∧ key = .int 0 1 ∧ v = .int 1 2 := by
      simpa using Table.mem_of_get? hget
    exact ⟨_, _, rfl, rfl, rfl⟩
  exact ⟨ha, hb, rfl, hab, hcomm ▸ hab, (hsame hab).2.2⟩

end Monkey
