import Mathlib.Data.List.Induction
import Mathlib.Data.List.Nodup
import Monkey.Proofs.Renaming

/-!
# Tables as maps

A table is a list, but what it says is a map: for a key, the entry if there is
one. The list adds nothing to that as long as its keys ascend
(`Table.Ascending`), since then it is determined by the map
(`Table.Ascending.ext`). Entering pairs keeps the keys ascending, whatever the
order in which they are entered.

The table that is made of pairs, entered one after the other, maps a key to the
last of the pairs with that key (`Table.get?_enter_eq_some_iff`). So the order
matters for pairs with the same key, and not for others
(`Table.enter_eq_of_perm`).
-/

namespace Monkey

/-! ## The order of keys -/

namespace HashKey

instance : Std.TransOrd HashKey :=
  inferInstanceAs (Std.TransCmp (compareLex _ _))

/-- Keys that are neither before nor behind each other are the same. -/
instance : Std.LawfulEqOrd HashKey where
  compare_self := Std.ReflCmp.compare_self
  eq_of_compare {a b} h := by
    obtain ⟨hsort, h⟩ := compareLex_eq_eq.1 h
    obtain ⟨hnumber, htext⟩ := compareLex_eq_eq.1 h
    exact eq_of_coordinates (Std.LawfulEqCmp.eq_of_compare hsort)
      (Std.LawfulEqCmp.eq_of_compare hnumber)
      (Std.LawfulEqCmp.eq_of_compare htext)

end HashKey

namespace Table

/-! ## A table is told by its map -/

section

variable {κ β : Type} [DecidableEq κ] {t : Table κ β} {k : κ}

theorem get?_eq_none_iff : get? k t = none ↔ k ∉ t.keys := by
  induction t with
  | nil => simp [keys]
  | cons e t ih =>
    rw [get?, keys, List.map_cons, List.mem_cons, not_or]
    split
    · simp_all
    · rename_i hne
      rw [ih]
      exact (and_iff_right hne).symm

/-- **What stands in a table is what it says**, if no key stands twice. -/
theorem get?_eq_some_iff (h : t.keys.Nodup) {b : β} :
    get? k t = some b ↔ (k, b) ∈ t := by
  refine ⟨mem_of_get?, fun hmem => ?_⟩
  induction t with
  | nil => cases hmem
  | cons e t ih =>
    obtain ⟨hfirst, hrest⟩ := List.nodup_cons.1 h
    obtain rfl | hmem := List.mem_cons.1 hmem
    · exact if_pos rfl
    · have hne : k ≠ e.1 := by
        rintro rfl
        exact hfirst (List.mem_map.2 ⟨_, hmem, rfl⟩)
      rw [get?, if_neg hne]
      exact ih hrest hmem

end

section

variable {κ β : Type} [Ord κ]

/-- **The keys ascend.** -/
def Ascending (t : Table κ β) : Prop :=
  t.Pairwise fun e f => compare e.1 f.1 = .lt

theorem Ascending.map {γ : Type} {t : Table κ β} (h : t.Ascending) (f : β → γ) :
    Table.Ascending (t.map fun e => (e.1, f e.2)) :=
  List.pairwise_map.2 h

variable [Std.TransOrd κ] {t u : Table κ β}

/-- No key stands twice. -/
theorem Ascending.nodup_keys (h : t.Ascending) : t.keys.Nodup := by
  refine List.pairwise_map.2 (h.imp fun {e f} hlt heq => ?_)
  rw [heq] at hlt
  exact Std.OrientedCmp.not_lt_of_lt hlt hlt

/-- Entries whose keys ascend stand in one order only. -/
theorem Ascending.eq_of_perm (ht : t.Ascending) (hu : u.Ascending)
    (h : t.Perm u) : t = u := by
  refine h.eq_of_pairwise ?_ ht hu
  exact fun e f _ _ hef hfe => absurd hfe (Std.OrientedCmp.not_lt_of_lt hef)

variable [DecidableEq κ]

/-- **Tables with ascending keys that say the same are the same.** -/
theorem Ascending.ext (ht : t.Ascending) (hu : u.Ascending)
    (h : ∀ k b, get? k t = some b ↔ get? k u = some b) : t = u := by
  have hmem (e : κ × β) : e ∈ t ↔ e ∈ u := by
    rw [← get?_eq_some_iff ht.nodup_keys, h, get?_eq_some_iff hu.nodup_keys]
  refine ht.eq_of_perm hu ((List.perm_ext_iff_of_nodup ?_ ?_).2 hmem)
  · exact List.Nodup.of_map _ ht.nodup_keys
  · exact List.Nodup.of_map _ hu.nodup_keys

/-- **Entering a pair keeps the keys ascending.** -/
theorem Ascending.insert [Std.LawfulEqOrd κ] (h : t.Ascending) (k : κ) (b : β) :
    (Table.insert k b t).Ascending := by
  induction t with
  | nil => exact List.pairwise_singleton _ _
  | cons e t ih =>
    obtain ⟨hfirst, hrest⟩ := List.pairwise_cons.1 h
    rw [Table.insert]
    split
    · rename_i hk
      subst hk
      exact .cons hfirst hrest
    · rename_i hne
      split
      · rename_i hlt
        refine .cons (fun f hf => ?_) h
        obtain rfl | hf := List.mem_cons.1 hf
        · exact hlt
        · exact Std.TransCmp.lt_trans hlt (hfirst f hf)
      · rename_i hlt
        have hgt : compare e.1 k = .lt := by
          cases hcompare : compare k e.1 with
          | lt => exact absurd hcompare hlt
          | eq => exact absurd (Std.LawfulEqCmp.eq_of_compare hcompare) hne
          | gt => exact Std.OrientedCmp.gt_iff_lt.1 hcompare
        refine .cons (fun f hf => ?_) (ih hrest)
        obtain rfl | hf := eq_or_mem_of_mem_insert hf
        · exact hgt
        · exact hfirst f hf

end

/-! ## Entering pairs -/

section

variable {κ β : Type}

/-- **The last of the pairs with a key.** -/
def LastFor (k : κ) (ps : List (κ × β)) (b : β) : Prop :=
  ∃ front rest, ps = front ++ (k, b) :: rest ∧ ∀ p ∈ rest, p.1 ≠ k

theorem lastFor_concat [DecidableEq κ] {k : κ} {ps : List (κ × β)}
    {p : κ × β} {b : β} :
    LastFor k (ps ++ [p]) b ↔ if k = p.1 then p.2 = b else LastFor k ps b := by
  constructor
  · rintro ⟨front, rest, heq, hrest⟩
    obtain rfl | ⟨rest, q, rfl⟩ := rest.eq_nil_or_concat'
    · obtain ⟨-, hp⟩ := List.append_inj' heq rfl
      rw [List.singleton_inj.1 hp, if_pos rfl]
    · rw [← List.cons_append, ← List.append_assoc] at heq
      obtain ⟨hps, hp⟩ := List.append_inj' heq rfl
      rw [List.forall_mem_append] at hrest
      rw [List.singleton_inj.1 hp,
        if_neg (hrest.2 q (List.mem_singleton_self q)).symm]
      exact ⟨front, rest, hps, hrest.1⟩
  · split
    · rintro rfl
      rename_i hk
      exact ⟨ps, [], by rw [hk], by simp⟩
    · rintro ⟨front, rest, rfl, hrest⟩
      rename_i hne
      refine ⟨front, rest ++ [p], by simp, ?_⟩
      rw [List.forall_mem_append]
      exact ⟨hrest, by simpa using Ne.symm hne⟩

/-- Where no key stands twice, every pair is the last with its key. -/
theorem lastFor_iff_mem {ps : List (κ × β)} (h : (ps.map Prod.fst).Nodup)
    {k : κ} {b : β} : LastFor k ps b ↔ (k, b) ∈ ps := by
  constructor
  · rintro ⟨front, rest, rfl, -⟩
    simp
  · intro hmem
    obtain ⟨front, rest, rfl⟩ := List.append_of_mem hmem
    refine ⟨front, rest, rfl, fun p hp hk => ?_⟩
    rw [List.map_append, List.map_cons, List.nodup_append] at h
    exact (List.nodup_cons.1 h.2.1).1 (List.mem_map.2 ⟨p, hp, hk⟩)

variable [DecidableEq κ] [Ord κ]

/-- Enters pairs into a table, one after the other. -/
def enter (t : Table κ β) (ps : List (κ × β)) : Table κ β :=
  ps.foldl (fun t p => insert p.1 p.2 t) t

theorem enter_concat (t : Table κ β) (ps : List (κ × β)) (p : κ × β) :
    enter t (ps ++ [p]) = insert p.1 p.2 (enter t ps) := by
  rw [enter, List.foldl_append]
  rfl

/-- **The last pair with a key is what the table says.** -/
theorem get?_enter_eq_some_iff {k : κ} {ps : List (κ × β)} {b : β} :
    get? k (enter [] ps) = some b ↔ LastFor k ps b := by
  induction ps using List.reverseRecOn with
  | nil => simp [enter, LastFor]
  | append_singleton ps p ih =>
    rw [enter_concat, get?_insert, lastFor_concat]
    split
    · exact Option.some_inj
    · exact ih

/-- The table has the keys of the pairs. -/
theorem mem_keys_enter_iff {k : κ} {ps : List (κ × β)} :
    k ∈ (enter [] ps).keys ↔ k ∈ ps.map Prod.fst := by
  rw [← not_iff_not, ← get?_eq_none_iff]
  induction ps using List.reverseRecOn with
  | nil => simp [enter]
  | append_singleton ps p ih =>
    rw [enter_concat, get?_insert, List.map_append, List.mem_append, not_or,
      ← ih]
    by_cases hk : k = p.1 <;> simp [hk]

variable [Std.TransOrd κ] [Std.LawfulEqOrd κ]

theorem Ascending.enter {t : Table κ β} (h : t.Ascending)
    (ps : List (κ × β)) : (Table.enter t ps).Ascending := by
  induction ps generalizing t with
  | nil => exact h
  | cons p ps ih => exact ih (h.insert p.1 p.2)

/-- **The order does not matter** for pairs with different keys. -/
theorem enter_eq_of_perm {ps qs : List (κ × β)} (hperm : ps.Perm qs)
    (h : (ps.map Prod.fst).Nodup) : enter [] ps = enter [] qs := by
  refine Ascending.ext (.enter .nil ps) (.enter .nil qs) fun k b => ?_
  rw [get?_enter_eq_some_iff, get?_enter_eq_some_iff, lastFor_iff_mem h,
    lastFor_iff_mem ((hperm.map Prod.fst).nodup_iff.1 h), hperm.mem_iff]

end

end Table

end Monkey
