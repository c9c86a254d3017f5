/-!
# Tables

A table maps keys to entries. It is kept as the list of its pairs in ascending
order of the keys, so that going through a table has one order, whatever the
order in which its entries were made, and two tables with the same entries are
the same list. Scopes and hashes are tables.

A table is a plain list of pairs and not a type of its own: values contain
tables of values, and recursion on values goes through the list.
-/

namespace Monkey

/-- **A table**: pairs of a key and its entry, in ascending order of keys. -/
abbrev Table (κ β : Type) := List (κ × β)

namespace Table

variable {κ β : Type}

/-- The entry of a key. -/
def get? [DecidableEq κ] (k : κ) : Table κ β → Option β
  | [] => none
  | (k', b) :: t => if k = k' then some b else get? k t

/-- Enters `b` for the key `k`, in place of the entry that `k` had before. -/
def insert [DecidableEq κ] [Ord κ] (k : κ) (b : β) : Table κ β → Table κ β
  | [] => [(k, b)]
  | (k', b') :: t =>
    if k = k' then (k, b) :: t
    else if compare k k' = .lt then (k, b) :: (k', b') :: t
    else (k', b') :: insert k b t

/-- The keys of a table, in ascending order. -/
def keys (t : Table κ β) : List κ := t.map Prod.fst

@[simp] theorem get?_nil [DecidableEq κ] (k : κ) :
    get? k ([] : Table κ β) = none := rfl

/-- **Entering changes one key.** -/
theorem get?_insert [DecidableEq κ] [Ord κ] (k k' : κ) (b : β)
    (t : Table κ β) :
    get? k' (insert k b t) = if k' = k then some b else get? k' t := by
  induction t with
  | nil => rfl
  | cons entry t ih =>
    obtain ⟨l, c⟩ := entry
    rw [insert]
    split
    · rename_i h
      subst h
      by_cases h' : k' = k <;> simp [get?, h']
    · rename_i hne
      split
      · rfl
      · by_cases h' : k' = l
        · subst h'
          simp [get?, Ne.symm hne]
        · simp [get?, h', ih]

@[simp] theorem get?_insert_self [DecidableEq κ] [Ord κ] (k : κ) (b : β)
    (t : Table κ β) : get? k (insert k b t) = some b := by
  simp [get?_insert]

end Table

end Monkey
