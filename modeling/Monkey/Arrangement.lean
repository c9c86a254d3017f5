import Monkey.Value

/-!
# The order of the entries of a hash

The entries of a hash are shown in some order, and which one it is, is not
specified: it may be another one for each hash, also for two hashes with the
same entries, and another one in each run. All that is known is that a hash has
one order as long as it exists, and that every entry has its turn.

So a run takes the orders of all its hashes as given. They are its
*arrangement*, in which a hash is known by its identity.
-/

namespace Monkey

/-- **The orders in which hashes show their entries.** -/
structure Arrangement where
  /-- The keys of the hash with an identity, in its order. -/
  arrange : ObjectId → List HashKey → List HashKey
  /-- Every key has its turn, once. -/
  perm : ∀ id keys, (arrange id keys).Perm keys

namespace Arrangement

/-- All hashes show their entries in the order that tables have them in, which
is ascending. -/
def ascending : Arrangement where
  arrange _ keys := keys
  perm _ := List.Perm.refl

instance : Inhabited Arrangement := ⟨ascending⟩

/-- The entries of a table, in the order of the hash with the identity. -/
def entries {β : Type} (a : Arrangement) (id : ObjectId) (t : Table HashKey β) :
    List β :=
  (a.arrange id (Table.keys t)).filterMap fun key => Table.get? key t

end Arrangement

end Monkey
