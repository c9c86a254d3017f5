import Monkey.Proofs.Naming
import Monkey.Proofs.Sequence
import Monkey.Proofs.Tables

/-!
# Hash literals

The pairs of a hash literal are evaluated from left to right, and of a pair the
key before the value. Between the two the key is checked, so a key that is
unusable ends the evaluation before its value has its turn. Each pair is entered
into the table of those before it.

What the evaluation does to the world is said by `Evaluated`, a relation that
knows nothing of tables: the expressions come to objects, one after the other.
What comes of it is said by `IsMapOf`, which knows nothing of evaluation: the
hash has one entry for each key, the last of the pairs with that key, and an
index gives the value of that pair. `Expr.hash_last_wins` puts the two
together.
-/

namespace Monkey

open Eval

section

variable (call : Closure → List Value → Operation Value) (scope : ScopeId)

/-- **The pairs come to objects that can be entered**: from left to right, and
of each pair the key before the value. An object that is a key goes with the
key that it is. -/
inductive Evaluated : List (Expr × Expr) → World →
    List (HashKey × Value × Value) → World → Prop where
  | nil {w : World} : Evaluated [] w [] w
  | cons {key value : Expr} {ps : List (Expr × Expr)} {w w₁ w₂ w' : World}
      {object v : Value} {k : HashKey}
      {pairs : List (HashKey × Value × Value)} :
      (key.eval call scope).run w = .done object w₁ → object.key? = some k →
      (value.eval call scope).run w₁ = .done v w₂ →
      Evaluated ps w₂ pairs w' →
      Evaluated ((key, value) :: ps) w ((k, object, v) :: pairs) w'

end

/-- **The table is the map that the pairs make**, if later ones replace earlier
ones. -/
structure IsMapOf (t : Table HashKey (Value × Value))
    (pairs : List (HashKey × Value × Value)) : Prop where
  /-- There is one entry for a key. -/
  distinct : t.keys.Nodup
  /-- The keys are those of the pairs. -/
  keys : ∀ k, k ∈ t.keys ↔ k ∈ pairs.map Prod.fst
  /-- The entries are the last pairs with their keys. -/
  entries : ∀ k object v,
    (k, object, v) ∈ t ↔ Table.LastFor k pairs (object, v)
  /-- The object that stands in an entry is its key. -/
  backed : ∀ k object v, (k, object, v) ∈ t → object.key? = some k
  /-- An index gives the value of the last pair with the key. -/
  found : ∀ id i k object v w, i.key? = some k →
    Table.LastFor k pairs (object, v) →
    ((Value.hash id t).at i).run w = .done v w
  /-- Where there is no pair with the key, it gives null. -/
  missing : ∀ id i k w, i.key? = some k → k ∉ pairs.map Prod.fst →
    ((Value.hash id t).at i).run w = .done .nothing w
  /-- What is no key is no index. -/
  unusable : ∀ id i w, i.key? = none →
    ((Value.hash id t).at i).run w = .failed (.unusableKey i.type) w

/-! ## Evaluating pairs -/

section

variable {call : Closure → List Value → Operation Value} {scope : ScopeId}
  {ps : List (Expr × Expr)} {w w' : World}
  {pairs : List (HashKey × Value × Value)}

theorem Value.run_asKey_of_some {v : Value} {k : HashKey} (h : v.key? = some k)
    (w : World) : v.asKey.run w = .done k w := by
  rw [Value.asKey, h]
  rfl

theorem Value.run_asKey_of_none {v : Value} (h : v.key? = none) (w : World) :
    v.asKey.run w = .failed (.unusableKey v.type) w := by
  rw [Value.asKey, h]
  rfl

/-- **Pairs that come to objects are entered**, in their order. -/
theorem Evaluated.run_evalPairs (h : Evaluated call scope ps w pairs w')
    (t : Table HashKey (Value × Value)) :
    (evalPairs call scope t ps).run w = .done (t.enter pairs) w' := by
  induction h generalizing t with
  | nil =>
    rw [evalPairs]
    rfl
  | cons hkey husable hvalue _ ih =>
    rw [evalPairs, run_bind_of_done hkey,
      run_bind_of_done
        (Operation.run_lift_of_done (Value.run_asKey_of_some husable _)),
      run_bind_of_done hvalue]
    exact ih _

/-- The objects are the keys that they go with. -/
theorem Evaluated.key?_eq (h : Evaluated call scope ps w pairs w') :
    ∀ p ∈ pairs, p.2.1.key? = some p.1 := by
  induction h with
  | nil => simp
  | cons _ husable _ _ ih => exact List.forall_mem_cons.2 ⟨husable, ih⟩

end

/-! ## The table of the pairs -/

/-- **The table that the pairs are entered into is their map.** -/
theorem isMapOf_enter {pairs : List (HashKey × Value × Value)}
    (hkeys : ∀ p ∈ pairs, p.2.1.key? = some p.1) :
    IsMapOf (Table.enter [] pairs) pairs := by
  have hnodup : (Table.enter [] pairs).keys.Nodup :=
    (Table.Ascending.enter .nil pairs).nodup_keys
  have hentry (k : HashKey) (object v : Value) :
      (k, object, v) ∈ Table.enter [] pairs
        ↔ Table.LastFor k pairs (object, v) := by
    rw [← Table.get?_eq_some_iff hnodup, Table.get?_enter_eq_some_iff]
  constructor
  case distinct => exact hnodup
  case keys => exact fun k => Table.mem_keys_enter_iff
  case entries => exact hentry
  case backed =>
    intro k object v hmem
    obtain ⟨front, rest, rfl, -⟩ := (hentry k object v).1 hmem
    exact hkeys (k, object, v) (by simp)
  case found =>
    intro id i k object v w hi hlast
    rw [Value.at, run_bind_of_done (Value.run_asKey_of_some hi w),
      Table.get?_enter_eq_some_iff.2 hlast]
    rfl
  case missing =>
    intro id i k w hi hnone
    rw [← Table.mem_keys_enter_iff, ← Table.get?_eq_none_iff] at hnone
    rw [Value.at, run_bind_of_done (Value.run_asKey_of_some hi w), hnone]
    rfl
  case unusable =>
    intro id i w hi
    rw [Value.at, run_bind_of_failed (Value.run_asKey_of_none hi w)]

/-- **In a hash literal the last pair wins.** Let the pairs of the literal come
to objects, from left to right and each key before its value, and let all keys
be usable. Then the literal gives a new hash, in the world that is left by its
pairs, which is the map that these objects make: there is one entry for a key,
which is the last pair with that key, and an index gives the value of that
pair. If a key is unusable and those before it are not, that is the failure,
and it leaves the world as the pairs before it and the key itself leave it. -/
theorem Expr.hash_last_wins (call : Closure → List Value → Operation Value)
    (scope : ScopeId) (ps : List (Expr × Expr)) (w : World) :
    (∀ pairs w', Evaluated call scope ps w pairs w' →
      ∃ t, ((Expr.hash ps).eval call scope).run w
          = .done (.hash w'.nextObject t) w'.addObject.1
        ∧ IsMapOf t pairs)
    ∧ ∀ front key value rest pairs w₁ object w₂,
      ps = front ++ (key, value) :: rest →
      Evaluated call scope front w pairs w₁ →
      (key.eval call scope).run w₁ = .done object w₂ → object.key? = none →
      ((Expr.hash ps).eval call scope).run w
        = .failed (.failed (.unusableKey object.type)) w₂ := by
  constructor
  · intro pairs w' h
    refine ⟨Table.enter [] pairs, ?_, isMapOf_enter h.key?_eq⟩
    rw [Expr.eval, run_bind_of_done (h.run_evalPairs [])]
    rfl
  · rintro front key value rest pairs w₁ object w₂ rfl h hkey hunusable
    refine run_bind_of_failed ?_ _
    rw [evalPairs_append, run_bind_of_done (h.run_evalPairs []), evalPairs,
      run_bind_of_done hkey, run_bind_of_failed
        (Operation.run_lift_of_failed (Value.run_asKey_of_none hunusable _))]

/-- The literals `{1: 2, 1: 3}` and `{1: 2, []: 3}`. In the second, the `3` is
not evaluated. -/
theorem Expr.hash_last_wins_repeated :
    let w := World.empty .ascending
    (∃ t, ((Expr.hash [(.int 1, .int 2), (.int 1, .int 3)]).eval
          (Closure.call 0) 0).run w
        = .done (.hash 4 t) ⟨w.scopes, 5, "", .ascending⟩
      ∧ ((Value.hash 4 t).at (.int 9 1)).run w
        = .done (.int 3 3) w)
    ∧ ((Expr.hash [(.int 1, .int 2), (.array [], .int 3)]).eval
          (Closure.call 0) 0).run w
        = .failed (.failed (.unusableKey .array))
          ⟨w.scopes, 3, "", .ascending⟩ := by
  intro w
  constructor
  · have hpairs : Evaluated (Closure.call 0) 0
        [(.int 1, .int 2), (.int 1, .int 3)] w
        [(.int 1, .int 0 1, .int 1 2), (.int 1, .int 2 1, .int 3 3)]
        ⟨w.scopes, 4, "", .ascending⟩ :=
      .cons rfl rfl rfl (.cons rfl rfl rfl .nil)
    obtain ⟨t, hrun, hmap⟩ := (Expr.hash_last_wins _ _ _ _).1 _ _ hpairs
    refine ⟨t, hrun, hmap.found 4 _ (.int 1) (.int 2 1) _ _ rfl ?_⟩
    exact ⟨[_], [], rfl, by simp⟩
  · have hpairs : Evaluated (Closure.call 0) 0 [(.int 1, .int 2)] w
        [(.int 1, .int 0 1, .int 1 2)] ⟨w.scopes, 2, "", .ascending⟩ :=
      .cons rfl rfl rfl .nil
    exact (Expr.hash_last_wins _ _ _ _).2 _ (.array []) (.int 3) [] _ _
      (.array 2 []) _ rfl hpairs rfl rfl

end Monkey
