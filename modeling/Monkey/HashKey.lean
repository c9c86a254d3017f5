/-!
# Keys of hashes

Integers, booleans and strings can be keys of a hash. A key is the content of
such a value without its identity, so that equal contents are one key.

Keys are ordered: integers by value, then `false` and `true`, then strings by
their characters. The order is lexicographic in three coordinates of a key,
and a key is determined by them.
-/

namespace Monkey

/-- **The key of a hash entry.** -/
inductive HashKey where
  | int (value : Int64)
  | bool (value : Bool)
  | str (text : String)
  deriving DecidableEq, Repr, Inhabited

namespace HashKey

/-- The first coordinate: which sort of key it is. -/
def sort : HashKey → Nat
  | int _ => 0
  | bool _ => 1
  | str _ => 2

/-- The second coordinate: the value of an integer or a boolean. -/
def number : HashKey → Int
  | int value => value.toInt
  | bool value => if value then 1 else 0
  | str _ => 0

/-- The third coordinate: the text of a string. -/
def text : HashKey → String
  | str text => text
  | _ => ""

instance : Ord HashKey where
  compare := compareLex (compareOn sort)
    (compareLex (compareOn number) (compareOn text))

/-- The coordinates determine a key. -/
theorem eq_of_coordinates {a b : HashKey} (hsort : a.sort = b.sort)
    (hnumber : a.number = b.number) (htext : a.text = b.text) : a = b := by
  cases a <;> cases b <;> simp only [sort] at hsort <;> try omega
  · exact congrArg int (Int64.toInt_inj.1 hnumber)
  · rename_i p q
    cases p <;> cases q <;> simp [number] at hnumber ⊢
  · exact congrArg str htext

example : compare (int (-3)) (int 2) = .lt ∧ compare (int 7) (bool false) = .lt
    ∧ compare (bool false) (bool true) = .lt
    ∧ compare (bool true) (str "") = .lt
    ∧ compare (str "Z") (str "a") = .lt := by decide +kernel

end HashKey

end Monkey
