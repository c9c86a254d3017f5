/-!
# Integers of the language

Integers have sixty-four bits and a sign, and arithmetic on them is exact or it
fails: an operation whose result is out of range has no value, it does not wrap
around. So each operation is computed on the integers proper and then checked
for range, and a result, where there is one, is the mathematical one
(`ofInt?_eq_some_iff`).
-/

namespace Monkey.Integer

/-- The integer of the language with a given value, if it is in range: from
`-2 ^ 63` to `2 ^ 63 - 1`. -/
def ofInt? (n : Int) : Option Int64 :=
  if -9223372036854775808 ≤ n ∧ n ≤ 9223372036854775807 then
    some (Int64.ofInt n)
  else none

/-- **Checked values are exact.** -/
theorem ofInt?_eq_some_iff {n : Int} {a : Int64} :
    ofInt? n = some a ↔ a.toInt = n := by
  unfold ofInt?
  constructor
  · intro h
    split at h
    · rename_i hn
      rw [← Option.some.inj h]
      exact Int64.toInt_ofInt_of_le (by omega) (by omega)
    · exact absurd h (by simp)
  · rintro rfl
    have hle := Int64.le_toInt a
    have hlt := Int64.toInt_lt a
    rw [if_pos (by omega), Int64.ofInt_toInt]

/-- A value is refused exactly if it is out of range. -/
theorem ofInt?_eq_none_iff {n : Int} :
    ofInt? n = none ↔ n < -9223372036854775808 ∨ 9223372036854775807 < n := by
  unfold ofInt?
  split <;> simp only [reduceCtorEq, false_iff, true_iff] <;> omega

/-- The number a run of decimal digits stands for. -/
def ofDigits (digits : List Char) : Nat :=
  digits.foldl (fun n c => 10 * n + (c.toNat - '0'.toNat)) 0

/-- The integer written as a run of decimal digits, if it is in range. Leading
zeros are allowed. -/
def parse? (digits : String) : Option Int64 :=
  ofInt? (ofDigits digits.toList)

/-- The negated integer. -/
def neg? (a : Int64) : Option Int64 := ofInt? (-a.toInt)

/-- The sum. -/
def add? (a b : Int64) : Option Int64 := ofInt? (a.toInt + b.toInt)

/-- The difference. -/
def sub? (a b : Int64) : Option Int64 := ofInt? (a.toInt - b.toInt)

/-- The product. -/
def mul? (a b : Int64) : Option Int64 := ofInt? (a.toInt * b.toInt)

/-- The quotient, rounded toward zero. The divisor is not zero. -/
def div? (a b : Int64) : Option Int64 := ofInt? (a.toInt.tdiv b.toInt)

/-- The decimal text of an integer. -/
def render (a : Int64) : String := toString a.toInt

/-- The smallest integer cannot be negated, by sign or by division. -/
example : parse? "9223372036854775808" = none
    ∧ neg? Int64.minValue = none
    ∧ div? Int64.minValue (-1) = none
    ∧ div? (-7) 2 = some (-3) := by decide +kernel

end Monkey.Integer
