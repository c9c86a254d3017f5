/-!
# Blank characters

The characters that separate tokens and mean nothing by themselves are those
with the Unicode property `White_Space`. The property is a closed list of
twenty-five characters, kept here as the ranges of their code points in
ascending order.

Characters that merely look empty are *not* blank: the zero width space, the
byte order mark and the Mongolian vowel separator are outside the property,
and so are the information separators U+001C to U+001F.
-/

namespace Monkey.Text

/-- The code points with the property `White_Space`, as inclusive ranges in
ascending order. -/
def blankRanges : List (Nat × Nat) :=
  [(0x09, 0x0D), (0x20, 0x20), (0x85, 0x85), (0xA0, 0xA0), (0x1680, 0x1680),
   (0x2000, 0x200A), (0x2028, 0x2029), (0x202F, 0x202F), (0x205F, 0x205F),
   (0x3000, 0x3000)]

/-- Whether a character is blank. -/
def isBlank (c : Char) : Bool :=
  blankRanges.any fun (low, high) => low ≤ c.toNat && c.toNat ≤ high

/-- The ranges hold twenty-five characters. -/
example : (blankRanges.map fun (low, high) => high + 1 - low).sum = 25 := by
  decide

end Monkey.Text
