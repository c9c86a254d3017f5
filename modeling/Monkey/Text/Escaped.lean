/-!
# Escaped text

A text put between quotes so that it fits on one line and every character that
acts on the line can be seen: quotes and backslashes are marked by a backslash,
line ends, tabs and the zero character have an escape of their own, and all
other control characters are written by their code points. Every other
character stands for itself.
-/

namespace Monkey.Text

/-- Whether a character is one of the control characters of Unicode. -/
def isControl (c : Char) : Bool :=
  c.toNat < 0x20 || (0x7F ≤ c.toNat && c.toNat ≤ 0x9F)

/-- The escaped form of a character. -/
def escapeChar (c : Char) : List Char :=
  if c = '"' ∨ c = '\\' then ['\\', c]
  else if c = '\n' then ['\\', 'n']
  else if c = '\t' then ['\\', 't']
  else if c = '\r' then ['\\', 'r']
  else if c.toNat = 0 then ['\\', '0']
  else if isControl c then
    ['\\', 'u', '\x7b'] ++ Nat.toDigits 16 c.toNat ++ ['\x7d']
  else [c]

/-- A text between quotes, escaped. -/
def escape (s : String) : String :=
  "\"" ++ String.ofList (s.toList.flatMap escapeChar) ++ "\""

example : escape "a\t\"é\x1b" = "\"a\\t\\\"é\\u\x7b1b\x7d\"" := by decide +kernel

end Monkey.Text
