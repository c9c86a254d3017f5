/-!
# Quoted text

A text put between quotes so that its end can be seen: a backslash is written
before every quote and every backslash of the text. All other characters
stand for themselves.
-/

namespace Monkey.Text

/-- The characters of a text with quotes and backslashes marked. -/
def escapeQuotes : List Char → List Char
  | [] => []
  | c :: cs =>
    if c = '"' ∨ c = '\\' then '\\' :: c :: escapeQuotes cs
    else c :: escapeQuotes cs

/-- A text between quotes. -/
def quote (s : String) : String :=
  "\"" ++ String.ofList (escapeQuotes s.toList) ++ "\""

/-- A quote within the text does not end it. -/
example : quote "say \"\\\"" = "\"say \\\"\\\\\\\"\"" := by decide +kernel

end Monkey.Text
