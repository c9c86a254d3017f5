import Monkey.Text.Escaped
import Monkey.Token

/-!
# Token listings

A listing shows the tokens of a source, a line for each: the bytes a token
stands for, its name, and the text it carries, escaped.
-/

namespace Monkey

/-- A kind in a listing. -/
def Token.Kind.listing (kind : Token.Kind) : String :=
  match kind.payload? with
  | some text => kind.name ++ "(" ++ Text.escape text ++ ")"
  | none => kind.name

/-- **The line of a token** in a listing. -/
def Token.listing (t : Token) : String :=
  toString t.start ++ ".." ++ toString t.stop ++ " " ++ t.kind.listing

example : Token.listing ⟨.ident "x", 4, 5⟩ = "4..5 Ident(\"x\")" := by
  decide +kernel

end Monkey
