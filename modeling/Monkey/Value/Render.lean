import Monkey.Arrangement
import Monkey.Program.Render

/-!
# The text of a value

What `puts` writes and a prompt shows. Strings are written as they are,
without quotes; a function is written as its source text; the entries of a
hash are written in the order that it is given.
-/

namespace Monkey

/-- The text of a function: that of the expression that makes it. -/
def Closure.render (closure : Closure) : String :=
  (Expr.fn closure.params closure.body).render

mutual

/-- **The text of a value**, given the orders of the hashes. -/
def Value.render (a : Arrangement) : Value → String
  | .int _ value => Integer.render value
  | .bool _ value => if value then "true" else "false"
  | .str _ text => text
  | .array _ elements =>
    "[" ++ ", ".intercalate (renderValues a elements) ++ "]"
  | .hash id entries =>
    "\x7b" ++ ", ".intercalate (a.entries id (renderEntries a entries))
      ++ "\x7d"
  | .fn _ closure => closure.render
  | .builtin _ which => "builtin function " ++ which.name
  | .null _ => "null"

/-- The texts of the elements of an array. -/
def renderValues (a : Arrangement) : List Value → List String
  | [] => []
  | v :: vs => v.render a :: renderValues a vs

/-- The texts of the entries of a hash, for each key. -/
def renderEntries (a : Arrangement) :
    List (HashKey × Value × Value) → Table HashKey String
  | [] => []
  | (k, key, value) :: entries =>
    (k, key.render a ++ ": " ++ value.render a) :: renderEntries a entries

end

end Monkey
