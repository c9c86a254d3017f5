import Monkey.Text.Quoted
import Monkey.Value.Render
import Monkey.World

/-!
# Outlines of values

An outline shows what a value is, where its text may not: strings are quoted,
and a function is shown with the scope it was made in, as that scope is now.
-/

namespace Monkey

namespace World

mutual

/-- **The outline of a value** in a world. -/
def outline (w : World) : Value → String
  | .int _ value => Integer.render value
  | .bool _ value => if value then "true" else "false"
  | .str _ text => Text.quote text
  | .array _ elements =>
    "[" ++ ", ".intercalate (w.outlineValues elements) ++ "]"
  | .hash _ entries =>
    "\x7b" ++ ", ".intercalate (w.outlineEntries entries) ++ "\x7d"
  | .fn _ closure =>
    "<" ++ closure.render ++ " in " ++ w.describe closure.scope ++ ">"
  | .builtin _ which => "<builtin " ++ which.name ++ ">"
  | .null _ => "null"

/-- The outlines of the elements of an array. -/
def outlineValues (w : World) : List Value → List String
  | [] => []
  | v :: vs => w.outline v :: w.outlineValues vs

/-- The outlines of the entries of a hash. -/
def outlineEntries (w : World) : List (HashKey × Value × Value) → List String
  | [] => []
  | (_, key, value) :: entries =>
    (w.outline key ++ ": " ++ w.outline value) :: w.outlineEntries entries

end

end World

/-- A function in words: its parameters, or the name of a builtin. -/
def Value.describeFunction? : Value → Option String
  | .fn _ closure =>
    some ("Function(Function \x7b parameters: ["
      ++ ", ".intercalate (closure.params.map fun p =>
          "Identifier \x7b name: \"" ++ p ++ "\" \x7d")
      ++ "], .. \x7d)")
  | .builtin _ which =>
    some ("BuiltinFunction(BuiltinFunction \x7b name: \"" ++ which.name
      ++ "\" \x7d)")
  | _ => none

end Monkey
