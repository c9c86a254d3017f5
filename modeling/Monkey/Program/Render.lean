import Monkey.Integer
import Monkey.Program

/-!
# The text of a program

Programs are written back as source text. Every operator application and every
index stands in parentheses, so the text shows how the source was understood,
and reading it again needs no precedences. Strings are written between quotes
as they are: the language has no escapes, so a string cannot contain a quote.

Statements of a program stand on lines of their own; those of a block follow
each other on one line.
-/

namespace Monkey

/-- A block, given the text of its statements. -/
def inBraces (statements : String) : String :=
  "\x7b " ++ statements ++ "\x7d"

mutual

/-- **The text of an expression.** -/
def Expr.render : Expr → String
  | .ident name => name
  | .int value => Integer.render value
  | .str text => "\"" ++ text ++ "\""
  | .bool value => if value then "true" else "false"
  | .array elements => "[" ++ ", ".intercalate (renderExprs elements) ++ "]"
  | .hash pairs => "\x7b" ++ ", ".intercalate (renderPairs pairs) ++ "\x7d"
  | .unary op operand => "(" ++ op.symbol ++ operand.render ++ ")"
  | .binary op left right =>
    "(" ++ left.render ++ " " ++ op.symbol ++ " " ++ right.render ++ ")"
  | .cond condition consequence none =>
    "if " ++ condition.render ++ " " ++ inBraces (renderStmts consequence)
  | .cond condition consequence (some alternative) =>
    "if " ++ condition.render ++ " " ++ inBraces (renderStmts consequence)
      ++ " else " ++ inBraces (renderStmts alternative)
  | .fn params body =>
    "fn(" ++ ", ".intercalate params ++ ") " ++ inBraces (renderStmts body)
  | .call callee args =>
    callee.render ++ "(" ++ ", ".intercalate (renderExprs args) ++ ")"
  | .index collection position =>
    "(" ++ collection.render ++ "[" ++ position.render ++ "])"

/-- The texts of a list of expressions. -/
def renderExprs : List Expr → List String
  | [] => []
  | e :: es => e.render :: renderExprs es

/-- The texts of key and value pairs. -/
def renderPairs : List (Expr × Expr) → List String
  | [] => []
  | (key, value) :: pairs =>
    (key.render ++ ": " ++ value.render) :: renderPairs pairs

/-- The statements of a block, each with a space behind it. -/
def renderStmts : List Stmt → String
  | [] => ""
  | s :: ss => s.render ++ " " ++ renderStmts ss

/-- **The text of a statement.** -/
def Stmt.render : Stmt → String
  | .bind name value => "let " ++ name ++ " = " ++ value.render ++ ";"
  | .ret value => "return " ++ value.render ++ ";"
  | .expr value => value.render

end

/-- The text of a block, with its braces. -/
def Block.render (block : Block) : String :=
  inBraces (renderStmts block)

/-- **The text of a program**: a line for every statement. -/
def Program.render (program : Program) : String :=
  "\n".intercalate (program.statements.map Stmt.render)

/-- Parentheses show how operators were grouped. -/
example : Expr.render
    (.binary .plus (.unary .minus (.ident "a"))
      (.index (.ident "b") (.binary .multiply (.int 2) (.int 3))))
    = "((-a) + (b[(2 * 3)]))" := by decide +kernel

end Monkey
