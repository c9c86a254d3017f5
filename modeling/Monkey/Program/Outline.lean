import Monkey.Integer
import Monkey.Program
import Monkey.Text.Quoted

/-!
# Outlines of programs

An outline shows the tree of a program, not its source: every node is a list
in parentheses that begins with what the node is. Unlike the text of a program
it keeps apart what the source spells alike, such as a string and the name
spelled by its characters.
-/

namespace Monkey

/-- The name of an operator in outlines. -/
def UnaryOp.name : UnaryOp → String
  | minus => "Minus"
  | bang => "Bang"

/-- The name of an operator in outlines. -/
def BinaryOp.name : BinaryOp → String
  | plus => "Plus"
  | minus => "Minus"
  | lessThan => "LessThan"
  | greaterThan => "GreaterThan"
  | equal => "Equal"
  | notEqual => "NotEqual"
  | multiply => "Multiply"
  | divide => "Divide"

/-- A node: its parts between parentheses, with spaces between them. -/
def outlineNode (parts : List String) : String :=
  "(" ++ " ".intercalate parts ++ ")"

mutual

/-- The outline of an expression. -/
def Expr.outline : Expr → String
  | .ident name => name
  | .int value => Integer.render value
  | .str text => Text.quote text
  | .bool value => if value then "#true" else "#false"
  | .array elements => outlineNode ("array" :: outlineExprs elements)
  | .hash pairs => outlineNode ("hash" :: outlinePairs pairs)
  | .unary op operand => outlineNode ["prefix", op.name, operand.outline]
  | .binary op left right =>
    outlineNode ["infix", op.name, left.outline, right.outline]
  | .cond condition consequence none =>
    outlineNode ["if", condition.outline,
      outlineNode ("block" :: outlineStmts consequence)]
  | .cond condition consequence (some alternative) =>
    outlineNode ["if", condition.outline,
      outlineNode ("block" :: outlineStmts consequence),
      outlineNode ("block" :: outlineStmts alternative)]
  | .fn params body =>
    outlineNode ["fn", outlineNode ("params" :: params),
      outlineNode ("block" :: outlineStmts body)]
  | .call callee args =>
    outlineNode ("call" :: callee.outline :: outlineExprs args)
  | .index collection position =>
    outlineNode ["index", collection.outline, position.outline]

/-- The outlines of a list of expressions. -/
def outlineExprs : List Expr → List String
  | [] => []
  | e :: es => e.outline :: outlineExprs es

/-- The outlines of key and value pairs. -/
def outlinePairs : List (Expr × Expr) → List String
  | [] => []
  | (key, value) :: pairs =>
    outlineNode [key.outline, value.outline] :: outlinePairs pairs

/-- The outlines of the statements of a block. -/
def outlineStmts : List Stmt → List String
  | [] => []
  | s :: ss => s.outline :: outlineStmts ss

/-- The outline of a statement. -/
def Stmt.outline : Stmt → String
  | .bind name value => outlineNode ["let", name, value.outline]
  | .ret value => outlineNode ["return", value.outline]
  | .expr value => value.outline

end

/-- The outlines of the statements of a program. -/
def Program.outline (program : Program) : List String :=
  outlineStmts program.statements

end Monkey
