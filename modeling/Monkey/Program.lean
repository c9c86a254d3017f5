import Monkey.Operator

/-!
# Programs

A program is a list of statements, a statement binds a name, returns a value
or is an expression, and expressions contain blocks of statements again: the
branches of a conditional and the bodies of functions. So expressions and
statements are defined together, and a function over one is a family of
functions over both and over the lists they occur in.

Trees hold no positions and no parentheses. Two sources that differ only in
blanks, in optional semicolons or in redundant parentheses have the same tree.
-/

namespace Monkey

mutual

/-- **An expression.** -/
inductive Expr where
  /-- A name. -/
  | ident (name : String)
  /-- An integer. -/
  | int (value : Int64)
  /-- A string. -/
  | str (text : String)
  /-- `true` or `false`. -/
  | bool (value : Bool)
  /-- An array of the values of its elements. -/
  | array (elements : List Expr)
  /-- A hash of key and value pairs, as they stand in the source. -/
  | hash (pairs : List (Expr × Expr))
  /-- An operator before its operand. -/
  | unary (op : UnaryOp) (operand : Expr)
  /-- An operator between its operands. -/
  | binary (op : BinaryOp) (left right : Expr)
  /-- A conditional, with or without an alternative. -/
  | cond (condition : Expr) (consequence : List Stmt)
      (alternative : Option (List Stmt))
  /-- A function of named parameters. -/
  | fn (params : List String) (body : List Stmt)
  /-- A call. -/
  | call (callee : Expr) (args : List Expr)
  /-- An element of a collection. -/
  | index (collection position : Expr)

/-- **A statement.** -/
inductive Stmt where
  /-- Binds a name in the current scope. -/
  | bind (name : String) (value : Expr)
  /-- Ends the function it stands in. -/
  | ret (value : Expr)
  /-- An expression, for its value or its effect. -/
  | expr (value : Expr)

end

instance : Inhabited Expr := ⟨.bool false⟩

instance : Inhabited Stmt := ⟨.expr default⟩

/-- The statements between two braces. -/
abbrev Block := List Stmt

/-- **A program**: its statements in order. -/
structure Program where
  /-- The statements. -/
  statements : Block
  deriving Inhabited

end Monkey
