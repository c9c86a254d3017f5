import Monkey.Token

/-!
# Operators and how tightly they bind

An expression is read from the left. Once an operand is complete, the token
behind it may go on with it: a binary operator makes it a left operand, a
parenthesis calls it, a bracket indexes into it. That is the *continuation* a
token stands for, and its `Precedence` says how tightly it binds. A token that
continues nothing has the lowest precedence, below that of every
continuation.
-/

namespace Monkey

/-- The operators written before their operand. -/
inductive UnaryOp where
  | minus
  | bang
  deriving DecidableEq, Repr, Inhabited

/-- The operators written between their operands. -/
inductive BinaryOp where
  | plus
  | minus
  | lessThan
  | greaterThan
  | equal
  | notEqual
  | multiply
  | divide
  deriving DecidableEq, Repr, Inhabited

namespace UnaryOp

/-- How the operator is written. -/
def symbol : UnaryOp → String
  | minus => "-"
  | bang => "!"

end UnaryOp

namespace BinaryOp

/-- How the operator is written. -/
def symbol : BinaryOp → String
  | plus => "+"
  | minus => "-"
  | lessThan => "<"
  | greaterThan => ">"
  | equal => "=="
  | notEqual => "!="
  | multiply => "*"
  | divide => "/"

/-- The operator a token stands for between two operands. -/
def ofKind? : Token.Kind → Option BinaryOp
  | .plus => some plus
  | .minus => some minus
  | .lessThan => some lessThan
  | .greaterThan => some greaterThan
  | .equal => some equal
  | .notEqual => some notEqual
  | .asterisk => some multiply
  | .slash => some divide
  | _ => none

end BinaryOp

/-- **How tightly an expression binds**, from the loosest. -/
inductive Precedence where
  | lowest
  | equals
  | lessGreater
  | sum
  | product
  | unary
  | call
  deriving DecidableEq, Repr, Inhabited

namespace Precedence

/-- The position of a precedence, counted from the loosest. -/
def rank : Precedence → Nat
  | lowest => 0
  | equals => 1
  | lessGreater => 2
  | sum => 3
  | product => 4
  | unary => 5
  | call => 6

instance : LT Precedence := ⟨fun p q => p.rank < q.rank⟩

instance : LE Precedence := ⟨fun p q => p.rank ≤ q.rank⟩

instance (p q : Precedence) : Decidable (p < q) :=
  inferInstanceAs (Decidable (p.rank < q.rank))

instance (p q : Precedence) : Decidable (p ≤ q) :=
  inferInstanceAs (Decidable (p.rank ≤ q.rank))

end Precedence

/-- The precedence of a binary operator. -/
def BinaryOp.precedence : BinaryOp → Precedence
  | equal | notEqual => .equals
  | lessThan | greaterThan => .lessGreater
  | plus | minus => .sum
  | multiply | divide => .product

/-- **What a token makes of the expression on its left.** -/
inductive Continuation where
  /-- The left operand of a binary operator. -/
  | binary (op : BinaryOp)
  /-- The callee of a call. -/
  | call
  /-- The collection that is indexed. -/
  | index
  deriving DecidableEq, Repr, Inhabited

/-- The precedence of a continuation. -/
def Continuation.precedence : Continuation → Precedence
  | binary op => op.precedence
  | call | index => .call

namespace Token.Kind

/-- The continuation a token stands for, if it stands for one. -/
def continuation? : Kind → Option Continuation
  | leftParen => some .call
  | leftBracket => some .index
  | kind => (BinaryOp.ofKind? kind).map .binary

/-- The precedence of a token behind an expression. -/
def precedence (kind : Kind) : Precedence :=
  match kind.continuation? with
  | some continuation => continuation.precedence
  | none => .lowest

end Token.Kind

end Monkey
