import Monkey.Integer
import Monkey.Operator
import Monkey.Program
import Monkey.Reading

/-!
# Reading statements and expressions

An expression is an operand and what its continuations make of it. Reading one
for a precedence `p` reads an operand and then, as long as the next token is a
continuation that binds more tightly than `p`, lets it go on with what has been
read so far (`Expr.extend`). The right operand of a binary operator is read
for the operator's own precedence, so operators of one precedence group to the
left.

Where the next token is already known, the functions take it as an argument
beside the cursor behind it. What they read is then bounded by the tokens
behind it, and since each of them is called with fewer tokens ahead, or with as
many and a simpler task, reading ends.

Statements need no terminator: a statement ends where its expression does.
-/

namespace Monkey

open Reading

mutual

/-- **Reads an expression** made of what binds more tightly than `p`. -/
def Expr.read (p : Precedence) (c : Cursor) : Reading Expr c.size :=
  match c with
  | ⟨[], k⟩ => fail (.unexpectedEnd .expression) ⟨[], k⟩
  | ⟨t :: ts, k⟩ => (Expr.readFrom p t ⟨ts, k⟩).after t
termination_by 6 * c.size
decreasing_by all_goals grind [Cursor.size]

/-- Reads an expression whose first token is `t`. -/
def Expr.readFrom (p : Precedence) (t : Token) (c : Cursor) :
    Reading Expr c.size :=
  (Expr.readOperand t c).andThen fun left c _ => Expr.extend p left c
termination_by 6 * c.size + 4
decreasing_by all_goals grind [Cursor.size]

/-- Reads an operand whose first token is `t`. -/
def Expr.readOperand (t : Token) (c : Cursor) : Reading Expr c.size :=
  match t.kind with
  | .ident name => succeed (.ident name) c
  | .int digits =>
    (ofOption (Integer.parse? digits) (.integerRange digits) c).map .int
  | .str text => succeed (.str text) c
  | .kwTrue => succeed (.bool true) c
  | .kwFalse => succeed (.bool false) c
  | .minus => (Expr.read .unary c).map (.unary .minus)
  | .bang => (Expr.read .unary c).map (.unary .bang)
  | .leftParen =>
    (Expr.read .lowest c).andThen fun e c _ =>
      (expect .rightParen c).map fun _ => e
  | .leftBracket =>
    (list .rightBracket (fun t c _ => Expr.readFrom .lowest t c) c
      (Nat.le_refl _)).map .array
  | .leftBrace =>
    (list .rightBrace (fun t c _ => Expr.readPair t c) c
      (Nat.le_refl _)).map .hash
  | .kwIf =>
    (Expr.read .lowest c).andThen fun condition c _ =>
      (expect .leftBrace c).andThen fun _ c _ =>
        (Block.read c).andThen fun consequence c _ =>
          (Expr.readElse c).map (.cond condition consequence)
  | .kwFn =>
    (expect .leftParen c).andThen fun _ c _ =>
      (list .rightParen (fun t c _ => nameOf t c) c
        (Nat.le_refl _)).andThen fun params c _ =>
          (expect .leftBrace c).andThen fun _ c _ =>
            (Block.read c).map (.fn params)
  | .illegal text => fail (.illegal text) c
  | .unclosedString => fail (.illegal Token.Kind.unclosedReason) c
  | _ => fail (.noOperand t) c
termination_by 6 * c.size + 3
decreasing_by all_goals grind [Cursor.size]

/-- Reads a key, a colon and a value; `t` is the first token of the key. -/
def Expr.readPair (t : Token) (c : Cursor) : Reading (Expr × Expr) c.size :=
  (Expr.readFrom .lowest t c).andThen fun key c _ =>
    (expect .colon c).andThen fun _ c _ =>
      (Expr.read .lowest c).map fun value => (key, value)
termination_by 6 * c.size + 5
decreasing_by all_goals grind [Cursor.size]

/-- Reads the alternative of a conditional, if there is one. -/
def Expr.readElse (c : Cursor) : Reading (Option Block) c.size :=
  match c with
  | ⟨[], k⟩ => succeed none ⟨[], k⟩
  | ⟨t :: ts, k⟩ =>
    if t.kind = .kwElse then
      ((expect .leftBrace ⟨ts, k⟩).andThen fun _ c _ =>
        (Block.read c).map some).after t
    else succeed none ⟨t :: ts, k⟩
termination_by 6 * c.size
decreasing_by all_goals grind [Cursor.size]

/-- **Goes on with an expression**: as long as the next token continues `left`
and binds more tightly than `p`, it is read and takes `left` with it. -/
def Expr.extend (p : Precedence) (left : Expr) (c : Cursor) :
    Reading Expr c.size :=
  match c with
  | ⟨[], k⟩ => succeed left ⟨[], k⟩
  | ⟨t :: ts, k⟩ =>
    match t.kind.continuation? with
    | none => succeed left ⟨t :: ts, k⟩
    | some continuation =>
      if p < continuation.precedence then
        ((Expr.continueWith continuation left ⟨ts, k⟩).andThen
          fun left c _ => Expr.extend p left c).after t
      else succeed left ⟨t :: ts, k⟩
termination_by 6 * c.size
decreasing_by all_goals grind [Cursor.size]

/-- Reads the rest of a continuation of `left`, behind its first token. -/
def Expr.continueWith (continuation : Continuation) (left : Expr)
    (c : Cursor) : Reading Expr c.size :=
  match continuation with
  | .binary op => (Expr.read op.precedence c).map (.binary op left)
  | .call =>
    (list .rightParen (fun t c _ => Expr.readFrom .lowest t c) c
      (Nat.le_refl _)).map (.call left)
  | .index =>
    (Expr.read .lowest c).andThen fun position c _ =>
      (expect .rightBracket c).map fun _ => .index left position
termination_by 6 * c.size + 3
decreasing_by all_goals grind [Cursor.size]

/-- **Reads a block**, behind its opening brace. The block counts as open until
its closing brace is read. -/
def Block.read (c : Cursor) : Reading Block c.size :=
  Block.readRest c.openBlock
termination_by 6 * c.size + 1
decreasing_by exact Nat.lt_succ_self (6 * c.size)

/-- Reads the statements of an open block that are still to come, and its
closing brace. Semicolons between them mean nothing. -/
def Block.readRest (c : Cursor) : Reading Block c.size :=
  match c with
  | ⟨[], k⟩ => fail (.unexpectedEnd (.token .rightBrace)) ⟨[], k⟩
  | ⟨t :: ts, k⟩ =>
    if t.kind = .semicolon then (Block.readRest ⟨ts, k⟩).after t
    else if t.kind = .rightBrace then
      (succeed [] (Cursor.closeBlock ⟨ts, k⟩)).weaken (Nat.le_succ _)
    else
      ((Stmt.readFrom t ⟨ts, k⟩).andThen fun s c _ =>
        (Block.readRest c).map (s :: ·)).after t
termination_by 6 * c.size
decreasing_by all_goals grind [Cursor.size]

/-- **Reads a statement** whose first token is `t`. -/
def Stmt.readFrom (t : Token) (c : Cursor) : Reading Stmt c.size :=
  match t.kind with
  | .kwLet =>
    (Reading.name c).andThen fun name c _ =>
      (expect .assign c).andThen fun _ c _ =>
        (Expr.read .lowest c).map (.bind name)
  | .kwReturn => (Expr.read .lowest c).map .ret
  | _ => (Expr.readFrom .lowest t c).map .expr
termination_by 6 * c.size + 5
decreasing_by all_goals grind [Cursor.size]

end

end Monkey
