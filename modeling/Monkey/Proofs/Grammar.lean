import Monkey.Integer
import Monkey.Program

/-!
# The grammar of programs

Which token lists are programs, and which trees they stand for, said without a
reader: `Expr.Derives`, `Stmt.Derives` and `Body` relate the kinds of a token
list to a tree, one rule for each form of the language.

Expressions come in *layers*. The operators of a layer join expressions of the
layer on their left and of the next tighter layer on their right, so operators
of one layer group to the left and those of a tighter layer are grouped first.
The tightest layer is that of primary expressions, which end where they end
whatever stands around them. Parentheses lead back to the loosest layer and
leave no trace in the tree.

Statements of a body may follow each other without a semicolon. There is one
exception: a statement that begins with a token which could as well go on with
the statement before it – a minus, a parenthesis, a bracket – has to be kept
apart by a semicolon.
-/

namespace Monkey

open Token (Kind)

/-- **The layers of expressions**, from the loosest. -/
inductive Layer where
  /-- Operands joined by `==` and `!=`. -/
  | equality
  /-- Operands joined by `<` and `>`. -/
  | comparison
  /-- Operands joined by `+` and `-`. -/
  | sum
  /-- Operands joined by `*` and `/`. -/
  | product
  /-- Operands with `!` and `-` before them. -/
  | unary
  /-- Operands with calls and indices behind them. -/
  | applied
  /-- Names, literals, conditionals and functions. -/
  | primary
  deriving DecidableEq, Repr

namespace Layer

/-- The next tighter layer. -/
def next : Layer → Layer
  | equality => comparison
  | comparison => sum
  | sum => product
  | product => unary
  | unary => applied
  | applied => primary
  | primary => primary

/-- The binary operators of a layer, each behind the token it is written as. -/
def operators : Layer → List (Kind × BinaryOp)
  | equality => [(.equal, .equal), (.notEqual, .notEqual)]
  | comparison => [(.lessThan, .lessThan), (.greaterThan, .greaterThan)]
  | sum => [(.plus, .plus), (.minus, .minus)]
  | product => [(.asterisk, .multiply), (.slash, .divide)]
  | unary | applied | primary => []

end Layer

/-- The token an operator before its operand is written as. -/
def UnaryOp.kind : UnaryOp → Kind
  | minus => .minus
  | bang => .bang

/-- The token a binary operator is written as. -/
def BinaryOp.kind : BinaryOp → Kind
  | plus => .plus
  | minus => .minus
  | lessThan => .lessThan
  | greaterThan => .greaterThan
  | equal => .equal
  | notEqual => .notEqual
  | multiply => .asterisk
  | divide => .slash

/-- The operators of a layer are written as their tokens. -/
theorem Layer.kind_of_mem_operators {l : Layer} {k : Kind} {op : BinaryOp}
    (h : (k, op) ∈ l.operators) : k = op.kind := by
  cases l <;> simp [Layer.operators] at h <;>
    rcases h with ⟨rfl, rfl⟩ | ⟨rfl, rfl⟩ <;> rfl

/-- **A list with commas** between its elements, which are what `D` says. One
comma may stand behind the last element; it is the one that `more` puts before
an empty list. -/
inductive Listed {α : Type} (D : List Kind → α → Prop) :
    List Kind → List α → Prop where
  | nil : Listed D [] []
  | last {ts : List Kind} {a : α} : D ts a → Listed D ts [a]
  | more {ts us : List Kind} {a : α} {as : List α} :
      D ts a → Listed D us as → Listed D (ts ++ .comma :: us) (a :: as)

/-- A key and a value with a colon between them. -/
inductive Paired (D : List Kind → Expr → Prop) :
    List Kind → Expr × Expr → Prop where
  | pair {ts us : List Kind} {key value : Expr} :
      D ts key → D us value → Paired D (ts ++ .colon :: us) (key, value)

/-- A name. -/
inductive Named : List Kind → String → Prop where
  | name {n : String} : Named [.ident n] n

/-- **What may follow a statement directly**: the next token, if there is one,
does not go on with the statement. -/
def Apart (ts : List Kind) : Prop :=
  ∀ k ∈ ts.head?, k ≠ .minus ∧ k ≠ .leftParen ∧ k ≠ .leftBracket

mutual

/-- **The expressions of a layer.** -/
inductive Expr.Derives : Layer → List Kind → Expr → Prop where
  /-- A layer contains the tighter ones. -/
  | loosen {l : Layer} {ts : List Kind} {e : Expr} :
      Expr.Derives l.next ts e → Expr.Derives l ts e
  /-- A binary operator. -/
  | binary {l : Layer} {k : Kind} {op : BinaryOp} {ts us : List Kind}
      {left right : Expr} :
      (k, op) ∈ l.operators → Expr.Derives l ts left →
      Expr.Derives l.next us right →
      Expr.Derives l (ts ++ k :: us) (.binary op left right)
  /-- An operator before its operand. -/
  | unary {op : UnaryOp} {ts : List Kind} {e : Expr} :
      Expr.Derives .unary ts e →
      Expr.Derives .unary (op.kind :: ts) (.unary op e)
  /-- A call. -/
  | call {ts us : List Kind} {callee : Expr} {args : List Expr} :
      Expr.Derives .applied ts callee →
      Listed (Expr.Derives .equality) us args →
      Expr.Derives .applied (ts ++ .leftParen :: (us ++ [.rightParen]))
        (.call callee args)
  /-- An index. -/
  | index {ts us : List Kind} {collection position : Expr} :
      Expr.Derives .applied ts collection →
      Expr.Derives .equality us position →
      Expr.Derives .applied (ts ++ .leftBracket :: (us ++ [.rightBracket]))
        (.index collection position)
  | ident {n : String} : Expr.Derives .primary [.ident n] (.ident n)
  /-- An integer, whose value is at most `2 ^ 63 - 1`. -/
  | int {digits : String} :
      Integer.ofDigits digits.toList ≤ 9223372036854775807 →
      Expr.Derives .primary [.int digits]
        (.int (Int64.ofNat (Integer.ofDigits digits.toList)))
  | str {text : String} : Expr.Derives .primary [.str text] (.str text)
  | true : Expr.Derives .primary [.kwTrue] (.bool true)
  | false : Expr.Derives .primary [.kwFalse] (.bool false)
  /-- An expression in parentheses: the tree is that of the expression. -/
  | group {ts : List Kind} {e : Expr} :
      Expr.Derives .equality ts e →
      Expr.Derives .primary (.leftParen :: (ts ++ [.rightParen])) e
  | array {ts : List Kind} {elements : List Expr} :
      Listed (Expr.Derives .equality) ts elements →
      Expr.Derives .primary (.leftBracket :: (ts ++ [.rightBracket]))
        (.array elements)
  | hash {ts : List Kind} {pairs : List (Expr × Expr)} :
      Listed (Paired (Expr.Derives .equality)) ts pairs →
      Expr.Derives .primary (.leftBrace :: (ts ++ [.rightBrace]))
        (.hash pairs)
  /-- A conditional without an alternative. -/
  | cond {ts us : List Kind} {condition : Expr} {consequence : Block} :
      Expr.Derives .equality ts condition → Body us consequence →
      Expr.Derives .primary
        (.kwIf :: (ts ++ .leftBrace :: (us ++ [.rightBrace])))
        (.cond condition consequence none)
  /-- A conditional with an alternative. -/
  | condElse {ts us vs : List Kind} {condition : Expr}
      {consequence alternative : Block} :
      Expr.Derives .equality ts condition → Body us consequence →
      Body vs alternative →
      Expr.Derives .primary
        (.kwIf :: (ts ++ .leftBrace :: (us ++ .rightBrace :: .kwElse ::
          .leftBrace :: (vs ++ [.rightBrace]))))
        (.cond condition consequence (some alternative))
  | fn {ts us : List Kind} {params : List String} {body : Block} :
      Listed Named ts params → Body us body →
      Expr.Derives .primary
        (.kwFn :: .leftParen :: (ts ++ .rightParen :: .leftBrace ::
          (us ++ [.rightBrace])))
        (.fn params body)

/-- **The statements.** -/
inductive Stmt.Derives : List Kind → Stmt → Prop where
  | bind {ts : List Kind} {n : String} {e : Expr} :
      Expr.Derives .equality ts e →
      Stmt.Derives (.kwLet :: .ident n :: .assign :: ts) (.bind n e)
  | ret {ts : List Kind} {e : Expr} :
      Expr.Derives .equality ts e → Stmt.Derives (.kwReturn :: ts) (.ret e)
  | expr {ts : List Kind} {e : Expr} :
      Expr.Derives .equality ts e → Stmt.Derives ts (.expr e)

/-- **The bodies**: statements with any number of semicolons before, between
and behind them. -/
inductive Body : List Kind → Block → Prop where
  | nil : Body [] []
  | semicolon {ts : List Kind} {ss : Block} :
      Body ts ss → Body (.semicolon :: ts) ss
  | cons {ts us : List Kind} {s : Stmt} {ss : Block} :
      Stmt.Derives ts s → Apart us → Body us ss → Body (ts ++ us) (s :: ss)

end

/-- **The programs**: the bodies that nothing encloses. -/
def Program.Derives (program : Program) (ts : List Kind) : Prop :=
  Body ts program.statements

/-! ## The first token of a phrase -/

/-- Whether an expression can begin with a token of the kind. -/
def Token.Kind.beginsExpr : Kind → Bool
  | .ident _ | .int _ | .str _ | .kwTrue | .kwFalse | .minus | .bang
  | .leftParen | .leftBracket | .leftBrace | .kwIf | .kwFn => true
  | _ => false

theorem UnaryOp.beginsExpr_kind (op : UnaryOp) : op.kind.beginsExpr := by
  cases op <;> rfl

/-- **An expression begins with a token that begins expressions**; it is not
empty. -/
theorem Expr.Derives.begins {l : Layer} {ts : List Kind} {e : Expr}
    (h : Expr.Derives l ts e) : ∃ k us, ts = k :: us ∧ k.beginsExpr := by
  match h with
  | .loosen h => exact h.begins
  | .binary _ h _ | .call h _ | .index h _ =>
    -- The left operand comes first, so it has the first token.
    obtain ⟨k, us, rfl, hk⟩ := h.begins
    exact ⟨k, _, rfl, hk⟩
  | .unary _ => exact ⟨_, _, rfl, UnaryOp.beginsExpr_kind _⟩
  | .ident | .int _ | .str | .true | .false | .group _ | .array _ | .hash _
  | .cond _ _ | .condElse _ _ _ | .fn _ _ => exact ⟨_, _, rfl, rfl⟩

/-- Whether a statement can begin with a token of the kind. -/
def Token.Kind.beginsStmt : Kind → Bool
  | .kwLet | .kwReturn => true
  | k => k.beginsExpr

theorem Token.Kind.beginsStmt_of_beginsExpr {k : Kind} (h : k.beginsExpr) :
    k.beginsStmt := by
  cases k <;> first | rfl | exact h

/-- **A statement begins with a token that begins statements**; it is not
empty. -/
theorem Stmt.Derives.begins {ts : List Kind} {s : Stmt}
    (h : Stmt.Derives ts s) : ∃ k us, ts = k :: us ∧ k.beginsStmt := by
  cases h with
  | bind _ => exact ⟨_, _, rfl, rfl⟩
  | ret _ => exact ⟨_, _, rfl, rfl⟩
  | expr h =>
    obtain ⟨k, us, rfl, hk⟩ := h.begins
    exact ⟨k, us, rfl, Kind.beginsStmt_of_beginsExpr hk⟩

end Monkey
