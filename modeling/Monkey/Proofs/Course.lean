import Mathlib.Logic.Relation
import Monkey.Proofs.Recovery

/-!
# The course of a reading

Reading a program is reading statements, reading a statement is reading
expressions, and so on: the functions of the reader call each other, and where
one of them loops, each further round can be seen as a call as well. A `Task` is
something to be read at a cursor. `Task.Calls` says which tasks come up directly
in which, and when: what stands behind a part of a phrase is asked for only if
the part has been read, and at the cursor where that has stopped.

A call takes tokens away, or it takes none and asks for less. So there is no
endless chain of calls (`Task.wellFounded_calls`). Between a task and one that
it calls lies a complete part of the phrase, an opening brace, or what is passed
over behind a fault (`Task.Calls.between`); in any case what is left is a suffix
of what there was. And a reading that fails is a chain of calls down to one at
which the next token, or the end, does not fit (`Task.Fails.reaches`).

The reading of a program goes on in rounds (`Program.Round`), which are calls of
this kind. What the rounds up to the end add, one after the other, is what
`Stmt.readAll` has for a result (`Program.Rounds.readAll_eq`), so this is where
the reader can be seen to come to the end of the tokens.
-/

namespace Monkey

open Token (Kind)
open Reading

/-! ## Tasks -/

/-- **Reads a statement.** Within programs and blocks a statement is asked for
only where there is a token; at the end its expression is what is missing. -/
def Stmt.read (c : Cursor) : Reading Stmt c.size :=
  match c with
  | ⟨[], k⟩ => fail (.unexpectedEnd .expression) ⟨[], k⟩
  | ⟨t :: ts, k⟩ => (Stmt.readFrom t ⟨ts, k⟩).after t

/-- **What lists are made of**: expressions, pairs of a key and a value, or
names. -/
inductive Item where
  | expr
  | pair
  | name

/-- **Something to be read.** -/
inductive Phrase where
  /-- The statements of a program that are still to come. -/
  | program
  | stmt
  /-- A block, behind its opening brace. -/
  | block
  /-- The statements of an open block that are still to come. -/
  | rest
  | expr (p : Precedence)
  | operand
  /-- What goes on with an expression. -/
  | extend (p : Precedence) (left : Expr)
  /-- The rest of a continuation, behind its first token. -/
  | continuation (k : Continuation) (left : Expr)
  /-- The alternative of a conditional, if there is one. -/
  | otherwise
  | pair
  | name
  /-- The items of a list that are still to come, and the token behind them. -/
  | list (i : Item) (close : Kind)

/-- How much is asked for: what a task calls at the same cursor is less. -/
def Phrase.weight : Phrase → Nat
  | operand | name | extend _ _ | otherwise => 0
  | expr _ => 1
  | stmt | pair => 2
  | program | rest | list _ _ => 3
  | block | continuation _ _ => 4

namespace Item

/-- What is read for an item. -/
def Result : Item → Type
  | expr => Expr
  | pair => Expr × Expr
  | name => String

/-- Reads an item whose first token is `t`. -/
def read : (i : Item) → Token → (c : Cursor) → Reading i.Result c.size
  | expr, t, c => Expr.readFrom .lowest t c
  | pair, t, c => Expr.readPair t c
  | name, t, c => nameOf t c

/-- Reads a list of items, behind the token that opens it, where there are at
most `n` tokens. -/
def readList (i : Item) (close : Kind) {n : Nat} (c : Cursor)
    (hc : c.size ≤ n) : Reading (List i.Result) c.size :=
  list close (fun t c _ => i.read t c) c hc

/-- The item as something to be read. -/
def phrase : Item → Phrase
  | expr => .expr .lowest
  | pair => .pair
  | name => .name

theorem weight_phrase_lt (i : Item) : i.phrase.weight < 3 := by
  cases i <;> decide

end Item

/-- **A task of the reader**: something to be read, at a cursor. -/
structure Task where
  phrase : Phrase
  cursor : Cursor

namespace Task

/-- **The tasks that come up directly in a task**, each at the cursor where its
turn comes. -/
inductive Calls : Task → Task → Prop where
  | semicolon {t ts k} : t.kind = .semicolon →
      Calls ⟨.program, ⟨t :: ts, k⟩⟩ ⟨.program, ⟨ts, k⟩⟩
  | statement {t ts k} : t.kind ≠ .semicolon →
      Calls ⟨.program, ⟨t :: ts, k⟩⟩ ⟨.stmt, ⟨t :: ts, k⟩⟩
  | behindStatement {t ts k s c} : t.kind ≠ .semicolon →
      (Stmt.readFrom t ⟨ts, k⟩).Gives s c →
      Calls ⟨.program, ⟨t :: ts, k⟩⟩ ⟨.program, c⟩
  /-- Behind a fault the reading of the program goes on. -/
  | behindFault {t ts k e c} : t.kind ≠ .semicolon →
      (Stmt.readFrom t ⟨ts, k⟩).Fails e c →
      Calls ⟨.program, ⟨t :: ts, k⟩⟩ ⟨.program, c.recover⟩
  | bound {t ts k x c c' u} : t.kind = .kwLet →
      (name ⟨ts, k⟩).Gives x c → (expect .assign c).Gives u c' →
      Calls ⟨.stmt, ⟨t :: ts, k⟩⟩ ⟨.expr .lowest, c'⟩
  | returned {t ts k} : t.kind = .kwReturn →
      Calls ⟨.stmt, ⟨t :: ts, k⟩⟩ ⟨.expr .lowest, ⟨ts, k⟩⟩
  | alone {t ts k} : t.kind ≠ .kwLet → t.kind ≠ .kwReturn →
      Calls ⟨.stmt, ⟨t :: ts, k⟩⟩ ⟨.expr .lowest, ⟨t :: ts, k⟩⟩
  /-- A block is open while its statements are read. -/
  | opened {c} : Calls ⟨.block, c⟩ ⟨.rest, c.openBlock⟩
  | blockSemicolon {t ts k} : t.kind = .semicolon →
      Calls ⟨.rest, ⟨t :: ts, k⟩⟩ ⟨.rest, ⟨ts, k⟩⟩
  | blockStatement {t ts k} : t.kind ≠ .semicolon → t.kind ≠ .rightBrace →
      Calls ⟨.rest, ⟨t :: ts, k⟩⟩ ⟨.stmt, ⟨t :: ts, k⟩⟩
  | behindBlockStatement {t ts k s c} :
      t.kind ≠ .semicolon → t.kind ≠ .rightBrace →
      (Stmt.readFrom t ⟨ts, k⟩).Gives s c →
      Calls ⟨.rest, ⟨t :: ts, k⟩⟩ ⟨.rest, c⟩
  | operand {p t ts k} :
      Calls ⟨.expr p, ⟨t :: ts, k⟩⟩ ⟨.operand, ⟨t :: ts, k⟩⟩
  | extend {p t ts k left c} :
      (Expr.readOperand t ⟨ts, k⟩).Gives left c →
      Calls ⟨.expr p, ⟨t :: ts, k⟩⟩ ⟨.extend p left, c⟩
  | continued {p left t ts k} {cont : Continuation} :
      t.kind.continuation? = some cont → p < cont.precedence →
      Calls ⟨.extend p left, ⟨t :: ts, k⟩⟩ ⟨.continuation cont left, ⟨ts, k⟩⟩
  | further {p left t ts k e c} {cont : Continuation} :
      t.kind.continuation? = some cont → p < cont.precedence →
      (Expr.continueWith cont left ⟨ts, k⟩).Gives e c →
      Calls ⟨.extend p left, ⟨t :: ts, k⟩⟩ ⟨.extend p e, c⟩
  | right {op left c} :
      Calls ⟨.continuation (.binary op) left, c⟩ ⟨.expr op.precedence, c⟩
  | arguments {left c} :
      Calls ⟨.continuation .call left, c⟩ ⟨.list .expr .rightParen, c⟩
  | position {left c} :
      Calls ⟨.continuation .index left, c⟩ ⟨.expr .lowest, c⟩
  | negated {t ts k} {op : UnaryOp} : t.kind = op.kind →
      Calls ⟨.operand, ⟨t :: ts, k⟩⟩ ⟨.expr .unary, ⟨ts, k⟩⟩
  | grouped {t ts k} : t.kind = .leftParen →
      Calls ⟨.operand, ⟨t :: ts, k⟩⟩ ⟨.expr .lowest, ⟨ts, k⟩⟩
  | array {t ts k} : t.kind = .leftBracket →
      Calls ⟨.operand, ⟨t :: ts, k⟩⟩ ⟨.list .expr .rightBracket, ⟨ts, k⟩⟩
  /-- A brace where an operand is asked for opens a hash. -/
  | hash {t ts k} : t.kind = .leftBrace →
      Calls ⟨.operand, ⟨t :: ts, k⟩⟩ ⟨.list .pair .rightBrace, ⟨ts, k⟩⟩
  | condition {t ts k} : t.kind = .kwIf →
      Calls ⟨.operand, ⟨t :: ts, k⟩⟩ ⟨.expr .lowest, ⟨ts, k⟩⟩
  | consequence {t ts k e c u c'} : t.kind = .kwIf →
      (Expr.read .lowest ⟨ts, k⟩).Gives e c →
      (expect .leftBrace c).Gives u c' →
      Calls ⟨.operand, ⟨t :: ts, k⟩⟩ ⟨.block, c'⟩
  | otherwise {t ts k e c u c' b c''} : t.kind = .kwIf →
      (Expr.read .lowest ⟨ts, k⟩).Gives e c →
      (expect .leftBrace c).Gives u c' → (Block.read c').Gives b c'' →
      Calls ⟨.operand, ⟨t :: ts, k⟩⟩ ⟨.otherwise, c''⟩
  | alternative {t ts k u c} : t.kind = .kwElse →
      (expect .leftBrace ⟨ts, k⟩).Gives u c →
      Calls ⟨.otherwise, ⟨t :: ts, k⟩⟩ ⟨.block, c⟩
  | params {t ts k u c} : t.kind = .kwFn →
      (expect .leftParen ⟨ts, k⟩).Gives u c →
      Calls ⟨.operand, ⟨t :: ts, k⟩⟩ ⟨.list .name .rightParen, c⟩
  | body {t ts k u c n ps c' v c''} {hc : c.size ≤ n} : t.kind = .kwFn →
      (expect .leftParen ⟨ts, k⟩).Gives u c →
      (Item.name.readList .rightParen c hc).Gives ps c' →
      (expect .leftBrace c').Gives v c'' →
      Calls ⟨.operand, ⟨t :: ts, k⟩⟩ ⟨.block, c''⟩
  | key {t ts k} :
      Calls ⟨.pair, ⟨t :: ts, k⟩⟩ ⟨.expr .lowest, ⟨t :: ts, k⟩⟩
  | value {t ts k e c u c'} :
      (Expr.readFrom .lowest t ⟨ts, k⟩).Gives e c →
      (expect .colon c).Gives u c' →
      Calls ⟨.pair, ⟨t :: ts, k⟩⟩ ⟨.expr .lowest, c'⟩
  | item {i close t ts k} : t.kind ≠ close →
      Calls ⟨.list i close, ⟨t :: ts, k⟩⟩ ⟨i.phrase, ⟨t :: ts, k⟩⟩
  | furtherItems {i close t ts k a c c'} : t.kind ≠ close →
      (i.read t ⟨ts, k⟩).Gives a c → (separator close c).Gives true c' →
      Calls ⟨.list i close, ⟨t :: ts, k⟩⟩ ⟨.list i close, c'⟩

/-- **The tasks that come up in a task**: itself, those it calls, those they
call, and so on. -/
abbrev Reaches : Task → Task → Prop := Relation.ReflTransGen Calls

/-! ## There is no endless chain of calls -/

/-- **A call takes tokens away, or asks for less.** -/
theorem Calls.lt {τ σ : Task} (h : τ.Calls σ) :
    5 * σ.cursor.size + σ.phrase.weight
      < 5 * τ.cursor.size + τ.phrase.weight := by
  -- One token counts for more than every weight. The cases are grouped by how
  -- many readings have been made before the call.
  cases h with
  | semicolon | statement | returned | alone | opened | blockSemicolon
  | blockStatement | operand | continued | right | arguments | position
  | negated | grouped | array | hash | condition | key =>
    simp only [Cursor.size_mk, Cursor.size_openBlock, List.length_cons,
      Phrase.weight]
    omega
  | behindStatement _ h | behindBlockStatement _ _ h | extend h | further _ _ h
  | alternative _ h | params _ h =>
    have hle := h.size_le
    simp only [Cursor.size_mk, List.length_cons, Phrase.weight] at hle ⊢
    omega
  | @behindFault t ts k e c _ h =>
    have hle : c.size ≤ _ := h.2 ▸ (Stmt.readFrom t ⟨ts, k⟩).size_le
    have hrecover := c.size_recover_le
    simp only [Cursor.size_mk, List.length_cons, Phrase.weight] at hle ⊢
    omega
  | bound _ h h' | consequence _ h h' | value h h' | furtherItems _ h h' =>
    have hle := h.size_le
    have hle' := h'.size_le
    simp only [Cursor.size_mk, List.length_cons, Phrase.weight] at hle ⊢
    omega
  | otherwise _ h h' h'' | body _ h h' h'' =>
    have hle := h.size_le
    have hle' := h'.size_le
    have hle'' := h''.size_le
    simp only [Cursor.size_mk, List.length_cons, Phrase.weight] at hle ⊢
    omega
  | @item i => exact Nat.add_lt_add_left i.weight_phrase_lt _

/-- **There is no endless chain of calls.** -/
theorem wellFounded_calls : WellFounded fun σ τ : Task => τ.Calls σ :=
  Subrelation.wf (fun h => Calls.lt h)
    (measure fun τ : Task => 5 * τ.cursor.size + τ.phrase.weight).wf

end Task

/-! ## What lies between a task and one that it calls -/

/-- Whatever closes a list, it is a comma behind which there is more. -/
theorem Reading.Gives.token_separator {close : Kind} {c d : Cursor}
    {more : Bool} (h : (separator close c).Gives more d) :
    ∃ t, c = d.before [t] ∧ (more = true → t.kind = .comma) := by
  match c with
  | ⟨[], k⟩ => exact absurd h not_gives_fail
  | ⟨t :: ts, k⟩ =>
    rw [separator] at h
    split at h
    · rename_i ht
      obtain ⟨-, rfl⟩ := gives_succeed.1 (gives_after.1 h)
      exact ⟨t, rfl, fun _ => ht⟩
    · split at h
      · obtain ⟨rfl, rfl⟩ := gives_succeed.1 (gives_after.1 h)
        exact ⟨t, rfl, fun hmore => absurd hmore Bool.false_ne_true⟩
      · exact absurd (gives_after.1 h) not_gives_fail

/-- **A complete part of a phrase lies between the cursors**: it closes the
braces that it opens, and no other block is open behind it than before it. -/
def Cursor.Passes (c d : Cursor) : Prop :=
  ∃ us, c = d.before us ∧ braces (us.map Token.kind) = 0

namespace Cursor.Passes

variable {c d d' : Cursor}

theorem refl (c : Cursor) : c.Passes c := ⟨[], rfl, rfl⟩

theorem trans (h : c.Passes d) (h' : d.Passes d') : c.Passes d' := by
  obtain ⟨us, rfl, hus⟩ := h
  obtain ⟨vs, rfl, hvs⟩ := h'
  refine ⟨us ++ vs, before_before .., ?_⟩
  rw [List.map_append, braces_append, hus, hvs]
  rfl

theorem nesting_eq (h : c.Passes d) : d.nesting = c.nesting := by
  obtain ⟨us, rfl, -⟩ := h
  rfl

theorem suffix (h : c.Passes d) : d.tokens <:+ c.tokens := by
  obtain ⟨us, rfl, -⟩ := h
  exact List.suffix_append _ _

/-- A token that is no brace. -/
theorem token {t : Token} {kind : Kind} (ht : t.kind = kind)
    (hkind : kind.brace = 0) {ts : List Token} {k : Nat} :
    (mk (t :: ts) k).Passes ⟨ts, k⟩ :=
  ⟨[t], rfl, by simp [ht, hkind]⟩

/-- A token that was asked for and is no brace. -/
theorem expect {kind : Kind} {u : Unit} (h : (expect kind c).Gives u d)
    (hkind : kind.brace = 0) : c.Passes d := by
  obtain ⟨t, rfl, rfl⟩ := gives_expect.1 h
  exact .token rfl hkind

theorem name {x : String} (h : (name c).Gives x d) : c.Passes d := by
  obtain ⟨t, ht, rfl⟩ := gives_name.1 h
  exact .token ht rfl

/-- A comma between the items of a list. -/
theorem comma {close : Kind} (h : (separator close c).Gives true d) :
    c.Passes d := by
  obtain ⟨t, rfl, ht⟩ := h.token_separator
  exact .token (ht rfl) rfl

theorem cons {t : Token} {kind : Kind} (h : c.Passes d) (ht : t.kind = kind)
    (hkind : kind.brace = 0) : (c.before [t]).Passes d :=
  (Passes.token ht hkind).trans h

/-- Tokens that come back to the level at which they begin. -/
theorem of_level {us : List Token} (h : c = d.before us)
    (hus : Level 0 (us.map Token.kind)) : c.Passes d :=
  ⟨us, h, hus.braces_eq⟩

end Cursor.Passes

/-- What is left where a reading breaks off. -/
theorem Cursor.Breaks.suffix {c d : Cursor} {us : List Token}
    {bs : List Brace} {e : ParseError} (h : c.Breaks us bs e d) :
    d.tokens <:+ c.tokens := by
  cases h with
  | atEnd => exact List.nil_suffix
  | @atToken us ts t => exact ⟨us ++ [t], by simp⟩

theorem Token.Kind.brace_of_continuation? {kind : Kind} {k : Continuation}
    (h : kind.continuation? = some k) : kind.brace = 0 := by
  cases kind <;> first | rfl | cases h

theorem UnaryOp.brace_kind (op : UnaryOp) : op.kind.brace = 0 := by
  cases op <;> rfl

section

variable {t : Token} {c d : Cursor} {e : Expr}

theorem Expr.passes_of_operand (h : (Expr.readOperand t c).Gives e d) :
    (c.before [t]).Passes d := by
  obtain ⟨l, ts, rfl, -, hd, -⟩ :=
    Expr.derives_of_readOperand (Expr.derivedBelow _) (Nat.le_refl _) h
  exact .of_level (Cursor.before_before ..) hd.level

/-- An expression as it is asked for within others. -/
theorem Expr.passes_of_part {p : Precedence} (hp : p ≤ .unary)
    (h : (Expr.read p c).Gives e d) : c.Passes d := by
  obtain ⟨ts, hts, hr⟩ :=
    Expr.readAs_of_read (Expr.derivedBelow _) hp (Nat.le_refl _) h
  exact .of_level hts hr.derives.level

theorem Expr.passes_of_continuation {k : Continuation} {left : Expr}
    (h : (Expr.continueWith k left c).Gives e d) : c.Passes d := by
  rw [Expr.continueWith.eq_def] at h
  cases k with
  | binary op =>
    obtain ⟨right, hright, -⟩ := gives_map.1 h
    exact Expr.passes_of_part op.precedence_le_unary hright
  | call =>
    obtain ⟨args, hargs, -⟩ := gives_map.1 h
    obtain ⟨us, u, hu, hus, hl⟩ := Expr.listed_of_list (Expr.derivedBelow _)
      (by decide) (Nat.le_refl _) hargs
    refine .of_level hus ?_
    simpa [hu] using (Expr.level_of_listed hl).close rfl
  | index =>
    simp only [gives_andThen, gives_map] at h
    obtain ⟨position, c₁, -, hposition, u, hclose, -⟩ := h
    exact (Expr.passes_of_part (by decide) hposition).trans (.expect hclose rfl)

/-- **The loop**: every round of it passes a continuation. -/
theorem Expr.passes_of_extend {p : Precedence} {left e : Expr} {c d : Cursor}
    (h : (Expr.extend p left c).Gives e d) : c.Passes d := by
  obtain ⟨-, -, rfl⟩ | ⟨t, c₁, rfl, k, e₁, c₂, hk, -, h₁, h₂⟩ :=
    Expr.gives_extend.1 h
  · exact .refl c
  · have hle := h₁.size_le
    exact ((Expr.passes_of_continuation h₁).trans
      (Expr.passes_of_extend h₂)).cons rfl (Kind.brace_of_continuation? hk)
termination_by c.size
decreasing_by grind [Cursor.size_before]

/-- **An expression**, for whatever precedence. -/
theorem Expr.passes_of_read {p : Precedence} (h : (Expr.read p c).Gives e d) :
    c.Passes d := by
  obtain ⟨t, c₁, rfl, hfrom⟩ := Expr.gives_read.1 h
  obtain ⟨left, c₂, hleft, hextend⟩ := Expr.gives_readFrom.1 hfrom
  exact (Expr.passes_of_operand hleft).trans (Expr.passes_of_extend hextend)

theorem Stmt.passes_of_readFrom {s : Stmt}
    (h : (Stmt.readFrom t c).Gives s d) : (c.before [t]).Passes d := by
  obtain ⟨ts, rfl, hs, -⟩ :=
    Stmt.derives_of_readFrom (Expr.derivedBelow _) (Nat.lt_succ_self _) h
  exact .of_level (Cursor.before_before ..) hs.level

theorem Stmt.passes_of_read {s : Stmt} {c d : Cursor}
    (h : (Stmt.read c).Gives s d) : c.Passes d := by
  match c with
  | ⟨[], k⟩ => exact absurd h not_gives_fail
  | ⟨t :: ts, k⟩ => exact Stmt.passes_of_readFrom (gives_after.1 h)

/-- A block with the brace that opens it. -/
theorem Block.passes_of_read {b : Block} (ht : t.kind = .leftBrace)
    (h : (Block.read c).Gives b d) : (c.before [t]).Passes d := by
  obtain ⟨ts, u, hu, rfl, hbody⟩ :=
    Block.body_of_read (Expr.derivedBelow _) (Nat.le_refl _) h
  refine ⟨[t] ++ (ts ++ [u]), Cursor.before_before .., ?_⟩
  simpa [ht, hu] using (Level.enclosed hbody.braces_eq .nil).braces_eq

theorem Expr.passes_of_readFrom {p : Precedence}
    (h : (Expr.readFrom p t c).Gives e d) : (c.before [t]).Passes d :=
  Expr.passes_of_read (Expr.gives_read.2 ⟨t, c, rfl, h⟩)

theorem Expr.passes_of_readPair {pair : Expr × Expr}
    (h : (Expr.readPair t c).Gives pair d) : (c.before [t]).Passes d := by
  rw [Expr.readPair] at h
  simp only [gives_andThen, gives_map] at h
  obtain ⟨key, c₁, -, hkey, u, c₂, -, hcolon, value, hvalue, -⟩ := h
  exact (Expr.passes_of_readFrom hkey).trans
    ((Cursor.Passes.expect hcolon rfl).trans (Expr.passes_of_read hvalue))

theorem Item.passes_of_read {i : Item} {a : i.Result}
    (h : (i.read t c).Gives a d) : (c.before [t]).Passes d := by
  cases i with
  | expr => exact Expr.passes_of_readFrom h
  | pair => exact Expr.passes_of_readPair h
  | name =>
    obtain ⟨ht, rfl⟩ := gives_nameOf.1 h
    exact .token ht rfl

/-- The parameters of a function, with the parenthesis behind them. -/
theorem Item.passes_of_params {ps : List String} {n : Nat} {hc : c.size ≤ n}
    (h : (Item.name.readList .rightParen c hc).Gives ps d) : c.Passes d := by
  have hparams :
    (list .rightParen (fun t c _ => nameOf t c) c hc).Gives ps d := h
  obtain ⟨ts, u, hu, hts, hl⟩ := hparams.listed (by decide) (D := Named)
    (fun hname => by
      obtain ⟨ht, rfl⟩ := gives_nameOf.1 hname
      exact ⟨[], rfl, by simpa [ht] using Named.name⟩)
  refine .of_level hts ?_
  simpa [hu] using hl.level_named.close rfl

end

namespace Task

/-- **Where a task begins**: the brace of a block has been read before, and the
block counts as open. -/
def entry (τ : Task) : Cursor :=
  match τ.phrase with
  | .block => τ.cursor.openBlock
  | _ => τ.cursor

theorem tokens_entry (τ : Task) : τ.entry.tokens = τ.cursor.tokens := by
  unfold entry
  split <;> rfl

/-- **What lies between a task and one that it calls.** -/
inductive Between : Task → Task → Prop where
  /-- A complete part of the phrase. -/
  | part {τ σ : Task} : τ.entry.Passes σ.entry → Between τ σ
  /-- A complete part, and the brace that opens a block. -/
  | block {τ : Task} {u : Token} {c : Cursor} :
      τ.entry.Passes (c.before [u]) → u.kind = .leftBrace →
      Between τ ⟨.block, c⟩
  /-- The brace that opens a hash. -/
  | hash {u : Token} {ts : List Token} {k : Nat} : u.kind = .leftBrace →
      Between ⟨.operand, ⟨u :: ts, k⟩⟩ ⟨.list .pair .rightBrace, ⟨ts, k⟩⟩
  /-- A faulty statement, and what is passed over behind it. -/
  | fault {c d : Cursor} : d.tokens <:+ c.tokens →
      Between ⟨.program, c⟩ ⟨.program, d⟩

/-- **What is called is called behind a complete part of the phrase**, or behind
an opening brace or a fault. -/
theorem Calls.between {τ σ : Task} (h : τ.Calls σ) : τ.Between σ := by
  cases h with
  | statement | alone | opened | blockStatement | operand | right | arguments
  | position | key => exact .part (.refl _)
  | @item i =>
    have hentry (c : Cursor) : (Task.mk i.phrase c).entry = c := by
      cases i <;> rfl
    exact .part (hentry _ ▸ .refl _)
  | semicolon ht | blockSemicolon ht | returned ht | grouped ht | array ht
  | condition ht => exact .part (.token ht rfl)
  | @negated t ts k op ht => exact .part (.token ht op.brace_kind)
  | continued hk _ => exact .part (.token rfl (Kind.brace_of_continuation? hk))
  | further hk _ h =>
    exact .part ((Expr.passes_of_continuation h).cons rfl
      (Kind.brace_of_continuation? hk))
  | extend h => exact .part (Expr.passes_of_operand h)
  | behindStatement _ h | behindBlockStatement _ _ h =>
    exact .part (Stmt.passes_of_readFrom h)
  | @behindFault t ts k e c _ h =>
    have hsuffix : c.tokens <:+ t :: ts := by
      obtain ⟨us, bs, -, hbreaks⟩ := Stmt.begun_of_readFrom h
      exact hbreaks.suffix
    exact .fault ((skipStatement_suffix _ _).trans hsuffix)
  | bound ht h h' =>
    exact .part (((Cursor.Passes.name h).trans (.expect h' rfl)).cons ht rfl)
  | hash ht => exact .hash ht
  | consequence ht h h' =>
    obtain ⟨u, hu, rfl⟩ := gives_expect.1 h'
    exact .block ((Expr.passes_of_read h).cons ht rfl) hu
  | otherwise ht h h' h'' =>
    obtain ⟨u, hu, rfl⟩ := gives_expect.1 h'
    exact .part (((Expr.passes_of_read h).trans
      (Block.passes_of_read hu h'')).cons ht rfl)
  | @alternative t ts k _ c ht h =>
    obtain ⟨u, hu, hc⟩ := gives_expect.1 h
    have hpasses : (Cursor.mk ts k).Passes (c.before [u]) := hc ▸ .refl _
    exact .block (hpasses.cons ht rfl) hu
  | params ht h => exact .part ((Cursor.Passes.expect h rfl).cons ht rfl)
  | body ht h h' h'' =>
    obtain ⟨u, hu, rfl⟩ := gives_expect.1 h''
    exact .block (((Cursor.Passes.expect h rfl).trans
      (Item.passes_of_params h')).cons ht rfl) hu
  | value h h' =>
    exact .part ((Expr.passes_of_readFrom h).trans (.expect h' rfl))
  | furtherItems _ h h' =>
    exact .part ((Item.passes_of_read h).trans (.comma h'))

theorem Between.suffix {τ σ : Task} (h : τ.Between σ) :
    σ.cursor.tokens <:+ τ.cursor.tokens := by
  rw [← tokens_entry, ← tokens_entry]
  cases h with
  | part h => exact h.suffix
  | @block _ u c h => exact (List.suffix_cons u c.tokens).trans h.suffix
  | hash => exact List.suffix_cons _ _
  | fault h => exact h

/-- A task leaves a suffix of its tokens to those that come up in it. -/
theorem Reaches.suffix {τ σ : Task} (h : τ.Reaches σ) :
    σ.cursor.tokens <:+ τ.cursor.tokens := by
  induction h with
  | refl => exact List.suffix_rfl
  | tail _ hcalls ih => exact hcalls.between.suffix.trans ih

/-! ## A failure is that of the last call -/

/-- **The task fails** with `e`, and the reading stops at `d`. A program does
not fail. -/
inductive Fails : Task → ParseError → Cursor → Prop where
  | stmt {c e d} : (Stmt.read c).Fails e d → Fails ⟨.stmt, c⟩ e d
  | block {c e d} : (Block.read c).Fails e d → Fails ⟨.block, c⟩ e d
  | rest {c e d} : (Block.readRest c).Fails e d → Fails ⟨.rest, c⟩ e d
  | expr {p c e d} : (Expr.read p c).Fails e d → Fails ⟨.expr p, c⟩ e d
  | operand {t ts k e d} : (Expr.readOperand t ⟨ts, k⟩).Fails e d →
      Fails ⟨.operand, ⟨t :: ts, k⟩⟩ e d
  | extend {p left c e d} : (Expr.extend p left c).Fails e d →
      Fails ⟨.extend p left, c⟩ e d
  | continuation {k left c e d} : (Expr.continueWith k left c).Fails e d →
      Fails ⟨.continuation k left, c⟩ e d
  | otherwise {c e d} : (Expr.readElse c).Fails e d → Fails ⟨.otherwise, c⟩ e d
  | pair {t ts k e d} : (Expr.readPair t ⟨ts, k⟩).Fails e d →
      Fails ⟨.pair, ⟨t :: ts, k⟩⟩ e d
  | name {t ts k e d} : (nameOf t ⟨ts, k⟩).Fails e d →
      Fails ⟨.name, ⟨t :: ts, k⟩⟩ e d
  | list {i : Item} {close c n e d} {hc : c.size ≤ n} :
      (i.readList close c hc).Fails e d → Fails ⟨.list i close, c⟩ e d

/-- **Why a task fails.** -/
inductive Caused : Task → ParseError → Cursor → Prop where
  /-- Behind a complete part of the phrase the next token does not fit, or there
  is none. -/
  | here {τ : Task} {c e d} :
      τ.entry.Passes c → c.Breaks [] [] e d → Caused τ e d
  /-- It calls a task that fails. -/
  | below {τ σ : Task} {e d} : τ.Calls σ → σ.Fails e d → Caused τ e d

variable {e : ParseError} {d : Cursor}

theorem Caused.of_stmt {c : Cursor} (h : (Stmt.read c).Fails e d) :
    (Task.mk .stmt c).Caused e d := by
  match c with
  | ⟨[], k⟩ =>
    obtain ⟨rfl, rfl⟩ := fails_fail.1 h
    exact .here (.refl _) .atEnd
  | ⟨t :: ts, k⟩ =>
    have hfrom : (Stmt.readFrom t ⟨ts, k⟩).Fails e d := h
    rw [Stmt.readFrom] at hfrom
    split at hfrom
    · rename_i ht
      simp only [fails_andThen, fails_map] at hfrom
      obtain hfrom | ⟨x, c₁, -, hx, hfrom | ⟨u, c₂, -, hu, hfrom⟩⟩ := hfrom
      · exact .here (.token ht rfl) hfrom.breaks_name
      · exact .here ((Cursor.Passes.name hx).cons ht rfl)
          hfrom.breaks_expect
      · exact .below (.bound ht hx hu) (.expr hfrom)
    · rename_i ht
      exact .below (.returned ht) (.expr (fails_map.1 hfrom))
    · rename_i ht ht'
      refine .below (.alone ht ht') (.expr ?_)
      rw [Expr.read]
      exact fails_map.1 hfrom

theorem Caused.of_rest {c : Cursor} (h : (Block.readRest c).Fails e d) :
    (Task.mk .rest c).Caused e d := by
  match c with
  | ⟨[], k⟩ =>
    rw [Block.readRest] at h
    obtain ⟨rfl, rfl⟩ := fails_fail.1 h
    exact .here (.refl _) .atEnd
  | ⟨t :: ts, k⟩ =>
    rw [Block.readRest] at h
    split at h
    · rename_i ht
      exact .below (.blockSemicolon ht) (.rest h)
    · rename_i ht
      split at h
      · exact absurd h not_fails_succeed
      · rename_i ht'
        obtain h | ⟨s, c₂, -, hs, h⟩ := fails_andThen.1 (fails_after.1 h)
        · exact .below (.blockStatement ht ht') (.stmt h)
        · exact .below (.behindBlockStatement ht ht' hs) (.rest (fails_map.1 h))

theorem Caused.of_expr {p : Precedence} {c : Cursor}
    (h : (Expr.read p c).Fails e d) : (Task.mk (.expr p) c).Caused e d := by
  match c with
  | ⟨[], k⟩ =>
    rw [Expr.read] at h
    obtain ⟨rfl, rfl⟩ := fails_fail.1 h
    exact .here (.refl _) .atEnd
  | ⟨t :: ts, k⟩ =>
    rw [Expr.read] at h
    obtain h | ⟨left, c₁, hleft, h⟩ := Expr.fails_readFrom.1 (fails_after.1 h)
    · exact .below .operand (.operand h)
    · exact .below (.extend hleft) (.extend h)

theorem Caused.of_continuation {k : Continuation} {left : Expr} {c : Cursor}
    (h : (Expr.continueWith k left c).Fails e d) :
    (Task.mk (.continuation k left) c).Caused e d := by
  rw [Expr.continueWith.eq_def] at h
  cases k with
  | binary op => exact .below .right (.expr (fails_map.1 h))
  | call => exact .below .arguments (.list (i := .expr) (fails_map.1 h))
  | index =>
    simp only [fails_andThen, fails_map] at h
    obtain h | ⟨position, c₁, -, hposition, h⟩ := h
    · exact .below .position (.expr h)
    · exact .here (Expr.passes_of_read hposition) h.breaks_expect

theorem Fails.item {i : Item} {t : Token} {ts : List Token} {k : Nat}
    (h : (i.read t ⟨ts, k⟩).Fails e d) :
    Fails ⟨i.phrase, ⟨t :: ts, k⟩⟩ e d := by
  cases i with
  | expr => exact .expr (by rw [Expr.read]; exact fails_after.2 h)
  | pair => exact .pair h
  | name => exact .name h

theorem Caused.of_list {i : Item} {close : Kind} {c : Cursor} {n : Nat}
    {hc : c.size ≤ n} (h : (i.readList close c hc).Fails e d) :
    (Task.mk (.list i close) c).Caused e d := by
  unfold Item.readList at h
  match c, hc, h with
  | ⟨[], k⟩, hc, h =>
    rw [Reading.list] at h
    obtain ⟨rfl, rfl⟩ := fails_fail.1 h
    exact .here (.refl _) .atEnd
  | ⟨t :: ts, k⟩, hc, h =>
    rw [Reading.list] at h
    split at h
    · exact absurd h not_fails_succeed
    · rename_i ht
      simp only [fails_after, fails_andThen] at h
      obtain h | ⟨a, c₁, _, ha, h | ⟨more, c₂, _, hmore, h⟩⟩ := h
      · exact .below (.item ht) (.item h)
      · exact .here (Item.passes_of_read ha) h.breaks_separator
      · cases more with
        | true =>
          rw [if_pos rfl] at h
          exact .below (.furtherItems ht ha hmore) (.list (fails_map.1 h))
        | false =>
          rw [if_neg Bool.false_ne_true] at h
          exact absurd h not_fails_succeed

theorem Caused.of_extend {p : Precedence} {left : Expr} {c : Cursor}
    (h : (Expr.extend p left c).Fails e d) :
    (Task.mk (.extend p left) c).Caused e d := by
  obtain ⟨t, c, rfl, k, hk, hp, h | ⟨e', c', he', h⟩⟩ := Expr.fails_extend h
  · exact .below (.continued hk hp) (.continuation h)
  · exact .below (.further hk hp he') (.extend h)

theorem Caused.of_otherwise {c : Cursor} (h : (Expr.readElse c).Fails e d) :
    (Task.mk .otherwise c).Caused e d := by
  obtain ⟨t, c, rfl, ht, h | ⟨u, c', hu, rfl, hblock⟩⟩ := Expr.fails_readElse h
  · exact .here (.token ht rfl) h
  · have hbrace : (expect .leftBrace (c'.before [u])).Gives () c' :=
      gives_expect.2 ⟨u, hu, rfl⟩
    exact .below (.alternative ht hbrace) (.block hblock)

theorem Caused.of_pair {t : Token} {ts : List Token} {k : Nat}
    (h : (Expr.readPair t ⟨ts, k⟩).Fails e d) :
    (Task.mk .pair ⟨t :: ts, k⟩).Caused e d := by
  rw [Expr.readPair] at h
  simp only [fails_andThen, fails_map] at h
  obtain h | ⟨key, c₁, -, hkey, h | ⟨u, c₂, -, hu, h⟩⟩ := h
  · exact .below .key (.expr (by rw [Expr.read]; exact fails_after.2 h))
  · exact .here (Expr.passes_of_readFrom hkey) h.breaks_expect
  · exact .below (.value hkey hu) (.expr h)

theorem Caused.of_conditional {t : Token} (ht : t.kind = .kwIf)
    {ts : List Token} {k : Nat} (h : (Expr.readOperand t ⟨ts, k⟩).Fails e d) :
    (Task.mk .operand ⟨t :: ts, k⟩).Caused e d := by
  rw [Expr.readOperand, ht] at h
  simp only [fails_andThen, fails_map] at h
  obtain h | ⟨condition, c₁, -, hcondition, h⟩ := h
  · exact .below (.condition ht) (.expr h)
  obtain h | ⟨u, c₂, -, hu, h⟩ := h
  · exact .here ((Expr.passes_of_read hcondition).cons ht rfl)
      h.breaks_expect
  obtain h | ⟨consequence, c₃, -, hconsequence, h⟩ := h
  · exact .below (.consequence ht hcondition hu) (.block h)
  · exact .below (.otherwise ht hcondition hu hconsequence) (.otherwise h)

theorem Caused.of_function {t : Token} (ht : t.kind = .kwFn) {ts : List Token}
    {k : Nat} (h : (Expr.readOperand t ⟨ts, k⟩).Fails e d) :
    (Task.mk .operand ⟨t :: ts, k⟩).Caused e d := by
  rw [Expr.readOperand, ht] at h
  simp only [fails_andThen, fails_map] at h
  obtain h | ⟨u, c₁, -, hu, h⟩ := h
  · exact .here (.token ht rfl) h.breaks_expect
  obtain h | ⟨params, c₂, -, hparams, h⟩ := h
  · exact .below (.params ht hu) (.list (i := .name) h)
  obtain h | ⟨v, c₃, -, hv, h⟩ := h
  · have hpasses := (Cursor.Passes.expect hu rfl).trans
      (Item.passes_of_params hparams)
    exact .here (hpasses.cons ht rfl) h.breaks_expect
  · exact .below (.body ht hu hparams hv) (.block h)

theorem Caused.of_operand {t : Token} {ts : List Token} {k : Nat}
    (h : (Expr.readOperand t ⟨ts, k⟩).Fails e d) :
    (Task.mk .operand ⟨t :: ts, k⟩).Caused e d := by
  have here (habout : e.About t) (hd : Cursor.mk ts k = d) :
      (Task.mk .operand ⟨t :: ts, k⟩).Caused e d := by
    subst hd
    exact .here (.refl _) (.here habout ⟨ts, k⟩)
  cases ht : t.kind with
  | ident _ | str _ | kwTrue | kwFalse =>
    rw [Expr.readOperand, ht] at h
    exact absurd h not_fails_succeed
  | int digits =>
    rw [Expr.readOperand, ht] at h
    obtain ⟨-, rfl, hd⟩ := fails_ofOption.1 (fails_map.1 h)
    exact here ht hd
  | minus =>
    rw [Expr.readOperand, ht] at h
    exact .below (@Calls.negated t ts k .minus ht) (.expr (fails_map.1 h))
  | bang =>
    rw [Expr.readOperand, ht] at h
    exact .below (@Calls.negated t ts k .bang ht) (.expr (fails_map.1 h))
  | leftParen =>
    rw [Expr.readOperand, ht] at h
    simp only [fails_andThen, fails_map] at h
    obtain h | ⟨inner, c₁, -, hinner, h⟩ := h
    · exact .below (.grouped ht) (.expr h)
    · exact .here ((Expr.passes_of_read hinner).cons ht rfl)
        h.breaks_expect
  | leftBracket =>
    rw [Expr.readOperand, ht] at h
    exact .below (.array ht) (.list (i := .expr) (fails_map.1 h))
  | leftBrace =>
    rw [Expr.readOperand, ht] at h
    exact .below (.hash ht) (.list (i := .pair) (fails_map.1 h))
  | kwIf => exact .of_conditional ht h
  | kwFn => exact .of_function ht h
  | illegal text =>
    rw [Expr.readOperand, ht] at h
    obtain ⟨rfl, hd⟩ := fails_fail.1 h
    exact here (.inl ht) hd
  | unclosedString =>
    rw [Expr.readOperand, ht] at h
    obtain ⟨rfl, hd⟩ := fails_fail.1 h
    exact here (.inr ⟨ht, rfl⟩) hd
  | _ =>
    rw [Expr.readOperand, ht] at h
    obtain ⟨rfl, hd⟩ := fails_fail.1 h
    exact here rfl hd

/-- **Every failure has a cause**: the next token, or a task that is called. -/
theorem Fails.caused {τ : Task} (h : τ.Fails e d) : τ.Caused e d := by
  cases h with
  | stmt h => exact .of_stmt h
  | block h =>
    rw [Block.read] at h
    exact .below .opened (.rest h)
  | rest h => exact .of_rest h
  | expr h => exact .of_expr h
  | operand h => exact .of_operand h
  | extend h => exact .of_extend h
  | continuation h => exact .of_continuation h
  | otherwise h => exact .of_otherwise h
  | pair h => exact .of_pair h
  | @name t ts k _ _ h =>
    obtain ⟨habout, rfl⟩ := h.about_nameOf
    exact .here (.refl _) (.here habout ⟨ts, k⟩)
  | list h => exact .of_list h

/-- **What fails comes down to a task at which the next token does not fit**,
with the same error and at the same place. -/
theorem Fails.reaches {τ : Task} (h : τ.Fails e d) :
    ∃ σ c, τ.Reaches σ ∧ σ.entry.Passes c ∧ c.Breaks [] [] e d := by
  -- The induction is on calls, which cannot go on for ever: the chain ends at
  -- the first task whose failure is not that of one that it calls.
  induction τ using wellFounded_calls.induction with
  | _ τ ih =>
    cases h.caused with
    | here hpasses hbreaks => exact ⟨τ, _, .refl, hpasses, hbreaks⟩
    | below hcalls hσ =>
      obtain ⟨ρ, c, hreaches, hρ⟩ := ih _ hcalls hσ
      exact ⟨ρ, c, .head hcalls hreaches, hρ⟩

/-- What fails leaves a suffix of its tokens. -/
theorem Fails.suffix {τ : Task} (h : τ.Fails e d) :
    d.tokens <:+ τ.cursor.tokens := by
  obtain ⟨σ, c, hreaches, hpasses, hbreaks⟩ := h.reaches
  have hentry : c.tokens <:+ σ.cursor.tokens := by
    rw [← tokens_entry]
    exact hpasses.suffix
  exact hbreaks.suffix.trans (hentry.trans hreaches.suffix)

end Task

/-! ## What is left is a suffix -/

/-- **A list leaves a suffix** if its elements do, whatever closes it. -/
theorem Reading.Gives.suffix_list {n : Nat} {α : Type} {close : Kind}
    {element : Token → (c : Cursor) → c.size < n → Reading α c.size}
    (helement : ∀ {t c h a d}, (element t c h).Gives a d →
      d.tokens <:+ t :: c.tokens)
    {c d : Cursor} {hc : c.size ≤ n} {as : List α}
    (h : (list close element c hc).Gives as d) : d.tokens <:+ c.tokens := by
  match c, hc with
  | ⟨[], k⟩, hc =>
    rw [list] at h
    exact absurd h not_gives_fail
  | ⟨t :: ts, k⟩, hc =>
    rw [list] at h
    split at h
    · obtain ⟨-, rfl⟩ := gives_succeed.1 (gives_after.1 h)
      exact List.suffix_cons t ts
    · simp only [gives_after, gives_andThen] at h
      obtain ⟨a, c₁, hle, ha, more, c₂, hle', hmore, h⟩ := h
      obtain ⟨u, rfl, -⟩ := hmore.token_separator
      have hbehind : c₂.tokens <:+ t :: ts :=
        (List.suffix_cons u c₂.tokens).trans (helement ha)
      cases more with
      | true =>
        rw [if_pos rfl] at h
        obtain ⟨bs, hbs, -⟩ := gives_map.1 h
        exact (Reading.Gives.suffix_list helement hbs).trans hbehind
      | false =>
        rw [if_neg Bool.false_ne_true] at h
        obtain ⟨-, rfl⟩ := gives_succeed.1 h
        exact hbehind
termination_by c.size
decreasing_by exact Nat.lt_succ_of_le (Nat.le_trans hle' hle)

theorem Expr.suffix_read (p : Precedence) (c : Cursor) :
    (Expr.read p c).cursor.tokens <:+ c.tokens := by
  obtain ⟨e, he⟩ | ⟨e, he⟩ := gives_or_fails (Expr.read p c)
  · exact (Expr.passes_of_read he).suffix
  · exact (Task.Fails.expr he).suffix

theorem Block.suffix_read (c : Cursor) :
    (Block.read c).cursor.tokens <:+ c.tokens := by
  obtain ⟨b, hb⟩ | ⟨e, he⟩ := gives_or_fails (Block.read c)
  · obtain ⟨ts, u, -, hts, -⟩ :=
      Block.body_of_read (Expr.derivedBelow _) (Nat.le_refl _) hb
    exact ⟨ts ++ [u], (congrArg Cursor.tokens hts).symm⟩
  · exact (Task.Fails.block he).suffix

theorem Stmt.suffix_read (c : Cursor) :
    (Stmt.read c).cursor.tokens <:+ c.tokens := by
  obtain ⟨s, hs⟩ | ⟨e, he⟩ := gives_or_fails (Stmt.read c)
  · exact (Stmt.passes_of_read hs).suffix
  · exact (Task.Fails.stmt he).suffix

theorem Item.suffix_readList (i : Item) (close : Kind) {n : Nat} (c : Cursor)
    (hc : c.size ≤ n) : (i.readList close c hc).cursor.tokens <:+ c.tokens := by
  obtain ⟨as, has⟩ | ⟨e, he⟩ := gives_or_fails (i.readList close c hc)
  · exact has.suffix_list fun ha => (Item.passes_of_read ha).suffix
  · exact (Task.Fails.list he).suffix

/-! ## The whole of a program -/

namespace Program

/-- **A round of the reading of a program**, with the statements and errors that
it adds to the result: a semicolon is passed over, a statement is read, or a
statement cannot be read and is passed over. -/
inductive Round : Cursor → List Stmt → List ParseError → Cursor → Prop where
  | semicolon {t ts k} : t.kind = .semicolon →
      Round ⟨t :: ts, k⟩ [] [] ⟨ts, k⟩
  | statement {t ts k s c} : t.kind ≠ .semicolon →
      (Stmt.read ⟨t :: ts, k⟩).Gives s c → Round ⟨t :: ts, k⟩ [s] [] c
  | fault {t ts k e c} : t.kind ≠ .semicolon →
      (Stmt.read ⟨t :: ts, k⟩).Fails e c → Round ⟨t :: ts, k⟩ [] [e] c.recover

/-- **Rounds one after the other**, with all that they add. -/
inductive Rounds : Cursor → List Stmt → List ParseError → Cursor → Prop where
  | refl {c} : Rounds c [] [] c
  | head {c ss es d ss' es' d'} : Round c ss es d → Rounds d ss' es' d' →
      Rounds c (ss ++ ss') (es ++ es') d'

/-- **The reading of the tokens stops at the cursor**, with the statements and
errors that there are by then: the rounds lead there, and there is no other. -/
def StopsAt (tokens : List Token) (ss : List Stmt) (es : List ParseError)
    (c : Cursor) : Prop :=
  Rounds (.start tokens) ss es c ∧ ∀ ss' es' d, ¬ Round c ss' es' d

variable {c d : Cursor} {ss : List Stmt} {es : List ParseError}

/-- **There is a round while there are tokens.** -/
theorem exists_round_iff : (∃ ss es d, Round c ss es d) ↔ c.tokens ≠ [] := by
  constructor
  · rintro ⟨ss, es, d, h⟩
    cases h <;> exact List.cons_ne_nil _ _
  · intro hc
    match c with
    | ⟨[], k⟩ => exact absurd rfl hc
    | ⟨t :: ts, k⟩ =>
      by_cases ht : t.kind = .semicolon
      · exact ⟨_, _, _, .semicolon ht⟩
      · obtain ⟨s, hs⟩ | ⟨e, he⟩ := gives_or_fails (Stmt.read ⟨t :: ts, k⟩)
        · exact ⟨_, _, _, .statement ht hs⟩
        · exact ⟨_, _, _, .fault ht he⟩

/-- **What a round adds is added to the result** of those behind it. -/
theorem Round.readAll_eq (h : Round c ss es d) :
    Stmt.readAll c = (ss ++ (Stmt.readAll d).1, es ++ (Stmt.readAll d).2) := by
  cases h with
  | semicolon ht => exact Stmt.readAll_semicolon ht
  | statement ht hs => exact Stmt.readAll_statement ht hs
  | fault ht he => exact Stmt.readAll_fault ht he

theorem Rounds.readAll_eq (h : Rounds c ss es d) :
    Stmt.readAll c = (ss ++ (Stmt.readAll d).1, es ++ (Stmt.readAll d).2) := by
  induction h with
  | refl => rfl
  | head hround _ ih =>
    rw [hround.readAll_eq, ih, List.append_assoc, List.append_assoc]

/-- **The rounds lead to the end of the tokens**, and what they add is the
result. -/
theorem exists_rounds (c : Cursor) :
    ∃ k, Rounds c (Stmt.readAll c).1 (Stmt.readAll c).2 ⟨[], k⟩ := by
  have hround {c ss es d} (h : Round c ss es d) :
      (∃ k, Rounds d (Stmt.readAll d).1 (Stmt.readAll d).2 ⟨[], k⟩) →
      ∃ k, Rounds c (Stmt.readAll c).1 (Stmt.readAll c).2 ⟨[], k⟩ := by
    rw [h.readAll_eq]
    exact fun ⟨k, hrounds⟩ => ⟨k, .head h hrounds⟩
  induction c using Stmt.inductionOnStatements with
  | nil k =>
    rw [Stmt.readAll_nil]
    exact ⟨k, .refl⟩
  | semicolon ht ih => exact hround (.semicolon ht) ih
  | statement ht hs ih => exact hround (.statement ht hs) ih
  | fault ht he ih => exact hround (.fault ht he) ih

/-- **Where the reading stops nothing is left**, and what there is by then is the
result. -/
theorem StopsAt.eq {tokens : List Token} (h : StopsAt tokens ss es c) :
    c.tokens = [] ∧ parseLenient tokens = (⟨ss⟩, es) := by
  obtain ⟨hrounds, hstops⟩ := h
  have hc : c.tokens = [] := by
    by_cases hc : c.tokens = []
    · exact hc
    · obtain ⟨ss', es', d, hround⟩ := exists_round_iff.2 hc
      exact absurd hround (hstops ss' es' d)
  refine ⟨hc, ?_⟩
  obtain ⟨ts, k⟩ := c
  obtain rfl : ts = [] := hc
  rw [parseLenient, hrounds.readAll_eq, Stmt.readAll_nil, List.append_nil,
    List.append_nil]

theorem exists_stopsAt (tokens : List Token) :
    ∃ ss es c, StopsAt tokens ss es c := by
  obtain ⟨k, hrounds⟩ := exists_rounds (.start tokens)
  exact ⟨_, _, _, hrounds, fun ss es d hround =>
    exists_round_iff.1 ⟨ss, es, d, hround⟩ rfl⟩

end Program

namespace Task

/-- **The calls of a program from a program are its rounds.** -/
theorem calls_program_iff {c d : Cursor} :
    Calls ⟨.program, c⟩ ⟨.program, d⟩ ↔ ∃ ss es, Program.Round c ss es d := by
  constructor
  · intro h
    cases h with
    | semicolon ht => exact ⟨_, _, .semicolon ht⟩
    | behindStatement ht hs => exact ⟨_, _, .statement ht hs⟩
    | behindFault ht he => exact ⟨_, _, .fault ht he⟩
  · rintro ⟨ss, es, h⟩
    cases h with
    | semicolon ht => exact .semicolon ht
    | statement ht hs => exact .behindStatement ht hs
    | fault ht he => exact .behindFault ht he

end Task

theorem Expr.size_read_lt (p : Precedence) {c : Cursor} (hc : c.tokens ≠ []) :
    (Expr.read p c).cursor.size < c.size := by
  match c with
  | ⟨[], k⟩ => exact absurd rfl hc
  | ⟨t :: ts, k⟩ =>
    rw [Expr.read]
    exact Nat.lt_succ_of_le (Expr.readFrom p t ⟨ts, k⟩).size_le

theorem Stmt.size_read_lt {c : Cursor} (hc : c.tokens ≠ []) :
    (Stmt.read c).cursor.size < c.size := by
  match c with
  | ⟨[], k⟩ => exact absurd rfl hc
  | ⟨t :: ts, k⟩ => exact Nat.lt_succ_of_le (Stmt.readFrom t ⟨ts, k⟩).size_le

/-- **Reading ends, because it takes tokens away.** There is no endless chain of
calls in the reader. Whether an expression, a statement, a list or a block can
be read or not, what is left is a suffix of the tokens; an expression and a
statement take at least one token if there is one. The reading of a program goes
on in rounds, each of which is a call, and adds to the result what it has read
and nothing else. The rounds stop, and where they do nothing is left, and the
result is what they have added. -/
theorem Task.readings_end :
    WellFounded (fun σ τ : Task => τ.Calls σ)
      ∧ (∀ p c, (Expr.read p c).cursor.tokens <:+ c.tokens
        ∧ (c.tokens ≠ [] → (Expr.read p c).cursor.size < c.size))
      ∧ (∀ c, (Stmt.read c).cursor.tokens <:+ c.tokens
        ∧ (c.tokens ≠ [] → (Stmt.read c).cursor.size < c.size))
      ∧ (∀ (i : Item) close n c (hc : c.size ≤ n),
        (i.readList close c hc).cursor.tokens <:+ c.tokens)
      ∧ (∀ c, (Block.read c).cursor.tokens <:+ c.tokens)
      ∧ (∀ c d, Task.Calls ⟨.program, c⟩ ⟨.program, d⟩
        ↔ ∃ ss es, Program.Round c ss es d)
      ∧ (∀ c ss es d, Program.Round c ss es d →
        Stmt.readAll c
          = (ss ++ (Stmt.readAll d).1, es ++ (Stmt.readAll d).2))
      ∧ ∀ tokens, (∃ ss es c, Program.StopsAt tokens ss es c)
        ∧ ∀ ss es c, Program.StopsAt tokens ss es c →
          c.tokens = [] ∧ Program.parseLenient tokens = (⟨ss⟩, es) :=
  ⟨wellFounded_calls,
    fun p c => ⟨Expr.suffix_read p c, Expr.size_read_lt p⟩,
    fun c => ⟨Stmt.suffix_read c, Stmt.size_read_lt⟩,
    fun i close _ => i.suffix_readList close, Block.suffix_read,
    fun _ _ => calls_program_iff, fun _ _ _ _ h => h.readAll_eq,
    fun tokens => ⟨Program.exists_stopsAt tokens, fun _ _ _ h => h.eq⟩⟩

end Monkey
