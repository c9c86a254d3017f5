import Monkey.Program.Read
import Monkey.Token.Scan

/-!
# Reading programs

A program is read statement by statement. A statement that cannot be read does
not end the reading: its error is noted, the tokens up to the end of the
statement are passed over, and reading goes on behind them. So one pass reports
every faulty statement of a source and keeps the others.

Where a faulty statement ends is a question of nesting. The tokens behind a
fault may still belong to blocks that the statement has opened, and a semicolon
within such a block ends nothing. `skipStatement` therefore counts braces,
beginning with the blocks left open, and stops behind the first semicolon
outside all of them. A closing brace too many leaves the count below zero,
which is outside of all blocks as well.
-/

namespace Monkey

/-- The tokens behind the end of a faulty statement, `depth` blocks deep. -/
def skipStatement (depth : Int) : List Token → List Token
  | [] => []
  | t :: ts =>
    match t.kind with
    | .leftBrace => skipStatement (depth + 1) ts
    | .rightBrace => skipStatement (depth - 1) ts
    | .semicolon => if depth ≤ 0 then ts else skipStatement depth ts
    | _ => skipStatement depth ts

theorem length_skipStatement_le (depth : Int) (ts : List Token) :
    (skipStatement depth ts).length ≤ ts.length := by
  induction ts generalizing depth with
  | nil => exact Nat.le_refl _
  | cons t ts ih =>
    rw [skipStatement]
    split
    · exact Nat.le_succ_of_le (ih _)
    · exact Nat.le_succ_of_le (ih _)
    · split
      · exact Nat.le_succ _
      · exact Nat.le_succ_of_le (ih _)
    · exact Nat.le_succ_of_le (ih _)

/-- **Passes over a faulty statement**, from where its fault was met. No block
is open behind it. -/
def Cursor.recover (c : Cursor) : Cursor :=
  ⟨skipStatement c.nesting c.tokens, 0⟩

theorem Cursor.size_recover_le (c : Cursor) : c.recover.size ≤ c.size :=
  length_skipStatement_le _ _

/-- The statements that can be read from a cursor on, and the errors of those
that cannot, both in order. -/
def Stmt.readAll (c : Cursor) : List Stmt × List ParseError :=
  match c with
  | ⟨[], _⟩ => ([], [])
  | ⟨t :: ts, k⟩ =>
    if t.kind = .semicolon then Stmt.readAll ⟨ts, k⟩
    else
      match Stmt.readFrom t ⟨ts, k⟩ with
      | ⟨.ok s, c', _⟩ =>
        let (ss, es) := Stmt.readAll c'
        (s :: ss, es)
      | ⟨.error e, c', _⟩ =>
        let (ss, es) := Stmt.readAll c'.recover
        (ss, e :: es)
termination_by c.size
decreasing_by
  · exact Nat.lt_succ_self _
  · rename_i h
    exact Nat.lt_succ_of_le h
  · rename_i h
    exact Nat.lt_succ_of_le (Nat.le_trans (Cursor.size_recover_le c') h)

namespace Program

/-- **Reads what can be read of a program**: the statements without a fault,
and the errors of the others. -/
def parseLenient (tokens : List Token) : Program × List ParseError :=
  let (statements, errors) := Stmt.readAll (.start tokens)
  (⟨statements⟩, errors)

/-- The program a token list is, or all its errors. -/
def ofTokens (tokens : List Token) : Except (List ParseError) Program :=
  match parseLenient tokens with
  | (program, []) => .ok program
  | (_, errors) => .error errors

/-- **The program a source is**, or all its errors. -/
def parse (source : String) : Except (List ParseError) Program :=
  ofTokens (Token.scan source)

end Program

end Monkey
