import Monkey.Proofs.Sequence
import Monkey.Proofs.Successor

/-!
# Reading goes through a semicolon

What stands behind a program and a semicolon is read as if it stood alone,
whether it is a program or not (`Program.parseLenient_semicolon`). Whatever was
left open at the end of the program – an operand that could have been gone on
with, a conditional whose alternative could have followed – is ended by the
semicolon just as by the end of the tokens; no brace of the program is open at
its end, so the reader is outside of all blocks; and since no string of the
program is open either, the scanner is between two tokens there. All that is
different is where the tokens stand.
-/

namespace Monkey

/-- **Tokens behind a body and a semicolon** are read as if they stood alone. -/
theorem Body.readAll_semicolon {ts rest : List Token} {ss : Block}
    (h : Body (ts.map Token.kind) ss) {semi : Token}
    (hsemi : semi.kind = .semicolon) :
    Stmt.readAll (.start (ts ++ semi :: rest))
      = (ss ++ (Stmt.readAll (.start rest)).1,
        (Stmt.readAll (.start rest)).2) := by
  have hends : ∀ k ∈ ((semi :: rest).map Token.kind).head?,
      k.precedence = .lowest ∧ k ≠ .kwElse := by
    rintro k ⟨⟩
    rw [hsemi]
    decide
  have hrest : Stmt.readAll ⟨semi :: rest, 0⟩ = Stmt.readAll (.start rest) :=
    Stmt.readAll_semicolon hsemi
  rw [← hrest]
  exact h.readAll_append rfl hends

/-- **Reading goes through a semicolon behind a program.** Of a program, a
semicolon and any other text, the statements read are those of the program and
then those of the other text, and the errors are those of the other text, with
their tokens moved behind the program and the semicolon. -/
theorem Program.parseLenient_semicolon {a : String} {program : Program}
    (ha : Program.parse a = .ok program) (b : String) :
    Program.parseLenient (Token.scan (a ++ ";" ++ b))
      = (⟨program.statements
          ++ (Program.parseLenient (Token.scan b)).1.statements⟩,
        (Program.parseLenient (Token.scan b)).2.map
          (ParseError.relabel (Token.shift (a.utf8ByteSize + 1)))) := by
  have hbody : Body ((Token.scan a).map Token.kind) program.statements :=
    Program.ofTokens_eq_ok_iff.1 ha
  have hsemi : (Token.semicolonAt a.utf8ByteSize).kind = .semicolon := rfl
  have hread : Stmt.readAll (.start (Token.scan (a ++ ";" ++ b)))
      = (program.statements ++ (Stmt.readAll (.start (Token.scan b))).1,
        (Stmt.readAll (.start (Token.scan b))).2.map
          (ParseError.relabel (Token.shift (a.utf8ByteSize + 1)))) := by
    rw [Token.scan_semicolon (Program.kind_ne_unclosedString ha),
      hbody.readAll_semicolon hsemi, ← Cursor.relabel_start,
      Stmt.readAll_relabel (Token.kind_shift _)]
  rw [Program.parseLenient, hread]
  rfl

/-- An alternative behind the semicolon is none: the conditional has ended, and
the error is about the token where it stands in the whole. -/
theorem Program.parseLenient_semicolon_else :
    Program.parse "if (a) \x7b 1 \x7d"
        = .ok ⟨[.expr (.cond (.ident "a") [.expr (.int 1)] none)]⟩
      ∧ Program.parseLenient
          (Token.scan ("if (a) \x7b 1 \x7d" ++ ";" ++ "else; 2"))
        = (⟨[.expr (.cond (.ident "a") [.expr (.int 1)] none),
            .expr (.int 2)]⟩, [.noOperand ⟨.kwElse, 13, 17⟩]) := by
  have ha : Program.parse "if (a) \x7b 1 \x7d"
      = .ok ⟨[.expr (.cond (.ident "a") [.expr (.int 1)] none)]⟩ := by
    decide +kernel
  have hb : Program.parseLenient (Token.scan "else; 2")
      = (⟨[.expr (.int 2)]⟩, [.noOperand ⟨.kwElse, 0, 4⟩]) := by
    decide +kernel
  refine ⟨ha, ?_⟩
  rw [Program.parseLenient_semicolon ha, hb]
  rfl

end Monkey
