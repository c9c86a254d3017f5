import Monkey.Proofs.Recognition
import Monkey.Proofs.Recovery

/-!
# Every token is accounted for

Reading a token list cuts it into *pieces*: the semicolons between statements,
the statements, and the faults. A fault takes the tokens that have been read of
the statement and those passed over behind them, up to and including the
semicolon that ends it.

The pieces do not depend on each other. A statement ends where its tokens end,
whatever stands behind it, since it is a phrase of the grammar; a fault is met
at a token that has been read, and passing over the tokens behind it looks at
no token beyond the semicolon. So a piece read by itself gives what it gives
within the whole, and what the whole gives is what its pieces give, one after
the other (`Program.accounts_for_tokens`).
-/

namespace Monkey

open Token (Kind)
open Reading

/-! ## The tokens passed over -/

/-- The tokens passed over behind a fault. -/
def Fault.passed (f : Fault) : List Token :=
  f.behind.take (f.behind.length - f.resumed.length)

/-- **All tokens of a faulty statement**: those read and those passed over. -/
def Fault.tokens (f : Fault) : List Token :=
  f.read ++ f.passed

theorem Fault.passed_stopped {tokens passed : List Token} {c : Cursor}
    (h : c.tokens = passed ++ c.recover.tokens) (e : ParseError) :
    (Fault.stopped tokens e c).passed = passed := by
  show c.tokens.take (c.tokens.length - c.recover.tokens.length) = passed
  rw [congrArg List.length h, List.length_append, Nat.add_sub_cancel, h,
    List.take_left]

/-- **What is passed over decides where it ends**: the same tokens are passed
over if nothing stands behind them, and they end with a semicolon, unless they
are all there are. -/
theorem exists_passed (depth : Int) (ts : List Token) :
    ∃ passed, ts = passed ++ skipStatement depth ts
      ∧ skipStatement depth passed = []
      ∧ (skipStatement depth ts = []
        ∨ ∃ semi ∈ passed.getLast?, semi.kind = .semicolon) := by
  induction ts generalizing depth with
  | nil => exact ⟨[], rfl, rfl, .inl rfl⟩
  | cons t ts ih =>
    by_cases hends : t.kind = .semicolon ∧ depth ≤ 0
    · refine ⟨[t], ?_, ?_, .inr ⟨t, rfl, hends.1⟩⟩
      · rw [skipStatement_cons, if_pos hends]
        rfl
      · rw [skipStatement_cons, if_pos hends]
    · obtain ⟨passed, hsplit, hnil, hlast⟩ := ih (depth + t.kind.brace)
      have hcons (us : List Token) : skipStatement depth (t :: us)
          = skipStatement (depth + t.kind.brace) us := by
        rw [skipStatement_cons, if_neg hends]
      refine ⟨t :: passed, ?_, ?_, ?_⟩
      · rw [hcons, List.cons_append, ← hsplit]
      · rw [hcons, hnil]
      · rw [hcons]
        refine hlast.imp_right ?_
        rintro ⟨semi, hsemi, hkind⟩
        exact ⟨semi, by simp [List.getLast?_cons, Option.mem_def.1 hsemi], hkind⟩

section

variable {t : Token} {ts : List Token} {e : ParseError} {d : Cursor}

/-- **A faulty statement is met alike if nothing stands behind its tokens.** -/
theorem Stmt.fails_passed (h : (Stmt.readFrom t ⟨ts, 0⟩).Fails e d)
    {passed : List Token} (hpassed : d.tokens = passed ++ d.recover.tokens) :
    ∃ us, t :: us = (Fault.stopped (t :: ts) e d).read ++ passed
      ∧ t :: ts = t :: us ++ d.recover.tokens
      ∧ (Stmt.readFrom t ⟨us, 0⟩).Fails e ⟨passed, d.nesting⟩ := by
  obtain ⟨-, hsplit⟩ | ⟨hend, vs, x, -, hsplit, -⟩ := Stmt.breaksOff h
  · -- at the end of the tokens nothing is left to pass over
    have hnil : d.tokens = [] := List.self_eq_append_right.1 hsplit
    obtain ⟨rfl, hrecover⟩ := List.append_eq_nil_iff.1 (hpassed.symm.trans hnil)
    refine ⟨ts, ?_, by rw [hrecover, List.append_nil], ?_⟩
    · rw [Fault.read_stopped hsplit, List.append_nil]
    · obtain ⟨tokens, nesting⟩ := d
      obtain rfl : tokens = [] := hnil
      exact h
  · obtain ⟨us, hus, hfails⟩ := Stmt.fails_behind h hend hsplit passed
    refine ⟨us, ?_, ?_, hfails⟩
    · rw [Fault.read_stopped hsplit, hus]
    · rw [hus, List.append_assoc, ← hpassed, hsplit]

/-- **A fault is read by itself as that fault**: no statement and its error. -/
theorem Stmt.readAll_tokens_stopped (ht : t.kind ≠ .semicolon)
    (h : (Stmt.readFrom t ⟨ts, 0⟩).Fails e d) :
    (Fault.stopped (t :: ts) e d).tokens ≠ []
      ∧ (Fault.stopped (t :: ts) e d).tokens ++ d.recover.tokens = t :: ts
      ∧ Stmt.readAll (.start (Fault.stopped (t :: ts) e d).tokens) = ([], [e])
      ∧ (d.recover.tokens = []
        ∨ ∃ semi ∈ (Fault.stopped (t :: ts) e d).tokens.getLast?,
          semi.kind = .semicolon) := by
  obtain ⟨passed, hpassed, hnil, hlast⟩ := exists_passed d.nesting d.tokens
  obtain ⟨us, hus, hsplit, hfails⟩ := Stmt.fails_passed h hpassed
  have htokens : (Fault.stopped (t :: ts) e d).tokens = t :: us := by
    rw [Fault.tokens, Fault.passed_stopped hpassed, hus]
  refine ⟨by simp [htokens], by rw [htokens, hsplit], ?_, ?_⟩
  · have hrecover : (Cursor.mk passed d.nesting).recover = .start [] :=
      congrArg Cursor.start hnil
    rw [htokens]
    refine (Stmt.readAll_fault ht hfails).trans ?_
    rw [hrecover, Cursor.start, Stmt.readAll_nil]
  · refine hlast.imp_right ?_
    rintro ⟨semi, hsemi, hkind⟩
    refine ⟨semi, ?_, hkind⟩
    rw [Fault.tokens, Fault.passed_stopped hpassed, List.getLast?_append,
      Option.mem_def.1 hsemi]
    rfl

end

/-! ## Pieces -/

/-- **A piece of a token list.** -/
inductive Piece where
  /-- A semicolon between statements. -/
  | semicolon (t : Token)
  /-- The tokens of a statement, and the statement. -/
  | statement (tokens : List Token) (s : Stmt)
  /-- A statement that could not be read. -/
  | fault (f : Fault)

namespace Piece

/-- The tokens of a piece. -/
def tokens : Piece → List Token
  | semicolon t => [t]
  | statement ts _ => ts
  | fault f => f.tokens

/-- The statement that a piece is. -/
def stmt? : Piece → Option Stmt
  | statement _ s => some s
  | _ => none

/-- The fault that a piece is. -/
def fault? : Piece → Option Fault
  | fault f => some f
  | _ => none

/-- The error of a piece. -/
def error? (p : Piece) : Option ParseError :=
  p.fault?.map Fault.error

/-- **The piece by itself is read as what it is**: a semicolon is one, a
statement gives itself and no error, a fault gives its error and no statement. -/
def ReadAlone : Piece → Prop
  | semicolon t => t.kind = .semicolon
  | statement ts s => Program.parseLenient ts = (⟨[s]⟩, [])
  | fault f => Program.parseLenient f.tokens = (⟨[]⟩, [f.error])

end Piece

/-- **The pieces account for the token list.** -/
structure Accounts (tokens : List Token) (pieces : List Piece) : Prop where
  /-- The pieces follow each other, and leave out no token. -/
  joined : pieces.flatMap Piece.tokens = tokens
  nonempty : ∀ p ∈ pieces, p.tokens ≠ []
  alone : ∀ p ∈ pieces, p.ReadAlone
  /-- The statements read are those of the pieces, in order. -/
  statements : (Program.parseLenient tokens).1.statements
    = pieces.filterMap Piece.stmt?
  /-- The faults met are those of the pieces, in order, with the tokens that are
  passed over behind each. -/
  faults : Stmt.faults (.start tokens) = pieces.filterMap Piece.fault?
  /-- The errors noted are those of the pieces, in order. -/
  errors : (Program.parseLenient tokens).2 = pieces.filterMap Piece.error?
  /-- A fault ends with a semicolon or is the last piece. -/
  ends : ∀ front f rest, pieces = front ++ .fault f :: rest →
    rest = [] ∨ ∃ semi ∈ f.tokens.getLast?, semi.kind = .semicolon

namespace Accounts

theorem nil : Accounts [] [] where
  joined := rfl
  nonempty := by simp
  alone := by simp
  statements := by
    show (Stmt.readAll (.start [])).1 = []
    rw [Cursor.start, Stmt.readAll_nil]
  faults := by
    rw [Cursor.start, Stmt.faults]
    rfl
  errors := by
    show (Stmt.readAll (.start [])).2 = []
    rw [Cursor.start, Stmt.readAll_nil]
  ends := by simp

theorem eq_nil {pieces : List Piece} (h : Accounts [] pieces) :
    pieces = [] := by
  cases pieces with
  | nil => rfl
  | cons p pieces =>
    have hp : p.tokens = [] := (List.append_eq_nil_iff.1 h.joined).1
    exact absurd hp (h.nonempty p List.mem_cons_self)

/-- **One piece more**, if the reader takes it as such. -/
theorem cons {rest : List Token} {pieces : List Piece}
    (h : Accounts rest pieces) (p : Piece) (hnonempty : p.tokens ≠ [])
    (halone : p.ReadAlone)
    (hread : Stmt.readAll (.start (p.tokens ++ rest))
      = (p.stmt?.toList ++ (Stmt.readAll (.start rest)).1,
        p.error?.toList ++ (Stmt.readAll (.start rest)).2))
    (hfaults : Stmt.faults (.start (p.tokens ++ rest))
      = p.fault?.toList ++ Stmt.faults (.start rest))
    (hends : ∀ f, p = .fault f →
      rest = [] ∨ ∃ semi ∈ f.tokens.getLast?, semi.kind = .semicolon) :
    Accounts (p.tokens ++ rest) (p :: pieces) where
  joined := by rw [List.flatMap_cons, h.joined]
  nonempty := List.forall_mem_cons.2 ⟨hnonempty, h.nonempty⟩
  alone := List.forall_mem_cons.2 ⟨halone, h.alone⟩
  statements := by
    have hrest : (Stmt.readAll (.start rest)).1 = _ := h.statements
    show (Stmt.readAll (.start (p.tokens ++ rest))).1 = _
    rw [hread, hrest]
    cases p <;> rfl
  faults := by
    rw [hfaults, h.faults]
    cases p <;> rfl
  errors := by
    have hrest : (Stmt.readAll (.start rest)).2 = _ := h.errors
    show (Stmt.readAll (.start (p.tokens ++ rest))).2 = _
    rw [hread, hrest]
    cases p <;> rfl
  ends := by
    intro front f behind hsplit
    cases front with
    | nil =>
      obtain ⟨hp, rfl⟩ := List.cons.inj hsplit
      refine (hends f hp).imp_left ?_
      rintro rfl
      exact h.eq_nil
    | cons q front =>
      obtain ⟨-, hpieces⟩ := List.cons.inj hsplit
      exact h.ends front f behind hpieces

/-- **Pieces are at least as many as what they hold**, and tokens at least as
many as pieces. -/
theorem length_le {tokens : List Token} {pieces : List Piece}
    (h : Accounts tokens pieces) :
    (pieces.filterMap Piece.stmt?).length
      + (pieces.filterMap Piece.error?).length ≤ tokens.length := by
  have hnonempty := h.nonempty
  rw [← h.joined]
  clear h
  induction pieces with
  | nil => exact Nat.le_refl _
  | cons p pieces ih =>
    obtain ⟨hp, hpieces⟩ := List.forall_mem_cons.1 hnonempty
    have hpos := List.length_pos_iff.2 hp
    have hle := ih hpieces
    rw [List.flatMap_cons, List.length_append]
    cases p with
    | semicolon t => exact Nat.le_trans hle (Nat.le_add_left _ _)
    | statement ts s =>
      show ((pieces.filterMap Piece.stmt?).length + 1)
        + (pieces.filterMap Piece.error?).length ≤ _
      omega
    | fault f =>
      show (pieces.filterMap Piece.stmt?).length
        + ((pieces.filterMap Piece.error?).length + 1) ≤ _
      omega

end Accounts

/-! ## The reader takes a token list in pieces -/

/-- **A statement by itself**: nothing behind it is needed to end it. -/
theorem Stmt.Derives.parseLenient {ts : List Token} {s : Stmt}
    (h : Stmt.Derives (ts.map Token.kind) s) :
    Program.parseLenient ts = (⟨[s]⟩, []) := by
  have hbody : Body (ts.map Token.kind ++ []) [s] :=
    .cons h (by simp [Apart]) .nil
  rw [List.append_nil] at hbody
  have hread : Stmt.readAll (.start ts) = ([s], []) := hbody.readAll rfl
  rw [Program.parseLenient, hread]

/-- **The pieces of a token list**, found statement by statement. No block is
open where a piece begins: a statement closes what it opens, and behind a fault
the count begins anew. -/
theorem Stmt.exists_accounts {c : Cursor} (hc : c.nesting = 0) :
    ∃ pieces, Accounts c.tokens pieces := by
  induction c using Stmt.inductionOnStatements with
  | nil k => exact ⟨[], .nil⟩
  | @semicolon t ts k ht ih =>
    obtain ⟨pieces, h⟩ := ih hc
    refine ⟨_, h.cons (.semicolon t) (by simp [Piece.tokens]) ht ?_ ?_ ?_⟩
    · exact Stmt.readAll_semicolon ht
    · exact Stmt.faults_semicolon ht
    · rintro f ⟨⟩
  | @statement t ts k s d ht hs ih =>
    obtain ⟨us, hus, hderives, -⟩ :=
      Stmt.derives_of_readFrom (Expr.derivedBelow _) (Nat.lt_succ_self _) hs
    obtain ⟨rest, m⟩ := d
    obtain ⟨rfl, rfl⟩ := Cursor.mk.inj hus
    obtain rfl : k = 0 := hc
    obtain ⟨pieces, h⟩ := ih rfl
    refine ⟨_, h.cons (.statement (t :: us) s) (by simp [Piece.tokens])
      hderives.parseLenient ?_ ?_ ?_⟩
    · exact Stmt.readAll_statement ht hs
    · exact Stmt.faults_statement ht hs
    · rintro f ⟨⟩
  | @fault t ts k e d ht he ih =>
    obtain rfl : k = 0 := hc
    obtain ⟨pieces, h⟩ := ih rfl
    obtain ⟨hne, hjoined, halone, hends⟩ := Stmt.readAll_tokens_stopped ht he
    have hcons : Accounts
        ((Fault.stopped (t :: ts) e d).tokens ++ d.recover.tokens)
        (.fault (.stopped (t :: ts) e d) :: pieces) := by
      refine h.cons (.fault (.stopped (t :: ts) e d)) hne ?_ ?_ ?_ ?_
      · show Program.parseLenient _ = _
        rw [Program.parseLenient, halone]
        rfl
      · show Stmt.readAll (.start
          ((Fault.stopped (t :: ts) e d).tokens ++ d.recover.tokens)) = _
        rw [hjoined]
        exact Stmt.readAll_fault ht he
      · show Stmt.faults (.start
          ((Fault.stopped (t :: ts) e d).tokens ++ d.recover.tokens)) = _
        rw [hjoined]
        exact Stmt.faults_fault ht he
      · rintro f ⟨⟩
        exact hends
    rw [hjoined] at hcons
    exact ⟨_, hcons⟩

/-- **Reading accounts for every token.** A token list is cut into pieces that
follow each other: semicolons, statements and faults. Each piece read by itself
gives what it is; the whole gives the statements and the errors of its pieces,
in order; a fault ends with a semicolon or with the tokens. So what is passed
over behind a fault is part of no statement, and there are at most as many
statements and errors as tokens. -/
theorem Program.accounts_for_tokens (tokens : List Token) :
    (∃ pieces, Accounts tokens pieces)
      ∧ (Program.parseLenient tokens).1.statements.length
        + (Program.parseLenient tokens).2.length ≤ tokens.length := by
  obtain ⟨pieces, h⟩ : ∃ pieces, Accounts tokens pieces :=
    Stmt.exists_accounts (c := .start tokens) rfl
  refine ⟨⟨pieces, h⟩, ?_⟩
  rw [h.statements, h.errors]
  exact h.length_le

end Monkey
