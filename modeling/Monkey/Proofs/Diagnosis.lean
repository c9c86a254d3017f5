import Monkey.Proofs.Partition
import Monkey.Proofs.Recovery

/-!
# What errors say about a source

Every error but the end of the tokens is met at a token that the error is about
(`ParseError.About`), and reading goes on behind that token. So the errors of a
token list go with some of its tokens, one for one and in the same order
(`Stmt.errors_about`); and where the end of the tokens is met, nothing is left
to go on with.

Whatever is to be said of the errors follows from that: a token that an error
carries is one of the source, and is none that would have done; errors are
reported in the order of their positions; and the end is reported once, as the
last (`Program.errors_truthful`).
-/

namespace Monkey

open Token (Kind)
open Reading

/-! ## Errors go with tokens -/

/-- **The errors of a token list go with some of its tokens**, each with the
token that it is about. There may be one error more, that the tokens end. -/
theorem Stmt.errors_about {c : Cursor} (hc : c.nesting = 0) :
    ∃ es ts, List.Forall₂ ParseError.About es ts ∧ ts.Sublist c.tokens
      ∧ ((Stmt.readAll c).2 = es
        ∨ ∃ x, (Stmt.readAll c).2 = es ++ [.unexpectedEnd x]) := by
  induction c using Stmt.inductionOnStatements with
  | nil k =>
    refine ⟨[], [], .nil, List.nil_sublist _, .inl ?_⟩
    rw [Stmt.readAll_nil]
  | @semicolon t ts k ht ih =>
    obtain ⟨es, us, habout, hsub, herrors⟩ := ih hc
    rw [Stmt.readAll_semicolon ht]
    exact ⟨es, us, habout, hsub.cons t, herrors⟩
  | @statement t ts k s d ht hs ih =>
    obtain ⟨vs, hvs, -⟩ :=
      Stmt.derives_of_readFrom (Expr.derivedBelow _) (Nat.lt_succ_self _) hs
    obtain ⟨hsplit, rfl⟩ := Cursor.mk.inj hvs
    obtain ⟨es, us, habout, hsub, herrors⟩ := ih hc
    rw [Stmt.readAll_statement ht hs]
    refine ⟨es, us, habout, hsub.trans ?_, herrors⟩
    show d.tokens.Sublist (t :: ts)
    rw [hsplit]
    exact List.sublist_append_right (t :: vs) d.tokens
  | @fault t ts k e d ht he ih =>
    obtain rfl : k = 0 := hc
    rw [Stmt.readAll_fault ht he]
    obtain ⟨hend, hsplit⟩ | ⟨-, us, x, -, hsplit, hx, -⟩ := Stmt.breaksOff he
    · -- no token is left, and so no error behind this one
      have hnil : d.tokens = [] := List.self_eq_append_right.1 hsplit
      have hrecover : d.recover = ⟨[], 0⟩ := by
        rw [Cursor.recover, hnil, skipStatement]
      rw [hrecover, Stmt.readAll_nil]
      refine ⟨[], [], .nil, List.nil_sublist _, .inr ?_⟩
      cases e with
      | unexpectedEnd x => exact ⟨x, rfl⟩
      | _ => cases hend
    · obtain ⟨es, vs, habout, hsub, herrors⟩ := ih rfl
      refine ⟨e :: es, x :: vs, .cons hx habout, ?_, ?_⟩
      · have hrest : (x :: vs).Sublist ([x] ++ d.tokens) :=
          (hsub.trans (skipStatement_suffix _ _).sublist).cons_cons x
        show (x :: vs).Sublist (t :: ts)
        rw [hsplit, List.append_assoc]
        exact hrest.trans (List.sublist_append_right us _)
      · obtain herrors | ⟨y, herrors⟩ := herrors
        · exact .inl (congrArg (e :: ·) herrors)
        · exact .inr ⟨y, congrArg (e :: ·) herrors⟩

/-- The tokens of a source begin one behind the other. -/
theorem Token.pairwise_start_scan (source : String) :
    (Token.scan source).Pairwise fun t u => t.start < u.start := by
  have hcover := Token.cover_scanFrom 0 source.toList
  refine hcover.pairwise.imp_of_mem fun {t u} ht _ hle => ?_
  obtain ⟨before, text, after, -, hstart, hstop, hspell, -⟩ := hcover.split ht
  have hpos := Text.byteSize_pos hspell.ne_nil
  omega

/-! ## What is reported -/

/-- **The errors are true of the tokens**, and in their order. -/
structure ParseError.Truthful (tokens : List Token)
    (errors : List ParseError) : Prop where
  /-- Positions, where errors have them, increase. -/
  ordered : (errors.filterMap ParseError.position?).Pairwise (· < ·)
  /-- A token that an error carries is one of the tokens, and the error is
  reported where it begins. -/
  carried : ∀ e ∈ errors, ∀ t, e.token? = some t →
    t ∈ tokens ∧ e.position? = some t.start
  /-- What stands where something is asked for is not what is asked for. -/
  unfit : ∀ expected got, .unexpectedToken expected got ∈ errors →
    ¬ expected.Accepts got.kind
  /-- An error that is not about the end is about one of the tokens. -/
  about : ∀ e ∈ errors, ¬ e.isEnd → ∃ t ∈ tokens, e.About t
  /-- No error is behind the end. -/
  last : ∀ front e rest, errors = front ++ e :: rest → e.isEnd → rest = []
  /-- The end is met at most once. -/
  once : errors.countP ParseError.isEnd ≤ 1

namespace ParseError

variable {es : List ParseError} {ts : List Token}

/-- An error about a token is not that the tokens end. -/
theorem About.not_isEnd {e : ParseError} {t : Token} (h : e.About t) :
    ¬ e.isEnd := by
  cases e with
  | unexpectedEnd _ => exact h.elim
  | _ => exact Bool.false_ne_true

theorem exists_about (h : List.Forall₂ About es ts) {e : ParseError}
    (he : e ∈ es) : ∃ t ∈ ts, e.About t := by
  induction h with
  | nil => cases he
  | @cons e' t es ts ht _ ih =>
    obtain rfl | he := List.mem_cons.1 he
    · exact ⟨t, List.mem_cons_self, ht⟩
    · obtain ⟨u, hu, habout⟩ := ih he
      exact ⟨u, List.mem_cons_of_mem t hu, habout⟩

/-- **The positions of errors about tokens** are among the beginnings of the
tokens, in the same order. -/
theorem positions_sublist (h : List.Forall₂ About es ts) :
    (es.filterMap position?).Sublist (ts.map Token.start) := by
  induction h with
  | nil => exact .slnil
  | @cons e t es ts he _ ih =>
    rw [List.filterMap_cons, List.map_cons]
    cases htoken : e.token? with
    | none =>
      rw [position?, htoken]
      exact ih.cons _
    | some u =>
      obtain rfl := he.eq_of_token? htoken
      rw [position?, htoken]
      exact ih.cons_cons _

/-- **Errors that go with tokens are true of them**, also with the end of the
tokens as one error more. -/
theorem truthful_of_about (h : List.Forall₂ About es ts)
    {tokens : List Token} (hsub : ts.Sublist tokens)
    (hsorted : tokens.Pairwise fun t u => t.start < u.start)
    {errors : List ParseError}
    (herrors : errors = es ∨ ∃ x, errors = es ++ [.unexpectedEnd x]) :
    Truthful tokens errors := by
  have hnone (e : ParseError) (he : e ∈ es) : ¬ e.isEnd := by
    obtain ⟨t, -, ht⟩ := exists_about h he
    exact ht.not_isEnd
  -- every error goes with a token, or is the one that the tokens end
  have hmem (e : ParseError) (he : e ∈ errors) :
      (∃ t ∈ tokens, e.About t) ∨ ∃ x, e = .unexpectedEnd x := by
    have hes (he : e ∈ es) : ∃ t ∈ tokens, e.About t := by
      obtain ⟨t, ht, habout⟩ := exists_about h he
      exact ⟨t, hsub.subset ht, habout⟩
    obtain rfl | ⟨x, rfl⟩ := herrors
    · exact .inl (hes he)
    · obtain he | he := List.mem_append.1 he
      · exact .inl (hes he)
      · exact .inr ⟨x, List.mem_singleton.1 he⟩
  constructor
  case ordered =>
    have hpositions : errors.filterMap position? = es.filterMap position? := by
      obtain rfl | ⟨x, rfl⟩ := herrors
      · rfl
      · rw [List.filterMap_append]
        exact List.append_nil _
    rw [hpositions]
    exact (List.pairwise_map.2 (hsorted.sublist hsub)).sublist
      (positions_sublist h)
  case carried =>
    intro e he t ht
    refine ⟨?_, by rw [position?, ht]; rfl⟩
    obtain ⟨u, hu, habout⟩ | ⟨x, rfl⟩ := hmem e he
    · rw [← habout.eq_of_token? ht]
      exact hu
    · cases ht
  case unfit =>
    intro expected got he
    obtain ⟨t, -, rfl, hunfit⟩ | ⟨x, hx⟩ := hmem _ he
    · exact hunfit
    · cases hx
  case about =>
    intro e he hend
    obtain habout | ⟨x, rfl⟩ := hmem e he
    · exact habout
    · exact absurd rfl hend
  case last =>
    intro front e rest hsplit hend
    obtain rfl | ⟨x, rfl⟩ := herrors
    · rw [hsplit] at hnone
      exact absurd hend (hnone e (by simp))
    · obtain rfl | ⟨rest, y, rfl⟩ := rest.eq_nil_or_concat
      · rfl
      · rw [List.concat_eq_append, ← List.cons_append,
          ← List.append_assoc] at hsplit
        obtain ⟨rfl, -⟩ := List.append_inj' hsplit rfl
        exact absurd hend (hnone e (by simp))
  case once =>
    have hes : es.countP isEnd = 0 := List.countP_eq_zero.2 hnone
    obtain rfl | ⟨x, rfl⟩ := herrors
    · rw [hes]
      exact Nat.zero_le 1
    · rw [List.countP_append, hes]
      exact Nat.le_refl 1

end ParseError

/-- **Errors are reported in order, and they are true.** The positions of the
errors of a source increase. A token that an error carries is one of the tokens
of the source, with its span, and the position of the error is where the token
begins; it is not what the error says was asked for. All other errors are about
tokens of the source as well, except that the tokens end; this is reported at
most once, and only as the last error. -/
theorem Program.errors_truthful (source : String) :
    ParseError.Truthful (Token.scan source)
      (Program.parseLenient (Token.scan source)).2 := by
  obtain ⟨es, ts, habout, hsub, herrors⟩ :=
    Stmt.errors_about (c := .start (Token.scan source)) rfl
  exact ParseError.truthful_of_about habout hsub
    (Token.pairwise_start_scan source) herrors

end Monkey
