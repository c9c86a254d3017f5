import Monkey.Proofs.Completion
import Monkey.Proofs.Recovery
import Monkey.Proofs.Sequence

/-!
# What can still become a program

The first error of a source says whether the source can be gone on with. If it
is that the tokens end, then what has been read is the beginning of a program,
and some text behind the source completes it. If it is about a token, then what
has been read up to that token is the beginning of no program: the error is met
again whatever stands behind the token, since reading decides by tokens that it
has read (`Program.first_error_decides`).

There is one exception, and it is one of the scanner. A string without its
closing quote is a token that is none, so the error is about the token; but a
text behind it can close the string and make another token of it.
-/

namespace Monkey

open Token (Kind)
open Reading

/-! ## The end of the tokens -/

/-- **What is read before the tokens end is the beginning of a body**, if no
other error is met before. -/
theorem Body.begun_of_faults {c : Cursor} {f : Fault}
    (hf : (Stmt.faults c).head? = some f) (hend : f.error.isEnd) :
    ∃ bs, Body.Begun (c.tokens.map Token.kind) bs := by
  induction c using Stmt.inductionOnStatements with
  | nil k =>
    rw [Stmt.faults] at hf
    cases hf
  | @semicolon t ts k ht ih =>
    rw [Stmt.faults_semicolon ht] at hf
    obtain ⟨bs, hbegun⟩ := ih hf
    refine ⟨bs, ?_⟩
    rw [List.map_cons, ht]
    exact .semicolon hbegun
  | @statement t ts k s d ht hs ih =>
    rw [Stmt.faults_statement ht hs] at hf
    obtain ⟨bs, hbegun⟩ := ih hf
    obtain ⟨us, hus, hderives, hstops⟩ :=
      Stmt.derives_of_readFrom (Expr.derivedBelow _) (Nat.lt_succ_self _) hs
    obtain ⟨rfl, -⟩ := Cursor.mk.inj hus
    have hapart : Apart (d.tokens.map Token.kind) :=
      hstops.apart (List.append_nil _).symm
    refine ⟨bs, ?_⟩
    show Body.Begun ((t :: us ++ d.tokens).map Token.kind) bs
    rw [List.map_append]
    exact .cons hderives hapart hbegun
  | @fault t ts k e d ht he ih =>
    rw [Stmt.faults_fault ht he] at hf
    obtain rfl := Option.some.inj hf
    obtain ⟨us, bs, hbegun, hbreaks⟩ := Stmt.begun_of_readFrom he
    generalize hc : (Cursor.mk ts k).before [t] = c at hbreaks
    cases hbreaks with
    | atEnd =>
      obtain ⟨rfl, -⟩ := Cursor.mk.inj hc
      exact ⟨bs, .stmt hbegun⟩
    | atToken habout =>
      cases e <;> first | exact habout.elim | cases hend

/-- **The beginning of a program can be completed** by a text behind it. -/
theorem Program.exists_completion {source : String} {bs : List Brace}
    (h : Body.Begun ((Token.scan source).map Token.kind) bs) :
    ∃ c program, Program.parse (source ++ " " ++ c) = .ok program := by
  obtain ⟨us, ss, hus, hbody⟩ := h.completable
  obtain ⟨c, hc⟩ := exists_text hus
  have hclosed : ∀ t ∈ Token.scan source, t.kind ≠ .unclosedString := by
    intro t ht hkind
    have hlegal := List.all_eq_true.1 hbody.all_isLegal t.kind
      (List.mem_append_left us (List.mem_map_of_mem ht))
    rw [hkind] at hlegal
    cases hlegal
  have hkinds : (Token.scan (source ++ " " ++ c)).map Token.kind
      = (Token.scan source).map Token.kind ++ us := by
    rw [Token.scan_space hclosed, List.map_append, List.map_map, ← hc]
    rfl
  refine ⟨c, ⟨ss⟩, Program.ofTokens_eq_ok_iff.2 ?_⟩
  rw [hkinds]
  exact hbody

/-! ## A token that does not fit -/

/-- **The first fault is met whatever stands behind the token it is met at.**
The statements before it end before that token, so they end alike. -/
theorem Stmt.readAll_of_faults {c : Cursor} (hc : c.nesting = 0) {f : Fault}
    (hf : (Stmt.faults c).head? = some f) (hend : ¬ f.error.isEnd) :
    ∃ front u behind, c.tokens = front ++ u :: behind
      ∧ f.read.getLast? = some u
      ∧ ∀ rest, (Stmt.readAll (.start (front ++ u :: rest))).2.head?
        = some f.error := by
  induction c using Stmt.inductionOnStatements with
  | nil k =>
    rw [Stmt.faults] at hf
    cases hf
  | @semicolon t ts k ht ih =>
    rw [Stmt.faults_semicolon ht] at hf
    obtain ⟨front, u, behind, htokens, hlast, hread⟩ := ih hc hf
    refine ⟨t :: front, u, behind, congrArg (t :: ·) htokens, hlast, ?_⟩
    intro rest
    rw [← hread rest]
    exact congrArg (·.2.head?) (Stmt.readAll_semicolon ht)
  | @statement t ts k s d ht hs ih =>
    rw [Stmt.faults_statement ht hs] at hf
    obtain ⟨us, hus, -, -⟩ :=
      Stmt.derives_of_readFrom (Expr.derivedBelow _) (Nat.lt_succ_self _) hs
    obtain ⟨tokens, m⟩ := d
    obtain ⟨rfl, rfl⟩ := Cursor.mk.inj hus
    obtain rfl : k = 0 := hc
    obtain ⟨front, u, behind, rfl, hlast, hread⟩ := ih rfl hf
    refine ⟨t :: us ++ front, u, behind, ?_, hlast, ?_⟩
    · exact (List.append_assoc (t :: us) front (u :: behind)).symm
    · intro rest
      -- the statement stops before a token of what is kept
      rw [List.append_cons front, ← List.append_assoc us] at hs
      have hgives := Stmt.gives_replace hs (by simp) rest
      rw [List.append_assoc us, ← List.append_cons front] at hgives
      rw [← hread rest, List.append_assoc]
      exact congrArg (·.2.head?) (Stmt.readAll_statement ht hgives)
  | @fault t ts k e d ht he ih =>
    obtain rfl : k = 0 := hc
    rw [Stmt.faults_fault ht he] at hf
    obtain rfl := Option.some.inj hf
    obtain ⟨hend', -⟩ | ⟨-, us, x, opened, hsplit, -⟩ := Stmt.breaksOff he
    · exact absurd hend' hend
    · refine ⟨us, x, d.tokens, ?_, ?_, ?_⟩
      · rw [hsplit, List.append_assoc]
        rfl
      · rw [Fault.read_stopped hsplit, List.getLast?_append]
        rfl
      · intro rest
        obtain ⟨ts', hts', hfails⟩ := Stmt.fails_behind he hend hsplit rest
        have htokens : us ++ x :: rest = t :: ts' := by
          rw [hts', List.append_assoc]
          rfl
        rw [htokens]
        exact congrArg (·.2.head?) (Stmt.readAll_fault ht hfails)

/-- A source with an error is no program, and its errors begin with that one. -/
theorem Program.parse_eq_error {source : String} {e : ParseError}
    (h : (Program.parseLenient (Token.scan source)).2.head? = some e) :
    ∃ es, Program.parse source = .error (e :: es) := by
  unfold Program.parse Program.ofTokens
  generalize Program.parseLenient (Token.scan source) = r at h
  obtain ⟨program, errors⟩ := r
  cases errors with
  | nil => cases h
  | cons e' es =>
    obtain rfl := Option.some.inj h
    exact ⟨es, rfl⟩

/-- The first error is that of the first fault. -/
theorem Program.exists_fault {source : String} {e : ParseError}
    (h : (Program.parseLenient (Token.scan source)).2.head? = some e) :
    ∃ f, (Stmt.faults (.start (Token.scan source))).head? = some f
      ∧ f.error = e := by
  have hfaults := Stmt.map_error_faults (.start (Token.scan source))
  rw [show (Program.parseLenient (Token.scan source)).2 = _ from hfaults.symm,
    List.head?_map] at h
  exact Option.map_eq_some_iff.1 h

/-- A source that is no program has an error. -/
theorem Program.exists_error {source : String}
    (h : ∀ program, Program.parse source ≠ .ok program) :
    ∃ e, (Program.parseLenient (Token.scan source)).2.head? = some e := by
  unfold Program.parse Program.ofTokens at h
  generalize Program.parseLenient (Token.scan source) = r at h
  obtain ⟨program, errors⟩ := r
  cases errors with
  | nil => exact absurd rfl (h program)
  | cons e es => exact ⟨e, rfl⟩

/-- **The last token read when the first error is met**, if there is an
error. -/
def Program.lastRead? (source : String) : Option Token :=
  (Stmt.faults (.start (Token.scan source))).head?.bind (·.read.getLast?)

/-- **A token that does not fit cannot be made to fit**: the error is met again
in every source that goes on behind the token, and in every one that goes on
behind the source. -/
theorem Program.error_of_front {source : String} {f : Fault}
    (hf : (Stmt.faults (.start (Token.scan source))).head? = some f)
    (hend : ¬ f.error.isEnd) :
    ∃ u, Program.lastRead? source = some u ∧ (u.kind ≠ .unclosedString →
      ∀ c : String,
        (∃ es, Program.parse
            (String.Pos.Raw.extract source ⟨0⟩ ⟨u.stop⟩ ++ " " ++ c)
          = .error (f.error :: es))
        ∧ ∃ es, Program.parse (source ++ " " ++ c)
          = .error (f.error :: es)) := by
  obtain ⟨front, u, behind, htokens, hlast, hread⟩ :=
    Stmt.readAll_of_faults (c := .start (Token.scan source)) rfl hf hend
  refine ⟨u, ?_, fun hu c => ⟨?_, ?_⟩⟩
  · rw [Program.lastRead?, hf]
    exact hlast
  · obtain ⟨rest, hrest⟩ := Token.scan_cut htokens hu c
    refine Program.parse_eq_error ?_
    rw [hrest]
    exact hread rest
  · obtain ⟨rest, hrest⟩ := Token.scan_front htokens hu c
    refine Program.parse_eq_error ?_
    rw [hrest]
    exact hread rest

/-! ## The first error -/

/-- **The source is incomplete**: it is no program, but is one with some text
behind it. -/
def Program.Incomplete (source : String) : Prop :=
  (∀ program, Program.parse source ≠ .ok program)
    ∧ ∃ c program, Program.parse (source ++ " " ++ c) = .ok program

/-- **The first error decides whether a source can be gone on with.** If it is
that the tokens end, some text behind the source makes a program of it. If it is
about another thing, met at a token that is not an open string, then that error
is met again with any text behind the token. So the end of the tokens is what is
reported first exactly if the source is incomplete, unless the first error is
met at an open string. -/
theorem Program.first_error_decides (source : String) :
    (∀ x, (Program.parseLenient (Token.scan source)).2.head?
        = some (.unexpectedEnd x) →
      ∃ c program, Program.parse (source ++ " " ++ c) = .ok program)
    ∧ (∀ e, (Program.parseLenient (Token.scan source)).2.head? = some e →
      ¬ e.isEnd →
      ∃ u, Program.lastRead? source = some u ∧ (u.kind ≠ .unclosedString →
        ∀ c : String, ∃ es, Program.parse
            (String.Pos.Raw.extract source ⟨0⟩ ⟨u.stop⟩ ++ " " ++ c)
          = .error (e :: es)))
    ∧ ((∀ u, Program.lastRead? source = some u → u.kind ≠ .unclosedString) →
      ((∃ x, (Program.parseLenient (Token.scan source)).2.head?
          = some (.unexpectedEnd x))
        ↔ Program.Incomplete source)) := by
  have hcompletes (x : Expected)
      (hx : (Program.parseLenient (Token.scan source)).2.head?
        = some (.unexpectedEnd x)) :
      ∃ c program, Program.parse (source ++ " " ++ c) = .ok program := by
    obtain ⟨f, hf, hfx⟩ := Program.exists_fault hx
    obtain ⟨bs, hbegun⟩ := Body.begun_of_faults hf (by rw [hfx]; rfl)
    exact Program.exists_completion hbegun
  refine ⟨hcompletes, ?_, fun hclosed => ⟨?_, ?_⟩⟩
  · intro e he hend
    obtain ⟨f, hf, rfl⟩ := Program.exists_fault he
    obtain ⟨u, hu, hfront⟩ := Program.error_of_front hf hend
    exact ⟨u, hu, fun hkind c => (hfront hkind c).1⟩
  · rintro ⟨x, hx⟩
    refine ⟨?_, hcompletes x hx⟩
    intro program hprogram
    obtain ⟨es, hes⟩ := Program.parse_eq_error hx
    rw [hes] at hprogram
    cases hprogram
  · rintro ⟨hfails, c, program, hprogram⟩
    obtain ⟨e, he⟩ := Program.exists_error hfails
    obtain ⟨f, hf, rfl⟩ := Program.exists_fault he
    -- an error about a token would be met again with the text behind the source
    have hend : f.error.isEnd := by
      by_contra hend
      obtain ⟨u, hu, hfront⟩ := Program.error_of_front hf hend
      obtain ⟨es, hes⟩ := (hfront (hclosed u hu) c).2
      rw [hes] at hprogram
      cases hprogram
    cases hx : f.error with
    | unexpectedEnd x => exact ⟨x, hx ▸ he⟩
    | _ => simp [hx, ParseError.isEnd] at hend

/-- A hash that is open can be completed. A `let` that binds no name cannot,
whatever stands behind the token in the place of the name. -/
theorem Program.first_error_decides_of_let :
    (∃ c program, Program.parse ("let a = \x7b1:" ++ " " ++ c) = .ok program)
      ∧ ∀ c : String, ∃ es, Program.parse ("let 5" ++ " " ++ c)
        = .error (.unexpectedToken .identifier ⟨.int "5", 4, 5⟩ :: es) := by
  constructor
  · have hfirst : (Program.parseLenient (Token.scan "let a = \x7b1:")).2.head?
        = some (.unexpectedEnd .expression) := by decide +kernel
    exact (Program.first_error_decides "let a = \x7b1:").1 _ hfirst
  · intro c
    have hfirst : (Program.parseLenient (Token.scan "let 5 + 1")).2.head?
        = some (.unexpectedToken .identifier ⟨.int "5", 4, 5⟩) := by
      decide +kernel
    have hlast : Program.lastRead? "let 5 + 1" = some ⟨.int "5", 4, 5⟩ := by
      decide +kernel
    obtain ⟨u, hu, hfront⟩ :=
      (Program.first_error_decides "let 5 + 1").2.1 _ hfirst (by decide)
    obtain rfl := Option.some.inj (hlast.symm.trans hu)
    exact hfront (by decide) c

end Monkey
