import Monkey.Program.Parse
import Monkey.Proofs.Agreement
import Monkey.Proofs.Nesting

/-!
# Where reading goes on after a fault

A faulty statement ends at the next semicolon outside all braces. What is
outside can be said by counting: from the first token of the statement on, as
many braces must have been closed as opened (`Fault.Resumes`). The reader does
not count the tokens it has read, but only those it passes over; for the others
it relies on the number of blocks left open. The two counts differ by the
braces that are open without being those of a block, and by the token at which
the fault is met: it has been read, but belongs to no phrase.

So the reader goes on at the right place if the hashes left open and the
offending token make up for each other, and if they do not, some continuation
of the same tokens sends it to a wrong one.

All this is counted in integers. A count in 32 bits, which wraps around, comes
to the same place unless there are as many tokens as it can count to
(`skipCounted_eq`).
-/

namespace Monkey

open Token (Kind)
open Reading

/-! ## One statement after the other -/

section

variable {t : Token} {ts : List Token} {k : Nat} {c d : Cursor} {s : Stmt}
  {e : ParseError}

/-- **Induction over the statements of a token list**, readable or not. -/
theorem Stmt.inductionOnStatements {P : Cursor → Prop} (c : Cursor)
    (nil : ∀ k, P ⟨[], k⟩)
    (semicolon : ∀ {t ts k}, t.kind = .semicolon → P ⟨ts, k⟩ → P ⟨t :: ts, k⟩)
    (statement : ∀ {t ts k s d}, t.kind ≠ .semicolon →
      (Stmt.readFrom t ⟨ts, k⟩).Gives s d → P d → P ⟨t :: ts, k⟩)
    (fault : ∀ {t ts k e d}, t.kind ≠ .semicolon →
      (Stmt.readFrom t ⟨ts, k⟩).Fails e d → P d.recover → P ⟨t :: ts, k⟩) :
    P c := by
  match c with
  | ⟨[], k⟩ => exact nil k
  | ⟨t :: ts, k⟩ =>
    by_cases ht : t.kind = .semicolon
    · exact semicolon ht
        (Stmt.inductionOnStatements ⟨ts, k⟩ nil semicolon statement fault)
    · have hle := (Stmt.readFrom t ⟨ts, k⟩).size_le
      obtain ⟨s, hs⟩ | ⟨e, he⟩ := gives_or_fails (Stmt.readFrom t ⟨ts, k⟩)
      · exact statement ht hs
          (Stmt.inductionOnStatements _ nil semicolon statement fault)
      · have hrecover := Cursor.size_recover_le (Stmt.readFrom t ⟨ts, k⟩).cursor
        exact fault ht he
          (Stmt.inductionOnStatements _ nil semicolon statement fault)
termination_by c.size
decreasing_by
  · exact Nat.lt_succ_self _
  · exact Nat.lt_succ_of_le hle
  · exact Nat.lt_succ_of_le (Nat.le_trans hrecover hle)

theorem Stmt.readAll_fault (ht : t.kind ≠ .semicolon)
    (h : (Stmt.readFrom t ⟨ts, k⟩).Fails e d) :
    Stmt.readAll ⟨t :: ts, k⟩
      = ((Stmt.readAll d.recover).1, e :: (Stmt.readAll d.recover).2) := by
  obtain ⟨hresult, rfl⟩ := h
  rw [Stmt.readAll, if_neg ht]
  split
  · rename_i hr
    rw [hr] at hresult
    cases hresult
  · rename_i hr
    rw [hr] at hresult ⊢
    cases hresult
    rfl

end

/-! ## Faults -/

/-- **A statement that could not be read.** -/
structure Fault where
  /-- The error. -/
  error : ParseError
  /-- The tokens of the statement that have been read. -/
  read : List Token
  /-- The tokens behind them. -/
  behind : List Token
  /-- The tokens with which reading goes on. -/
  resumed : List Token
  deriving DecidableEq, Repr

/-- The fault in `tokens` whose reading stopped at `c`. -/
def Fault.stopped (tokens : List Token) (error : ParseError) (c : Cursor) :
    Fault where
  error := error
  read := tokens.take (tokens.length - c.size)
  behind := c.tokens
  resumed := c.recover.tokens

/-- **The faults of a token list**, in order. -/
def Stmt.faults (c : Cursor) : List Fault :=
  match c with
  | ⟨[], _⟩ => []
  | ⟨t :: ts, k⟩ =>
    if t.kind = .semicolon then Stmt.faults ⟨ts, k⟩
    else
      match Stmt.readFrom t ⟨ts, k⟩ with
      | ⟨.ok _, c', _⟩ => Stmt.faults c'
      | ⟨.error e, c', _⟩ => .stopped (t :: ts) e c' :: Stmt.faults c'.recover
termination_by c.size
decreasing_by
  · exact Nat.lt_succ_self _
  · rename_i h
    exact Nat.lt_succ_of_le h
  · rename_i h
    exact Nat.lt_succ_of_le (Nat.le_trans (Cursor.size_recover_le c') h)

section

variable {t : Token} {ts : List Token} {k : Nat} {c d : Cursor} {s : Stmt}
  {e : ParseError}

theorem Stmt.faults_semicolon (ht : t.kind = .semicolon) :
    Stmt.faults ⟨t :: ts, k⟩ = Stmt.faults ⟨ts, k⟩ := by
  rw [Stmt.faults, if_pos ht]

theorem Stmt.faults_statement (ht : t.kind ≠ .semicolon)
    (h : (Stmt.readFrom t ⟨ts, k⟩).Gives s d) :
    Stmt.faults ⟨t :: ts, k⟩ = Stmt.faults d := by
  obtain ⟨hresult, rfl⟩ := h
  rw [Stmt.faults, if_neg ht]
  split
  · rename_i hr
    rw [hr]
  · rename_i hr
    rw [hr] at hresult
    cases hresult

theorem Stmt.faults_fault (ht : t.kind ≠ .semicolon)
    (h : (Stmt.readFrom t ⟨ts, k⟩).Fails e d) :
    Stmt.faults ⟨t :: ts, k⟩
      = .stopped (t :: ts) e d :: Stmt.faults d.recover := by
  obtain ⟨hresult, rfl⟩ := h
  rw [Stmt.faults, if_neg ht]
  split
  · rename_i hr
    rw [hr] at hresult
    cases hresult
  · rename_i hr
    rw [hr] at hresult ⊢
    cases hresult
    rfl

end

/-- **The errors are those of the faults.** -/
theorem Stmt.map_error_faults (c : Cursor) :
    (Stmt.faults c).map Fault.error = (Stmt.readAll c).2 := by
  induction c using Stmt.inductionOnStatements with
  | nil k =>
    rw [Stmt.faults, Stmt.readAll_nil]
    rfl
  | semicolon ht ih =>
    rw [Stmt.faults_semicolon ht, Stmt.readAll_semicolon ht, ih]
  | statement ht hs ih =>
    rw [Stmt.faults_statement ht hs, Stmt.readAll_statement ht hs, ih]
  | fault ht he ih =>
    rw [Stmt.faults_fault ht he, Stmt.readAll_fault ht he, List.map_cons, ih]
    rfl

/-! ## The end of a faulty statement -/

/-- **The token ends a statement** of which `read` has been read: it is a
semicolon, and no more braces have been opened than closed. -/
def EndsStatement (read : List Token) (t : Token) : Prop :=
  t.kind = .semicolon ∧ braces (read.map Token.kind) ≤ 0

/-- **Reading goes on behind the end of the statement**: behind the first token
of `behind` that ends it, or at the end of the tokens if there is none. -/
def ResumesAt (read behind resumed : List Token) : Prop :=
  (∃ passed t, behind = passed ++ t :: resumed ∧ EndsStatement (read ++ passed) t
      ∧ ∀ us u vs, passed = us ++ u :: vs → ¬ EndsStatement (read ++ us) u)
    ∨ resumed = []
      ∧ ∀ us u vs, behind = us ++ u :: vs → ¬ EndsStatement (read ++ us) u

section

variable {read ts resumed : List Token} {t : Token}

theorem resumesAt_nil : ResumesAt read [] resumed ↔ resumed = [] := by
  constructor
  · rintro (⟨passed, t, h, -⟩ | ⟨h, -⟩)
    · simp at h
    · exact h
  · rintro rfl
    exact .inr ⟨rfl, by simp⟩

theorem resumesAt_cons_of_ends (h : EndsStatement read t) :
    ResumesAt read (t :: ts) resumed ↔ resumed = ts := by
  have hread : EndsStatement (read ++ []) t := by rwa [List.append_nil]
  constructor
  · rintro (⟨passed, u, hsplit, -, hfirst⟩ | ⟨-, hnone⟩)
    · cases passed with
      | nil => exact (List.cons.inj hsplit).2.symm
      | cons v passed =>
        obtain ⟨rfl, -⟩ := List.cons.inj hsplit
        exact absurd hread (hfirst [] t passed rfl)
    · exact absurd hread (hnone [] t ts rfl)
  · rintro rfl
    exact .inl ⟨[], t, rfl, hread, by simp⟩

theorem resumesAt_cons_of_not_ends (h : ¬ EndsStatement read t) :
    ResumesAt read (t :: ts) resumed ↔ ResumesAt (read ++ [t]) ts resumed := by
  -- what is first behind the token is first from the token on
  have hfirst (passed : List Token) :
      (∀ us u vs, t :: passed = us ++ u :: vs → ¬ EndsStatement (read ++ us) u)
        ↔ ∀ us u vs, passed = us ++ u :: vs →
          ¬ EndsStatement (read ++ [t] ++ us) u := by
    constructor
    · rintro hall us u vs rfl
      rw [List.append_assoc]
      exact hall (t :: us) u vs rfl
    · intro hall us u vs hsplit
      cases us with
      | nil =>
        obtain ⟨rfl, -⟩ := List.cons.inj hsplit
        rwa [List.append_nil]
      | cons v us =>
        obtain ⟨rfl, hpassed⟩ := List.cons.inj hsplit
        have hus := hall us u vs hpassed
        rwa [List.append_assoc] at hus
  constructor
  · rintro (⟨passed, u, hsplit, hends, hpassed⟩ | ⟨hnil, hnone⟩)
    · cases passed with
      | nil =>
        obtain ⟨rfl, -⟩ := List.cons.inj hsplit
        rw [List.append_nil] at hends
        exact absurd hends h
      | cons v passed =>
        obtain ⟨rfl, hts⟩ := List.cons.inj hsplit
        refine .inl ⟨passed, u, hts, ?_, (hfirst passed).1 hpassed⟩
        rwa [List.append_assoc]
    · exact .inr ⟨hnil, (hfirst ts).1 hnone⟩
  · rintro (⟨passed, u, hsplit, hends, hpassed⟩ | ⟨hnil, hnone⟩)
    · refine .inl ⟨t :: passed, u, congrArg (t :: ·) hsplit, ?_,
        (hfirst passed).2 hpassed⟩
      rwa [List.append_assoc] at hends
    · exact .inr ⟨hnil, (hfirst ts).2 hnone⟩

end

/-- One token that is passed over. -/
theorem skipStatement_cons (depth : Int) (t : Token) (ts : List Token) :
    skipStatement depth (t :: ts)
      = if t.kind = .semicolon ∧ depth ≤ 0 then ts
        else skipStatement (depth + t.kind.brace) ts := by
  rw [skipStatement]
  cases t.kind <;> simp [Kind.brace, Int.sub_eq_add_neg]

/-- Passing over closing braces. -/
theorem skipStatement_closing (n : Nat) (depth : Int) (ts : List Token) :
    skipStatement depth (List.replicate n ⟨.rightBrace, 0, 0⟩ ++ ts)
      = skipStatement (depth - n) ts := by
  induction n generalizing depth with
  | zero => simp
  | succ n ih =>
    have hdepth : depth - 1 - n = depth - (n + 1 : Nat) := by omega
    rw [List.replicate_succ, List.cons_append, skipStatement]
    exact (ih (depth - 1)).trans (congrArg (skipStatement · ts) hdepth)

/-- **Passing over a statement finds its end** if it begins with the number of
braces left open. -/
theorem resumesAt_iff {read behind resumed : List Token} :
    ResumesAt read behind resumed
      ↔ resumed = skipStatement (braces (read.map Token.kind)) behind := by
  induction behind generalizing read with
  | nil => exact resumesAt_nil
  | cons t ts ih =>
    rw [skipStatement_cons]
    split
    · rename_i h
      exact resumesAt_cons_of_ends h
    · rename_i h
      rw [resumesAt_cons_of_not_ends h, ih]
      simp

/-- Reading goes on behind the end of the faulty statement. -/
def Fault.Resumes (f : Fault) : Prop :=
  ResumesAt f.read f.behind f.resumed

/-- **Different depths can be told apart**: some tokens are passed over
differently. A brace more is opened before so many are closed that only the
smaller depth is outside. -/
theorem exists_skipStatement_ne {m n : Int} (hm : -1 ≤ m) (h : m < n) :
    ∃ ts, skipStatement m ts ≠ skipStatement n ts := by
  obtain ⟨k, hk⟩ : ∃ k : Nat, m + 1 = k := Int.eq_ofNat_of_zero_le (by omega)
  refine ⟨⟨.leftBrace, 0, 0⟩ :: (List.replicate k ⟨.rightBrace, 0, 0⟩
    ++ [⟨.semicolon, 0, 0⟩, ⟨.kwTrue, 0, 0⟩]), ?_⟩
  have hinside : m + 1 - k ≤ 0 := by omega
  have houtside : ¬ n + 1 - k ≤ 0 := by omega
  simp [skipStatement, skipStatement_closing, hinside, houtside]

theorem skipStatement_suffix (depth : Int) (ts : List Token) :
    skipStatement depth ts <:+ ts := by
  induction ts generalizing depth with
  | nil => exact List.suffix_rfl
  | cons t ts ih =>
    rw [skipStatement_cons]
    split
    · exact List.suffix_cons t ts
    · exact (ih _).trans (List.suffix_cons t ts)

/-! ## Counting in 32 bits -/

/-- The tokens behind the end of a faulty statement, found with a count that
wraps around. -/
def skipCounted (depth : Int32) : List Token → List Token
  | [] => []
  | t :: ts =>
    match t.kind with
    | .leftBrace => skipCounted (depth + 1) ts
    | .rightBrace => skipCounted (depth - 1) ts
    | .semicolon => if depth ≤ 0 then ts else skipCounted depth ts
    | _ => skipCounted depth ts

/-- **Counting in 32 bits finds the same place** as long as the tokens are too
few for the count to wrap around. -/
theorem skipCounted_eq {n : Int} {ts : List Token}
    (hlow : -2147483648 ≤ n - ts.length)
    (hhigh : n + ts.length < 2147483648) :
    skipCounted (Int32.ofInt n) ts = skipStatement n ts := by
  induction ts generalizing n with
  | nil => rfl
  | cons t ts ih =>
    rw [List.length_cons] at hlow hhigh
    have hsame : skipCounted (Int32.ofInt n) ts = skipStatement n ts :=
      ih (by omega) (by omega)
    have houtside : Int32.ofInt n ≤ 0 ↔ n ≤ 0 := by
      rw [Int32.le_iff_toInt_le, Int32.toInt_zero,
        Int32.toInt_ofInt_of_le (by omega) (by omega)]
    rw [skipCounted, skipStatement]
    cases t.kind with
    | leftBrace =>
      show skipCounted (Int32.ofInt n + 1) ts = skipStatement (n + 1) ts
      rw [← ih (n := n + 1) (by omega) (by omega), Int32.ofInt_add]
      rfl
    | rightBrace =>
      show skipCounted (Int32.ofInt n - 1) ts = skipStatement (n - 1) ts
      rw [← ih (n := n - 1) (by omega) (by omega), Int32.ofInt_sub]
      rfl
    | semicolon => simp only [houtside, hsame]
    | _ => exact hsame

/-- A list opens no more braces than it has tokens. -/
theorem braces_le_length (ks : List Kind) : braces ks ≤ ks.length := by
  induction ks with
  | nil => exact Int.le_refl _
  | cons k ks ih =>
    have hk : k.brace ≤ 1 := by
      unfold Kind.brace
      split <;> decide
    rw [braces_cons, List.length_cons]
    omega

/-! ## Two counts -/

theorem Brace.length_eq (bs : List Brace) :
    bs.length = bs.count .block + bs.count .hash := by
  induction bs with
  | nil => rfl
  | cons b bs ih =>
    rw [List.length_cons, ih]
    cases b <;> simp <;> omega

theorem Fault.read_stopped {tokens us : List Token} {c : Cursor}
    (h : tokens = us ++ c.tokens) (e : ParseError) :
    (Fault.stopped tokens e c).read = us := by
  rw [h]
  simp [Fault.stopped, Cursor.size]

/-- **Where a faulty statement breaks off**: at the end of the tokens, or at a
token that the error is about, behind the beginning of a statement. -/
theorem Stmt.breaksOff {t : Token} {ts : List Token} {e : ParseError}
    {d : Cursor} (h : (Stmt.readFrom t ⟨ts, 0⟩).Fails e d) :
    e.isEnd ∧ t :: ts = t :: ts ++ d.tokens
      ∨ ¬ e.isEnd ∧ ∃ us x opened, t :: ts = us ++ [x] ++ d.tokens ∧ e.About x
        ∧ Stmt.Begun (us.map Token.kind) opened
        ∧ d.nesting = opened.count .block := by
  obtain ⟨us, opened, hbegun, hbreaks⟩ := Stmt.begun_of_readFrom h
  generalize hc : (Cursor.mk ts 0).before [t] = c at hbreaks
  cases hbreaks with
  | atEnd => exact .inl ⟨rfl, by simp⟩
  | @atToken us rest x k opened e hx =>
    obtain ⟨hsplit, rfl⟩ := Cursor.mk.inj hc
    refine .inr ⟨?_, us, x, opened, ?_, hx, hbegun, Nat.zero_add _⟩
    · intro hend
      cases e <;> first | exact hx | cases hend
    · rw [List.append_assoc]
      exact hsplit

/-- **The faults are what reading meets**, each at a statement that begins
outside all blocks. -/
theorem Stmt.exists_of_mem_faults {f : Fault} {c : Cursor}
    (hc : c.nesting = 0) (hf : f ∈ Stmt.faults c) :
    ∃ t ts d, t.kind ≠ .semicolon ∧ (Stmt.readFrom t ⟨ts, 0⟩).Fails f.error d
      ∧ f = .stopped (t :: ts) f.error d ∧ t :: ts <:+ c.tokens := by
  induction c using Stmt.inductionOnStatements with
  | nil k => simp [Stmt.faults] at hf
  | @semicolon t ts k ht ih =>
    rw [Stmt.faults_semicolon ht] at hf
    obtain ⟨u, us, d, hu, hfails, hstop, hsuffix⟩ := ih hc hf
    exact ⟨u, us, d, hu, hfails, hstop, hsuffix.trans (List.suffix_cons t ts)⟩
  | @statement t ts k s d ht hs ih =>
    rw [Stmt.faults_statement ht hs] at hf
    obtain ⟨vs, hvs, -⟩ :=
      Stmt.derives_of_readFrom (Expr.derivedBelow _) (Nat.lt_succ_self _) hs
    obtain ⟨rfl, rfl⟩ := Cursor.mk.inj hvs
    obtain ⟨u, us, d', hu, hfails, hstop, hsuffix⟩ := ih hc hf
    exact ⟨u, us, d', hu, hfails, hstop,
      hsuffix.trans (List.suffix_append (t :: vs) d.tokens)⟩
  | @fault t ts k e d ht he ih =>
    obtain rfl : k = 0 := hc
    rw [Stmt.faults_fault ht he, List.mem_cons] at hf
    obtain rfl | hf := hf
    · exact ⟨t, ts, d, ht, he, rfl, List.suffix_rfl⟩
    · have hd : d.tokens <:+ t :: ts := by
        obtain ⟨-, hend⟩ | ⟨-, us, x, -, hsplit, -⟩ := Stmt.breaksOff he
        · exact hend ▸ List.suffix_append _ _
        · exact hsplit ▸ List.suffix_append _ _
      obtain ⟨u, us, d', hu, hfails, hstop, hsuffix⟩ := ih rfl hf
      exact ⟨u, us, d', hu, hfails, hstop,
        hsuffix.trans ((skipStatement_suffix _ _).trans hd)⟩

/-- **The two counts**: passing over a statement begins with the blocks left
open, where its end is found by beginning with all braces. -/
theorem Fault.resumes_stopped_iff {tokens us : List Token} {t : Token}
    {opened : List Brace} {c : Cursor} (e : ParseError)
    (hsplit : tokens = us ++ [t] ++ c.tokens)
    (hbegun : Stmt.Begun (us.map Token.kind) opened)
    (hnesting : c.nesting = opened.count .block) :
    (Fault.stopped tokens e c).Resumes
      ↔ skipStatement c.nesting c.tokens = skipStatement
        (c.nesting + ((opened.count .hash : Int) + t.kind.brace)) c.tokens := by
  have hbraces : braces ((us ++ [t]).map Token.kind)
      = c.nesting + ((opened.count .hash : Int) + t.kind.brace) := by
    rw [List.map_append, braces_append, hbegun.level.braces_eq,
      Brace.length_eq, hnesting]
    simp
    omega
  rw [Fault.Resumes, resumesAt_iff, Fault.read_stopped hsplit, hbraces]
  rfl

/-- **Passing over the statement in 32 bits** comes to the same place, unless
there are more tokens than can be counted. -/
theorem Fault.resumed_stopped_eq {tokens us : List Token} {t : Token}
    {opened : List Brace} {c : Cursor} (e : ParseError)
    (hsplit : tokens = us ++ [t] ++ c.tokens)
    (hbegun : Stmt.Begun (us.map Token.kind) opened)
    (hnesting : c.nesting = opened.count .block)
    (hlength : tokens.length < 2147483648) :
    (Fault.stopped tokens e c).resumed
      = skipCounted (Int32.ofNat (opened.count .block)) c.tokens := by
  have hopened : (opened.length : Int) ≤ us.length := by
    rw [← hbegun.level.braces_eq]
    simpa using braces_le_length (us.map Token.kind)
  have hblocks : opened.count .block ≤ opened.length := List.count_le_length
  have hsum : tokens.length = us.length + 1 + c.tokens.length := by
    rw [hsplit, List.length_append, List.length_append, List.length_singleton]
  rw [← Int32.ofInt_eq_ofNat, skipCounted_eq (by omega) (by omega), ← hnesting]
  rfl

theorem Token.Kind.neg_one_le_brace (k : Kind) : -1 ≤ k.brace := by
  unfold Kind.brace
  split <;> decide

/-- **A difference between the counts shows**: some tokens behind the fault are
passed over differently. -/
theorem exists_skipStatement_add_ne (n m : Nat) (k : Kind)
    (h : (m : Int) + k.brace ≠ 0) :
    ∃ ts, skipStatement n ts ≠ skipStatement (n + ((m : Int) + k.brace)) ts := by
  have hk := k.neg_one_le_brace
  obtain hlt | hgt := Int.lt_or_gt_of_ne h
  · obtain ⟨ts, hts⟩ := exists_skipStatement_ne
      (m := n + ((m : Int) + k.brace)) (n := n) (by omega) (by omega)
    exact ⟨ts, hts.symm⟩
  · exact exists_skipStatement_ne (by omega) (by omega)

/-- The reader notes the error and goes on with the tokens `resumed`. -/
def Fault.Noted (f : Fault) : Prop :=
  Stmt.readAll (.start (f.read ++ f.behind))
    = ((Stmt.readAll (.start f.resumed)).1,
      f.error :: (Stmt.readAll (.start f.resumed)).2)

theorem Fault.noted_stopped {t : Token} {ts us : List Token} {e : ParseError}
    {d : Cursor} (ht : t.kind ≠ .semicolon)
    (h : (Stmt.readFrom t ⟨ts, 0⟩).Fails e d)
    (hsplit : t :: ts = us ++ d.tokens) :
    (Fault.stopped (t :: ts) e d).Noted := by
  rw [Fault.Noted, Fault.read_stopped hsplit]
  show Stmt.readAll (.start (us ++ d.tokens)) = _
  rw [← hsplit]
  exact Stmt.readAll_fault ht h

/-- **The same fault is met with other tokens behind it.** -/
theorem Stmt.fails_behind {t : Token} {ts us : List Token} {x : Token}
    {e : ParseError} {d : Cursor} (h : (Stmt.readFrom t ⟨ts, 0⟩).Fails e d)
    (hend : ¬ e.isEnd) (hsplit : t :: ts = us ++ [x] ++ d.tokens)
    (behind : List Token) :
    ∃ ts', t :: ts' = us ++ [x] ++ behind
      ∧ (Stmt.readFrom t ⟨ts', 0⟩).Fails e ⟨behind, d.nesting⟩ := by
  obtain ⟨vs, hvs, rfl⟩ : ∃ vs, us ++ [x] = t :: vs ∧ ts = vs ++ d.tokens := by
    cases us with
    | nil =>
      obtain ⟨rfl, rfl⟩ := List.cons.inj hsplit
      exact ⟨[], rfl, rfl⟩
    | cons u us =>
      obtain ⟨rfl, rfl⟩ := List.cons.inj hsplit
      exact ⟨us ++ [x], rfl, rfl⟩
  have hfails : (Stmt.readFrom t ⟨vs ++ behind, 0⟩).Fails e
      ⟨[] ++ behind, d.nesting⟩ := Stmt.fails_replace h hend behind
  exact ⟨vs ++ behind, by rw [hvs, List.cons_append], hfails⟩

/-- **Where the counts differ, reading may go on at a wrong place**: it does so
for some tokens behind the fault. -/
theorem Stmt.exists_fault_not_resumes {t : Token} {ts us : List Token}
    {x : Token} {e : ParseError} {d : Cursor} {opened : List Brace}
    (ht : t.kind ≠ .semicolon) (h : (Stmt.readFrom t ⟨ts, 0⟩).Fails e d)
    (hend : ¬ e.isEnd) (hsplit : t :: ts = us ++ [x] ++ d.tokens)
    (hbegun : Stmt.Begun (us.map Token.kind) opened)
    (hnesting : d.nesting = opened.count .block)
    (hne : (opened.count .hash : Int) + x.kind.brace ≠ 0) :
    ∃ f, (Stmt.faults (.start (us ++ [x] ++ f.behind))).head? = some f
      ∧ f.error = e ∧ f.read = us ++ [x] ∧ ¬ f.Resumes := by
  obtain ⟨behind, hbehind⟩ :=
    exists_skipStatement_add_ne d.nesting (opened.count .hash) x.kind hne
  obtain ⟨ts', hsplit', hfails⟩ := Stmt.fails_behind h hend hsplit behind
  refine ⟨.stopped (t :: ts') e ⟨behind, d.nesting⟩, ?_, rfl,
    Fault.read_stopped hsplit' e, ?_⟩
  · show (Stmt.faults (.start (us ++ [x] ++ behind))).head? = _
    rw [← hsplit', Cursor.start, Stmt.faults_fault ht hfails]
    rfl
  · have hiff := Fault.resumes_stopped_iff (c := ⟨behind, d.nesting⟩) e hsplit'
      hbegun hnesting
    rw [hiff]
    exact hbehind

/-- **Reading goes on behind a faulty statement, as far as the counts agree.**
The errors of a token list are those of its faults. At the end of the tokens,
reading goes on there. At a token `t` behind the beginning of a statement,
reading goes on behind the end of the statement if the hashes that the
beginning has opened and the brace that `t` may be cancel out; otherwise the
same tokens with others behind them are a fault after which reading goes on at
a wrong place. With fewer tokens than 32 bits can count, counting the blocks that
are left open in 32 bits comes to the same place. -/
theorem Program.resumes_behind_faults (tokens : List Token) :
    (Program.parseLenient tokens).2
        = (Stmt.faults (.start tokens)).map Fault.error
      ∧ ∀ f ∈ Stmt.faults (.start tokens),
        f.read ++ f.behind <:+ tokens ∧ f.Noted
        ∧ (f.error.isEnd → f.Resumes)
        ∧ (¬ f.error.isEnd → ∃ us t opened, f.read = us ++ [t]
          ∧ f.error.About t ∧ Stmt.Begun (us.map Token.kind) opened
          ∧ (tokens.length < 2147483648 → f.resumed
            = skipCounted (Int32.ofNat (opened.count .block)) f.behind)
          ∧ ((opened.count .hash : Int) + t.kind.brace = 0 → f.Resumes)
          ∧ ((opened.count .hash : Int) + t.kind.brace ≠ 0 →
            ∃ f', (Stmt.faults (.start (f.read ++ f'.behind))).head? = some f'
              ∧ f'.error = f.error ∧ f'.read = f.read ∧ ¬ f'.Resumes)) := by
  refine ⟨(Stmt.map_error_faults (.start tokens)).symm, ?_⟩
  intro f hf
  obtain ⟨t, ts, d, ht, hfails, hstopped, hsuffix⟩ :=
    Stmt.exists_of_mem_faults rfl hf
  generalize f.error = e at hfails hstopped
  subst hstopped
  obtain ⟨hend, hsplit⟩ | ⟨hend, us, x, opened, hsplit, hx, hbegun, hnesting⟩ :=
    Stmt.breaksOff hfails
  · have hread : (Fault.stopped (t :: ts) e d).read = t :: ts :=
      Fault.read_stopped hsplit e
    refine ⟨?_, Fault.noted_stopped ht hfails hsplit, fun _ => ?_,
      fun hnot => absurd hend hnot⟩
    · rw [hread]
      exact hsplit ▸ hsuffix
    · have hnil : d.tokens = [] := List.self_eq_append_right.1 hsplit
      rw [Fault.Resumes, resumesAt_iff]
      simp [Fault.stopped, Cursor.recover, hnil, skipStatement]
  · have hread : (Fault.stopped (t :: ts) e d).read = us ++ [x] :=
      Fault.read_stopped hsplit e
    refine ⟨?_, Fault.noted_stopped ht hfails hsplit,
      fun hend' => absurd hend' hend, fun _ => ?_⟩
    · rw [hread]
      exact hsplit ▸ hsuffix
    · refine ⟨us, x, opened, hread, hx, hbegun, fun hlength => ?_, ?_, ?_⟩
      · exact Fault.resumed_stopped_eq e hsplit hbegun hnesting
          (Nat.lt_of_le_of_lt hsuffix.length_le hlength)
      · intro hzero
        rw [Fault.resumes_stopped_iff e hsplit hbegun hnesting, hzero,
          Int.add_zero]
      · intro hne
        rw [hread]
        exact Stmt.exists_fault_not_resumes ht hfails hend hsplit hbegun
          hnesting hne

/-- A semicolon in a block that is still open ends nothing. -/
example : (Stmt.faults
      (.start (Token.scan "if (a) \x7b let x 5; y \x7d; 3"))).map Fault.resumed
    = [[⟨.int "3", 23, 24⟩]] := by
  decide +kernel

/-- **A closing brace that breaks a block off is not counted**: the block counts
as open behind it, so the semicolon behind the brace is passed over, although
no more braces are open than have been closed. -/
theorem Program.fault_not_resumes_of_closing_brace :
    ∃ f ∈ Stmt.faults (.start (Token.scan "fn() \x7b let \x7d; 3")),
      (∃ t, f.read.getLast? = some t ∧ t.kind ≠ .semicolon)
      ∧ (∀ n ≤ f.read.length, 0 ≤ braces ((f.read.take n).map Token.kind))
      ∧ ¬ f.Resumes := by
  have hfaults : Stmt.faults (.start (Token.scan "fn() \x7b let \x7d; 3"))
      = [⟨.unexpectedToken .identifier ⟨.rightBrace, 11, 12⟩,
        [⟨.kwFn, 0, 2⟩, ⟨.leftParen, 2, 3⟩, ⟨.rightParen, 3, 4⟩,
          ⟨.leftBrace, 5, 6⟩, ⟨.kwLet, 7, 10⟩, ⟨.rightBrace, 11, 12⟩],
        [⟨.semicolon, 12, 13⟩, ⟨.int "3", 14, 15⟩], []⟩] := by
    decide +kernel
  rw [hfaults]
  refine ⟨_, List.mem_singleton_self _, ⟨⟨.rightBrace, 11, 12⟩, rfl, by decide⟩,
    by decide, ?_⟩
  rw [Fault.Resumes, resumesAt_iff]
  decide

end Monkey
