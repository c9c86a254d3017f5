import Monkey.Program.Equality
import Monkey.Proofs.Juncture
import Monkey.Proofs.Recovery

/-!
# A statement and its successor

Behind a statement without braces, a semicolon ends it, whether it can be read
or not: the reader meets the semicolon at the end of the statement or passes
over everything up to it. There is one exception. A statement that breaks off
*at* the semicolon has it read as the token that does not fit, and what is
passed over then goes on to the next semicolon, so that the statement between
the two is lost. `Program.successor_kept_iff` says that nothing else hides a
successor.
-/

namespace Monkey

open Token (Kind)
open Reading

/-! ## Relabelled tokens -/

/-- The cursor before relabelled tokens. -/
def Cursor.relabel (f : Token → Token) (c : Cursor) : Cursor :=
  ⟨c.tokens.map f, c.nesting⟩

section

variable {f : Token → Token}

theorem Cursor.relabel_start (ts : List Token) :
    (Cursor.start ts).relabel f = .start (ts.map f) := rfl

theorem Cursor.alike_relabel (c : Cursor) :
    Cursor.Alike f [] [] c (c.relabel f) := by
  have h : Cursor.Alike f [] [] ⟨c.tokens ++ [], c.nesting⟩
      ⟨c.tokens.map f ++ [], c.nesting⟩ := .mk c.tokens c.nesting
  rwa [List.append_nil, List.append_nil] at h

theorem Cursor.Alike.eq_relabel {c c' : Cursor}
    (h : Cursor.Alike f [] [] c c') : c' = c.relabel f := by
  obtain ⟨us, k⟩ := h
  simp [Cursor.relabel]

variable (hf : ∀ t, (f t).kind = t.kind)

include hf

/-- A relabelled statement is read as the statement is. -/
theorem Stmt.readFrom_relabel (t : Token) (c : Cursor) :
    (Stmt.readFrom (f t) (c.relabel f)).result
        = (Stmt.readFrom t c).result.mapError (ParseError.relabel f)
      ∧ (Stmt.readFrom (f t) (c.relabel f)).cursor
        = (Stmt.readFrom t c).cursor.relabel f := by
  obtain ⟨hresult, hcursor⟩ :=
    Stmt.agrees hf t c.alike_relabel (.inr (.inl ⟨rfl, rfl⟩))
  exact ⟨hresult, hcursor.eq_relabel⟩

theorem skipStatement_map (depth : Int) (ts : List Token) :
    skipStatement depth (ts.map f) = (skipStatement depth ts).map f := by
  induction ts generalizing depth with
  | nil => rfl
  | cons t ts ih =>
    rw [List.map_cons, skipStatement_cons, skipStatement_cons, hf]
    split
    · rfl
    · exact ih _

/-- **Relabelling tokens relabels the errors**, and nothing else. -/
theorem Stmt.readAll_relabel (c : Cursor) :
    Stmt.readAll (c.relabel f)
      = ((Stmt.readAll c).1, (Stmt.readAll c).2.map (ParseError.relabel f)) := by
  induction c using Stmt.inductionOnStatements with
  | nil k =>
    show Stmt.readAll ⟨[], k⟩ = _
    rw [Stmt.readAll_nil]
    rfl
  | @semicolon t ts k ht ih =>
    have ht' : (f t).kind = .semicolon := (hf t).trans ht
    rw [Stmt.readAll_semicolon ht, ← ih]
    exact Stmt.readAll_semicolon ht'
  | @statement t ts k s d ht hs ih =>
    have ht' : (f t).kind ≠ .semicolon := fun h => ht ((hf t).symm.trans h)
    obtain ⟨hresult, hcursor⟩ := Stmt.readFrom_relabel hf t ⟨ts, k⟩
    rw [hs.1] at hresult
    rw [hs.2] at hcursor
    rw [Stmt.readAll_statement ht hs]
    refine (Stmt.readAll_statement ht' ⟨hresult, hcursor⟩).trans ?_
    rw [ih]
  | @fault t ts k e d ht he ih =>
    have ht' : (f t).kind ≠ .semicolon := fun h => ht ((hf t).symm.trans h)
    obtain ⟨hresult, hcursor⟩ := Stmt.readFrom_relabel hf t ⟨ts, k⟩
    rw [he.1] at hresult
    rw [he.2] at hcursor
    have hrecover : (d.relabel f).recover = d.recover.relabel f :=
      congrArg (Cursor.mk · 0) (skipStatement_map hf _ _)
    rw [Stmt.readAll_fault ht he]
    refine (Stmt.readAll_fault ht' ⟨hresult, hcursor⟩).trans ?_
    rw [hrecover, ih]
    rfl

end

/-! ## Up to a semicolon -/

theorem Level.semicolon_notMem {n : Nat} {ks : List Kind} (h : Level n ks)
    (hbrace : .leftBrace ∉ ks) : .semicolon ∉ ks :=
  mt h.semicolon hbrace

theorem Level.eq_zero {n : Nat} {ks : List Kind} (h : Level n ks)
    (hbrace : .leftBrace ∉ ks) : n = 0 := by
  have hle := braces_nonpos hbrace
  rw [h.braces_eq] at hle
  omega

/-- Where a list is divided, its last element is in the second part, unless that
is empty. -/
theorem append_singleton_eq_append {α : Type} {as us vs : List α} {x : α}
    (h : as ++ [x] = us ++ vs) :
    vs = [] ∧ us = as ++ [x] ∨ ∃ bs, vs = bs ++ [x] ∧ as = us ++ bs := by
  obtain rfl | ⟨bs, y, rfl⟩ := List.eq_nil_or_concat vs
  · exact .inl ⟨rfl, by rw [h, List.append_nil]⟩
  · rw [List.concat_eq_append, ← List.append_assoc] at h
    obtain ⟨rfl, hx⟩ := List.append_inj' h rfl
    cases hx
    exact .inr ⟨bs, List.concat_eq_append, rfl⟩

section

variable {semi : Token} (hsemi : semi.kind = .semicolon) {t : Token}
  {ts : List Token} (hplain : ∀ u ∈ t :: ts, u.kind.isPlain)

include hsemi hplain

/-- **What is read of a statement without braces** holds no brace, and so no
semicolon either. -/
theorem Level.of_plain {n : Nat} {us vs : List Token}
    (h : Level n (us.map Token.kind)) (hsplit : t :: ts ++ [semi] = us ++ vs) :
    n = 0 ∧ ∃ bs, vs = bs ++ [semi] ∧ t :: ts = us ++ bs := by
  have hbrace : Kind.leftBrace ∉ us.map Token.kind := by
    intro hmem
    obtain ⟨u, hu, hkind⟩ := List.mem_map.1 hmem
    have hu : u ∈ t :: ts ++ [semi] := hsplit ▸ List.mem_append_left vs hu
    obtain hu | hu := List.mem_append.1 hu
    · exact Kind.ne_leftBrace_of_isPlain (hplain u hu) hkind
    · rw [List.mem_singleton.1 hu, hsemi] at hkind
      cases hkind
  refine ⟨h.eq_zero hbrace, ?_⟩
  obtain ⟨-, rfl⟩ | hbs := append_singleton_eq_append hsplit
  · refine absurd ?_ (h.semicolon_notMem hbrace)
    exact List.mem_map.2 ⟨semi, by simp, hsemi⟩
  · exact hbs

/-- **A statement without braces ends before the semicolon.** -/
theorem Stmt.gives_before_semicolon {s : Stmt} {d : Cursor}
    (h : (Stmt.readFrom t ⟨ts ++ [semi], 0⟩).Gives s d) :
    ∃ vs, vs <:+ ts ∧ d = ⟨vs ++ [semi], 0⟩ := by
  obtain ⟨us, hus, hderives, -⟩ :=
    Stmt.derives_of_readFrom (Expr.derivedBelow _) (Nat.lt_succ_self _) h
  obtain ⟨ds, m⟩ := d
  obtain ⟨hsplit, rfl⟩ := Cursor.mk.inj hus
  obtain ⟨-, vs, rfl, htokens⟩ :=
    hderives.level.of_plain hsemi hplain (congrArg (t :: ·) hsplit)
  obtain ⟨-, rfl⟩ := List.cons.inj htokens
  exact ⟨vs, List.suffix_append us vs, rfl⟩

/-- **A statement without braces breaks off before the semicolon or at it**, and
at the semicolon if its error carries the semicolon. -/
theorem Stmt.fails_before_semicolon {e : ParseError} {d : Cursor}
    (h : (Stmt.readFrom t ⟨ts ++ [semi], 0⟩).Fails e d) :
    ¬ e.isEnd ∧ (e.token? = some semi ∧ d = ⟨[], 0⟩
      ∨ e.token? ≠ some semi ∧ ∃ vs, vs <:+ ts ∧ d = ⟨vs ++ [semi], 0⟩) := by
  obtain ⟨us, opened, hbegun, hbreaks⟩ := Stmt.begun_of_readFrom h
  generalize hc : (Cursor.mk (ts ++ [semi]) 0).before [t] = c at hbreaks
  cases hbreaks with
  | atEnd =>
    obtain ⟨hsplit, rfl⟩ := Cursor.mk.inj hc
    obtain ⟨-, vs, hvs, -⟩ := hbegun.level.of_plain hsemi hplain
      (hsplit.trans (List.append_nil us).symm)
    simp at hvs
  | @atToken us rest x k opened e hx =>
    obtain ⟨hsplit, rfl⟩ := Cursor.mk.inj hc
    obtain ⟨hopened, vs, hvs, htokens⟩ :=
      hbegun.level.of_plain hsemi hplain hsplit
    obtain rfl : opened = [] := List.length_eq_zero_iff.1 hopened
    have hend : ¬ e.isEnd := by
      intro hend
      cases e <;> first | exact hx | cases hend
    refine ⟨hend, ?_⟩
    cases vs with
    | nil =>
      obtain ⟨rfl, rfl⟩ := List.cons.inj hvs
      exact .inl ⟨hx.token? hsemi, rfl⟩
    | cons v vs =>
      obtain ⟨rfl, rfl⟩ := List.cons.inj hvs
      refine .inr ⟨?_, vs, ?_, rfl⟩
      · intro htoken
        -- the token that is carried would be one of the statement
        have hplainx := hplain x (htokens ▸ by simp)
        rw [hx.eq_of_token? htoken] at hplainx
        exact Kind.ne_semicolon_of_isPlain hplainx hsemi
      · obtain _ | ⟨u, us⟩ := us
        · obtain ⟨-, rfl⟩ := List.cons.inj htokens
          exact List.suffix_rfl
        · obtain ⟨-, rfl⟩ := List.cons.inj htokens
          exact (List.suffix_cons x vs).trans (List.suffix_append us (x :: vs))

end

/-! ## Beyond the semicolon -/

theorem skipStatement_plain {semi : Token} (hsemi : semi.kind = .semicolon)
    {ts : List Token} (hplain : ∀ u ∈ ts, u.kind.isPlain) (rest : List Token) :
    skipStatement 0 (ts ++ semi :: rest) = rest := by
  induction ts with
  | nil => simp [skipStatement, hsemi]
  | cons t ts ih =>
    have ht := hplain t List.mem_cons_self
    rw [List.cons_append, skipStatement_cons,
      if_neg fun h => Kind.ne_semicolon_of_isPlain ht h.1,
      Kind.brace_of_isPlain ht, Int.add_zero]
    exact ih fun u hu => hplain u (List.mem_cons_of_mem t hu)

/-- The tokens with which reading goes on behind a semicolon, if the errors
before it are `errors`. -/
def resumedBehind (semi : Token) (errors : List ParseError)
    (rest : List Token) : List Token :=
  if ∃ e ∈ errors, e.token? = some semi then skipStatement 0 rest else rest

/-- What is read up to a semicolon, and then behind it. -/
def Stmt.goOn (semi : Token) (front : List Stmt × List ParseError)
    (rest : List Token) : List Stmt × List ParseError :=
  let next := Stmt.readAll (.start (resumedBehind semi front.2 rest))
  (front.1 ++ next.1, front.2 ++ next.2)

section

variable {semi : Token} (hsemi : semi.kind = .semicolon)

include hsemi

/-- **A faulty statement without braces ends at the semicolon**, unless the
semicolon is the fault. -/
theorem Stmt.recover_before_semicolon {t : Token} {ts : List Token}
    {e : ParseError} {d : Cursor} (hplain : ∀ u ∈ t :: ts, u.kind.isPlain)
    (h : (Stmt.readFrom t ⟨ts ++ [semi], 0⟩).Fails e d) (rest : List Token) :
    d.recover = .start [] ∧ ∃ d',
      (Stmt.readFrom t ⟨ts ++ [semi] ++ rest, 0⟩).Fails e d'
      ∧ d'.recover = .start (resumedBehind semi [e] rest) := by
  obtain ⟨hend, ⟨htoken, rfl⟩ | ⟨htoken, vs, hvs, rfl⟩⟩ :=
    Stmt.fails_before_semicolon hsemi hplain h
  · refine ⟨rfl, ⟨[] ++ rest, 0⟩, Stmt.fails_append h hend rest, ?_⟩
    have hbehind : resumedBehind semi [e] rest = skipStatement 0 rest := by
      simp [resumedBehind, htoken]
    rw [hbehind]
    rfl
  · have hvs : ∀ u ∈ vs, u.kind.isPlain := fun u hu =>
      hplain u (List.mem_cons_of_mem t (hvs.mem hu))
    have hskip (rest : List Token) :
        (Cursor.mk (vs ++ semi :: rest) 0).recover = .start rest :=
      congrArg Cursor.start (skipStatement_plain hsemi hvs rest)
    refine ⟨hskip [], ⟨vs ++ [semi] ++ rest, 0⟩,
      Stmt.fails_append h hend rest, ?_⟩
    have hbehind : resumedBehind semi [e] rest = rest := by
      simp [resumedBehind, htoken]
    rw [hbehind, List.append_assoc]
    exact hskip rest

/-- **What is read of two texts with a semicolon between them**, the first
without braces. -/
theorem Stmt.readAll_append_semicolon {ts : List Token}
    (hplain : ∀ u ∈ ts, u.kind.isPlain) (rest : List Token) :
    Stmt.readAll (.start (ts ++ [semi] ++ rest))
      = Stmt.goOn semi (Stmt.readAll (.start (ts ++ [semi]))) rest := by
  match ts, hplain with
  | [], _ =>
    have hfront : Stmt.readAll (.start [semi]) = ([], []) :=
      (Stmt.readAll_semicolon hsemi).trans Stmt.readAll_nil
    rw [List.nil_append, hfront]
    refine (Stmt.readAll_semicolon hsemi).trans ?_
    simp [Stmt.goOn, resumedBehind, Cursor.start]
  | t :: ts, hplain =>
    have ht := Kind.ne_semicolon_of_isPlain (hplain t List.mem_cons_self)
    obtain ⟨s, hs⟩ | ⟨e, he⟩ :=
      gives_or_fails (Stmt.readFrom t ⟨ts ++ [semi], 0⟩)
    · obtain ⟨vs, hvs, hd⟩ := Stmt.gives_before_semicolon hsemi hplain hs
      rw [hd] at hs
      have hlt := hvs.length_le
      have hplain' : ∀ u ∈ vs, u.kind.isPlain := fun u hu =>
        hplain u (List.mem_cons_of_mem t (hvs.mem hu))
      have ih := Stmt.readAll_append_semicolon hplain' rest
      have hfront : Stmt.readAll (.start (t :: ts ++ [semi])) = _ :=
        Stmt.readAll_statement ht hs
      rw [hfront]
      refine (Stmt.readAll_statement ht
        (Stmt.gives_append hs (by simp) rest)).trans ?_
      rw [show Cursor.mk (vs ++ [semi] ++ rest) 0 = .start _ from rfl, ih]
      rfl
    · obtain ⟨hnil, d, hd, hrecover⟩ :=
        Stmt.recover_before_semicolon hsemi hplain he rest
      have hfront : Stmt.readAll (.start (t :: ts ++ [semi])) = ([], [e]) := by
        refine (Stmt.readAll_fault ht he).trans ?_
        rw [hnil, Cursor.start, Stmt.readAll_nil]
      rw [hfront]
      refine (Stmt.readAll_fault ht hd).trans ?_
      rw [hrecover]
      rfl
termination_by ts.length
decreasing_by exact Nat.lt_succ_of_le hlt

end

/-! ## Texts -/

theorem skipStatement_of_plain {ts : List Token}
    (hplain : ∀ u ∈ ts, u.kind.isPlain) (depth : Int) :
    skipStatement depth ts = [] := by
  induction ts generalizing depth with
  | nil => rfl
  | cons t ts ih =>
    have ht := Kind.ne_semicolon_of_isPlain (hplain t List.mem_cons_self)
    rw [skipStatement_cons, if_neg fun h => ht h.1]
    exact ih (fun u hu => hplain u (List.mem_cons_of_mem t hu)) _

/-- **A text without braces, semicolons and quotes** has only tokens that are
none. -/
theorem Token.isPlain_of_mem_scan {a : String}
    (ha : ∀ c ∈ ['\x7b', '\x7d', ';', '"'], c ∉ a.toList) {t : Token}
    (ht : t ∈ Token.scan a) : t.kind.isPlain ∧ t.kind ≠ .unclosedString := by
  obtain ⟨before, text, after, hsplit, -, -, hspell, -⟩ :=
    (Token.cover_scanFrom 0 a.toList).split ht
  have hmem {c : Char} (hc : c ∈ text) : c ∈ a.toList := by
    rw [hsplit]
    exact List.mem_append_right before (List.mem_append_left after hc)
  have hfirst (c : Char) (cs : List Char) (hc : c ∈ ['\x7b', '\x7d', ';', '"'])
      (htext : text = c :: cs) : False :=
    ha c hc (hmem (htext ▸ List.mem_cons_self))
  generalize t.kind = kind at hspell
  cases kind with
  | leftBrace => exact (hfirst '\x7b' [] (by decide) hspell).elim
  | rightBrace => exact (hfirst '\x7d' [] (by decide) hspell).elim
  | semicolon => exact (hfirst ';' [] (by decide) hspell).elim
  | unclosedString =>
    obtain ⟨content, htext, -⟩ := hspell
    exact (hfirst '"' content (by decide) htext).elim
  | _ => exact ⟨rfl, by rintro ⟨⟩⟩

section

variable {a : String} (ha : ∀ c ∈ ['\x7b', '\x7d', ';', '"'], c ∉ a.toList)

include ha

/-- **What is read of a text without braces, a semicolon and another text.** -/
theorem Stmt.readAll_scan_semicolon (b : String) :
    Stmt.readAll (.start (Token.scan (a ++ ";" ++ b)))
      = Stmt.goOn (.semicolonAt a.utf8ByteSize)
        (Stmt.readAll (.start (Token.scan (a ++ ";"))))
        ((Token.scan b).map (Token.shift (a.utf8ByteSize + 1))) := by
  have hclosed : ∀ t ∈ Token.scan a, t.kind ≠ .unclosedString :=
    fun t ht => (Token.isPlain_of_mem_scan ha ht).2
  have hplain : ∀ t ∈ Token.scan a, t.kind.isPlain :=
    fun t ht => (Token.isPlain_of_mem_scan ha ht).1
  have hfront : Token.scan (a ++ ";")
      = Token.scan a ++ [.semicolonAt a.utf8ByteSize] := by
    have hempty : Token.scan "" = [] := by
      rw [Token.scan, String.toList_empty, Token.scanFrom]
    have h := Token.scan_semicolon hclosed ""
    rwa [String.append_empty, hempty, List.map_nil] at h
  have hsemi : (Token.semicolonAt a.utf8ByteSize).kind = .semicolon := rfl
  rw [Token.scan_semicolon hclosed, hfront,
    ← Stmt.readAll_append_semicolon hsemi hplain, List.append_assoc]
  rfl

/-- **The successor is kept** behind a text that does not break off at the
semicolon. -/
theorem Stmt.readAll_scan_of_not_mem
    (h : ∀ e ∈ (Stmt.readAll (.start (Token.scan (a ++ ";")))).2,
      e.token? ≠ some (.semicolonAt a.utf8ByteSize)) (b : String) :
    Stmt.readAll (.start (Token.scan (a ++ ";" ++ b)))
      = ((Stmt.readAll (.start (Token.scan (a ++ ";")))).1
          ++ (Stmt.readAll (.start (Token.scan b))).1,
        (Stmt.readAll (.start (Token.scan (a ++ ";")))).2
          ++ (Stmt.readAll (.start (Token.scan b))).2.map
            (ParseError.relabel (Token.shift (a.utf8ByteSize + 1)))) := by
  have hnone : ¬ ∃ e ∈ (Stmt.readAll (.start (Token.scan (a ++ ";")))).2,
      e.token? = some (.semicolonAt a.utf8ByteSize) := by
    rintro ⟨e, he, htoken⟩
    exact h e he htoken
  rw [Stmt.readAll_scan_semicolon ha, Stmt.goOn, resumedBehind, if_neg hnone,
    ← Cursor.relabel_start, Stmt.readAll_relabel (Token.kind_shift _)]

/-- **The successor is lost** behind a text that breaks off at the semicolon, if
it has no semicolon itself. -/
theorem Stmt.readAll_scan_of_mem {e : ParseError}
    (he : e ∈ (Stmt.readAll (.start (Token.scan (a ++ ";")))).2)
    (htoken : e.token? = some (.semicolonAt a.utf8ByteSize)) {b : String}
    (hb : ∀ t ∈ Token.scan b, t.kind.isPlain) :
    Stmt.readAll (.start (Token.scan (a ++ ";" ++ b)))
      = Stmt.readAll (.start (Token.scan (a ++ ";"))) := by
  have hplain : ∀ t ∈ (Token.scan b).map (Token.shift (a.utf8ByteSize + 1)),
      t.kind.isPlain := by
    intro t ht
    obtain ⟨u, hu, rfl⟩ := List.mem_map.1 ht
    exact hb u hu
  have hnil : Stmt.readAll (.start []) = ([], []) := Stmt.readAll_nil
  rw [Stmt.readAll_scan_semicolon ha, Stmt.goOn, resumedBehind,
    if_pos ⟨e, he, htoken⟩, skipStatement_of_plain hplain, hnil,
    List.append_nil, List.append_nil]

end

/-- **A statement does not hide its successor unless it breaks off at the
semicolon between them.** Behind a text without braces, quotes and semicolons,
and a semicolon, any other text is read as it is read by itself, with the spans
in its errors moved, if and only if no error of the first text carries the
semicolon. -/
theorem Program.successor_kept_iff {a : String}
    (ha : ∀ c ∈ ['\x7b', '\x7d', ';', '"'], c ∉ a.toList) :
    (∀ b : String,
      (Program.parseLenient (Token.scan b)).1.statements
          <:+ (Program.parseLenient (Token.scan (a ++ ";" ++ b))).1.statements
        ∧ (Program.parseLenient (Token.scan b)).2.map
            (ParseError.relabel (Token.shift (a.utf8ByteSize + 1)))
          <:+ (Program.parseLenient (Token.scan (a ++ ";" ++ b))).2)
      ↔ ∀ e ∈ (Program.parseLenient (Token.scan (a ++ ";"))).2,
        e.token? ≠ some (.semicolonAt a.utf8ByteSize) := by
  constructor
  · -- of two texts that are read differently, one would be read at the end
    intro hkept e he htoken
    have hlost (b : String) (s : Stmt)
        (hb : ∀ t ∈ Token.scan b, t.kind.isPlain)
        (hs : (Program.parseLenient (Token.scan b)).1.statements = [s]) :
        [s] <:+ (Stmt.readAll (.start (Token.scan (a ++ ";")))).1 := by
      have hsuffix := (hkept b).1
      rw [hs] at hsuffix
      rwa [← Stmt.readAll_scan_of_mem ha he htoken hb]
    obtain ⟨us, hus⟩ := hlost "true" (.expr (.bool true)) (by decide +kernel)
      (by decide +kernel)
    obtain ⟨vs, hvs⟩ := hlost "false" (.expr (.bool false)) (by decide +kernel)
      (by decide +kernel)
    have hlast := (List.append_inj' (hus.trans hvs.symm) rfl).2
    simp at hlast
  · intro h b
    have hread := Stmt.readAll_scan_of_not_mem ha h b
    constructor
    · show _ <:+ (Stmt.readAll (.start (Token.scan (a ++ ";" ++ b)))).1
      rw [hread]
      exact List.suffix_append _ _
    · show _ <:+ (Stmt.readAll (.start (Token.scan (a ++ ";" ++ b)))).2
      rw [hread]
      exact List.suffix_append _ _

/-- A name without a value breaks off before the semicolon: whatever stands
behind it is kept. -/
theorem Program.successor_kept_of_missing_assign :
    (∀ c ∈ ['\x7b', '\x7d', ';', '"'], c ∉ "let x 5".toList)
      ∧ ∀ b : String, (Program.parseLenient (Token.scan b)).1.statements
        <:+ (Program.parseLenient
          (Token.scan ("let x 5" ++ ";" ++ b))).1.statements := by
  have hplain : ∀ c ∈ ['\x7b', '\x7d', ';', '"'], c ∉ "let x 5".toList := by
    simp
  have herrors : (Program.parseLenient (Token.scan ("let x 5" ++ ";"))).2
      = [.unexpectedToken (.token .assign) ⟨.int "5", 6, 7⟩] := by
    decide +kernel
  refine ⟨hplain, fun b => ((Program.successor_kept_iff hplain).2 ?_ b).1⟩
  rw [herrors]
  decide

/-- **A missing name is met at the semicolon**, and the successor is lost. -/
theorem Program.successor_lost_of_missing_name :
    (∀ c ∈ ['\x7b', '\x7d', ';', '"'], c ∉ "let".toList)
      ∧ ¬ (Program.parseLenient (Token.scan "5")).1.statements
        <:+ (Program.parseLenient
          (Token.scan ("let" ++ ";" ++ "5"))).1.statements := by
  have hfive : (Program.parseLenient (Token.scan "5")).1.statements
      = [.expr (.int 5)] := by
    decide +kernel
  have hlost : (Program.parseLenient
      (Token.scan ("let" ++ ";" ++ "5"))).1.statements = [] := by
    decide +kernel
  rw [hfive, hlost]
  exact ⟨by simp, by simp⟩

end Monkey
