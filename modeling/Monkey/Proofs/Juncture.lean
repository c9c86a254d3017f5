import Monkey.Proofs.Partition

/-!
# Texts that follow each other

Scanning is not compositional: the last token of a text may go on into what
follows it. It does not where what follows begins with a character that is part
of no word and no operator of two characters, a semicolon for instance, unless
the text ends within a string. There the tokens of the whole are those of the
two parts, with the spans of the second moved (`Token.scan_semicolon`,
`Token.scan_blanks`).

A token that is not an open string is there whatever follows the text it stands
in, and the text can be cut behind it (`Token.scan_front`, `Token.scan_cut`).
Together these say where a text may be taken apart: between its tokens, and
blanks can be put in wherever a token ends (`Token.scan_apart`).
-/

namespace Monkey

open Token (Kind)

/-- **The text cannot go on with a token** that is not a string. -/
def Text.Separates (cs : List Char) : Prop :=
  ∀ c ∈ cs.head?, ¬ Text.isNameChar c ∧ c ≠ '='

theorem Token.Kind.EndsBefore.append {kind : Kind} {rest cs : List Char}
    (h : kind.EndsBefore rest) (hkind : kind ≠ .unclosedString)
    (hcs : Text.Separates cs) : kind.EndsBefore (rest ++ cs) := by
  cases rest with
  | nil =>
    -- the token stands at the end of the first text
    cases kind with
    | int digits =>
      intro c hc hdigit
      exact (hcs c hc).1 (Text.isNameChar_of_isDigit hdigit)
    | assign | bang =>
      intro c hc
      exact (hcs c hc).2
    | unclosedString => exact absurd rfl hkind
    | _ =>
      intro _ c hc
      exact (hcs c hc).1
  | cons c rest =>
    cases kind with
    | unclosedString => exact absurd rfl hkind
    | _ => exact h

/-- **The tokens of two texts**, one behind the other. -/
theorem Token.Cover.scanFrom_append {pos : Nat} {cs : List Char}
    {tokens : List Token} (h : Token.Cover pos cs tokens)
    (hclosed : ∀ t ∈ tokens, t.kind ≠ .unclosedString) {ds : List Char}
    (hds : Text.Separates ds) :
    Token.scanFrom pos (cs ++ ds)
      = tokens ++ Token.scanFrom (pos + Text.byteSize cs) ds := by
  induction h with
  | nil => rfl
  | @blank pos c cs tokens hc _ ih =>
    rw [List.cons_append, Token.scanFrom_blank hc, ih hclosed, Text.byteSize,
      Nat.add_assoc]
  | @token pos kind text rest tokens hspell hends _ ih =>
    have hkind := hclosed _ List.mem_cons_self
    have hends' := hends.append hkind hds
    rw [List.append_assoc, Token.scanFrom_append hspell hends',
      ih fun t ht => hclosed t (List.mem_cons_of_mem _ ht),
      Text.byteSize_append, Nat.add_assoc]
    rfl

/-- **The token further on** in a source, by `n` bytes. -/
def Token.shift (n : Nat) (t : Token) : Token :=
  ⟨t.kind, t.start + n, t.stop + n⟩

@[simp] theorem Token.kind_shift (n : Nat) (t : Token) :
    (t.shift n).kind = t.kind := rfl

theorem Token.scanFrom_add (pos n : Nat) (cs : List Char) :
    Token.scanFrom (pos + n) cs
      = (Token.scanFrom pos cs).map (Token.shift n) := by
  fun_induction Token.scanFrom pos cs with
  | case1 pos => rw [Token.scanFrom, List.map_nil]
  | case2 pos c cs hc ih =>
    rw [Token.scanFrom_blank hc, Nat.add_right_comm]
    exact ih
  | case3 pos c cs hc lexeme stop ih =>
    rw [Token.scanFrom_first hc rfl, Nat.add_right_comm, List.map_cons]
    exact congrArg (_ :: ·) ih

theorem Text.byteSize_toList (a : String) :
    Text.byteSize a.toList = a.utf8ByteSize := by
  rw [← Text.utf8ByteSize_ofList, String.ofList_toList]

/-- The semicolon that begins `n` bytes into the source. -/
def Token.semicolonAt (n : Nat) : Token :=
  ⟨.semicolon, n, n + 1⟩

/-- **The tokens of two texts with a semicolon between them.** -/
theorem Token.scan_semicolon {a : String}
    (h : ∀ t ∈ Token.scan a, t.kind ≠ .unclosedString) (b : String) :
    Token.scan (a ++ ";" ++ b)
      = Token.scan a
        ++ .semicolonAt a.utf8ByteSize
        :: (Token.scan b).map (Token.shift (a.utf8ByteSize + 1)) := by
  have htext : (a ++ ";" ++ b).toList = a.toList ++ ([';'] ++ b.toList) := by
    rw [String.toList_append, String.toList_append, List.append_assoc]
    rfl
  have hsemicolon : Token.scanFrom (0 + Text.byteSize a.toList)
      ([';'] ++ b.toList) = .semicolonAt a.utf8ByteSize
        :: Token.scanFrom (a.utf8ByteSize + 1) b.toList := by
    have hspell : Kind.semicolon.SpelledAs [';'] := rfl
    have hends : Kind.semicolon.EndsBefore b.toList := by rintro ⟨⟩
    rw [Nat.zero_add, Text.byteSize_toList]
    exact Token.scanFrom_append hspell hends _
  unfold Token.scan at h ⊢
  rw [htext, (Token.cover_scanFrom 0 a.toList).scanFrom_append h, hsemicolon,
    ← Token.scanFrom_add, Nat.zero_add]
  rintro c ⟨⟩
  decide

/-! ## Blanks between texts -/

theorem Text.separates_blanks {ws : List Char} (hne : ws ≠ [])
    (hws : ∀ c ∈ ws, Text.isBlank c) (cs : List Char) :
    Text.Separates (ws ++ cs) := by
  obtain ⟨c, ws, rfl⟩ := List.exists_cons_of_ne_nil hne
  have hc := hws c List.mem_cons_self
  rintro d ⟨⟩
  refine ⟨fun hname => Text.not_isBlank_of_isNameChar hname hc, ?_⟩
  rintro rfl
  exact absurd hc (by decide)

/-- Blanks before a text move its tokens. -/
theorem Token.scanFrom_blanks {ws : List Char} (hws : ∀ c ∈ ws, Text.isBlank c)
    (pos : Nat) (cs : List Char) :
    Token.scanFrom pos (ws ++ cs)
      = Token.scanFrom (pos + Text.byteSize ws) cs := by
  induction ws generalizing pos with
  | nil => rfl
  | cons c ws ih =>
    rw [List.forall_mem_cons] at hws
    rw [List.cons_append, Token.scanFrom_blank hws.1, ih hws.2, Text.byteSize,
      Nat.add_assoc]

/-- **The tokens of two texts with blanks between them.** -/
theorem Token.scan_blanks {a : String}
    (h : ∀ t ∈ Token.scan a, t.kind ≠ .unclosedString) {w : String}
    (hne : w ≠ "") (hw : ∀ c ∈ w.toList, Text.isBlank c) (b : String) :
    Token.scan (a ++ w ++ b)
      = Token.scan a
        ++ (Token.scan b).map (Token.shift (a ++ w).utf8ByteSize) := by
  have hseparates : Text.Separates (w.toList ++ b.toList) :=
    Text.separates_blanks (mt String.toList_eq_nil_iff.1 hne) hw _
  have hsize : Text.byteSize a.toList + Text.byteSize w.toList
      = (a ++ w).utf8ByteSize := by
    rw [Text.byteSize_toList, Text.byteSize_toList, String.utf8ByteSize_append]
  unfold Token.scan at h ⊢
  rw [String.toList_append, String.toList_append, List.append_assoc,
    (Token.cover_scanFrom 0 a.toList).scanFrom_append h hseparates,
    Token.scanFrom_blanks hw, Nat.add_assoc, hsize, Token.scanFrom_add]

/-! ## Cutting a text behind a token -/

theorem Text.toList_space (a b : String) :
    (a ++ " " ++ b).toList = a.toList ++ ' ' :: b.toList := by
  rw [String.toList_append, String.toList_append, List.append_assoc]
  rfl

theorem Text.separates_space (cs : List Char) :
    Text.Separates (' ' :: cs) := by
  rintro c ⟨⟩
  decide

/-- **The tokens of two texts with a blank between them.** -/
theorem Token.scan_space {a : String}
    (h : ∀ t ∈ Token.scan a, t.kind ≠ .unclosedString) (b : String) :
    Token.scan (a ++ " " ++ b)
      = Token.scan a
        ++ (Token.scan b).map (Token.shift (a.utf8ByteSize + 1)) := by
  have hblank : ∀ c ∈ " ".toList, Text.isBlank c :=
    List.all_eq_true.1 (by decide)
  rw [Token.scan_blanks h (by decide) hblank, String.utf8ByteSize_append]
  rfl

theorem Token.Kind.EndsBefore.of_append {kind : Kind} {cs ds : List Char}
    (h : kind.EndsBefore (cs ++ ds)) : kind.EndsBefore cs := by
  cases cs with
  | nil => exact kind.endsBefore_nil
  | cons c cs =>
    cases kind with
    | unclosedString => cases h
    | _ => exact h

section

variable {pos : Nat} {cs : List Char} {tokens : List Token}

/-- A text has one list of tokens. -/
theorem Token.Cover.scanFrom_eq (h : Token.Cover pos cs tokens) :
    Token.scanFrom pos cs = tokens := by
  induction h with
  | nil => rw [Token.scanFrom]
  | blank hc _ ih => rw [Token.scanFrom_blank hc, ih]
  | token hspell hends _ ih => rw [Token.scanFrom_append hspell hends, ih]

/-- **The text up to the end of a token** has the tokens up to that token, and
what is left of the text has the tokens behind it. -/
theorem Token.Cover.cut (h : Token.Cover pos cs tokens)
    {front behind : List Token} {u : Token}
    (hsplit : tokens = front ++ u :: behind) :
    ∃ before after, cs = before ++ after
      ∧ u.stop = pos + Text.byteSize before
      ∧ Token.Cover pos before (front ++ [u])
      ∧ Token.Cover u.stop after behind := by
  induction h generalizing front with
  | nil => simp at hsplit
  | @blank pos c cs tokens hc _ ih =>
    obtain ⟨before, after, rfl, hstop, hcover, hrest⟩ := ih hsplit
    refine ⟨c :: before, after, rfl, ?_, .blank hc hcover, hrest⟩
    rw [hstop, Text.byteSize, Nat.add_assoc]
  | @token pos kind text rest tokens hspell hends hrest ih =>
    cases front with
    | nil =>
      obtain ⟨rfl, rfl⟩ := List.cons.inj hsplit
      have hcover : Token.Cover pos (text ++ []) [⟨kind, pos, _⟩] :=
        .token hspell kind.endsBefore_nil .nil
      rw [List.append_nil] at hcover
      exact ⟨text, rest, rfl, rfl, hcover, hrest⟩
    | cons t front =>
      obtain ⟨rfl, htokens⟩ := List.cons.inj hsplit
      obtain ⟨before, after, rfl, hstop, hcover, hrest⟩ := ih htokens
      refine ⟨text ++ before, after, (List.append_assoc _ _ _).symm, ?_,
        .token hspell hends.of_append hcover, hrest⟩
      rw [hstop, Text.byteSize_append, Nat.add_assoc]

/-- **A token that is not an open string is there whatever follows**, and so are
the tokens before it: only the last token of a text can be an open string. -/
theorem Token.Cover.scanFrom_front (h : Token.Cover pos cs tokens)
    {front behind : List Token} {u : Token}
    (hsplit : tokens = front ++ u :: behind)
    (hu : u.kind ≠ .unclosedString) {ds : List Char}
    (hds : Text.Separates ds) :
    ∃ behind', Token.scanFrom pos (cs ++ ds) = front ++ u :: behind' := by
  induction h generalizing front with
  | nil => simp at hsplit
  | @blank pos c cs tokens hc _ ih =>
    rw [List.cons_append, Token.scanFrom_blank hc]
    exact ih hsplit
  | @token pos kind text rest tokens hspell hends hcover ih =>
    cases front with
    | nil =>
      obtain ⟨rfl, -⟩ := List.cons.inj hsplit
      rw [List.append_assoc, Token.scanFrom_append hspell (hends.append hu hds)]
      exact ⟨_, rfl⟩
    | cons t front =>
      obtain ⟨rfl, htokens⟩ := List.cons.inj hsplit
      have hkind : kind ≠ .unclosedString := by
        rintro rfl
        obtain rfl : rest = [] := hends
        rw [hcover.tokens_nil] at htokens
        simp at htokens
      obtain ⟨behind', hscan⟩ := ih htokens
      rw [List.append_assoc,
        Token.scanFrom_append hspell (hends.append hkind hds), hscan]
      exact ⟨behind', rfl⟩

end

section

variable {source : String} {front behind : List Token} {u : Token}
  (hsplit : Token.scan source = front ++ u :: behind)
  (hu : u.kind ≠ .unclosedString)

include hsplit hu

/-- **A token of a source is there whatever follows the source.** -/
theorem Token.scan_front (c : String) :
    ∃ behind', Token.scan (source ++ " " ++ c) = front ++ u :: behind' := by
  rw [Token.scan, Text.toList_space]
  exact (Token.cover_scanFrom 0 source.toList).scanFrom_front hsplit hu
    (Text.separates_space _)

omit hu in
/-- **A source can be cut behind a token**: the text up to the end of the token
has the tokens up to it, and the text behind it has the others. -/
theorem Token.exists_cut :
    ∃ before after : List Char, source = String.ofList (before ++ after)
      ∧ String.Pos.Raw.extract source ⟨0⟩ ⟨u.stop⟩ = String.ofList before
      ∧ String.Pos.Raw.extract source ⟨u.stop⟩ source.rawEndPos
        = String.ofList after
      ∧ Token.Cover 0 before (front ++ [u])
      ∧ u.stop = Text.byteSize before
      ∧ Token.Cover u.stop after behind := by
  obtain ⟨before, after, hsource, hstop, hcover, hrest⟩ :=
    (Token.cover_scanFrom 0 source.toList).cut hsplit
  rw [Nat.zero_add] at hstop
  obtain rfl : source = String.ofList (before ++ after) := by
    rw [← hsource, String.ofList_toList]
  have hend : (String.ofList (before ++ after)).rawEndPos
      = ⟨Text.byteSize before + Text.byteSize after⟩ := by
    rw [← Text.byteSize_append, ← Text.utf8ByteSize_ofList]
    rfl
  have hfront := Text.extract_ofList_append [] before after
  have hback := Text.extract_ofList_append before after []
  rw [List.nil_append, Text.byteSize, Nat.zero_add] at hfront
  rw [List.append_nil] at hback
  rw [hend, hstop]
  exact ⟨before, after, rfl, hfront, hback, hcover, rfl, hstop ▸ hrest⟩

/-- The token is there whatever follows the cut. -/
theorem Token.scan_cut (c : String) :
    ∃ behind', Token.scan
        (String.Pos.Raw.extract source ⟨0⟩ ⟨u.stop⟩ ++ " " ++ c)
      = front ++ u :: behind' := by
  obtain ⟨before, after, -, hcut, -, hcover, -⟩ := Token.exists_cut hsplit
  rw [hcut, Token.scan, Text.toList_space, String.toList_ofList]
  exact hcover.scanFrom_front rfl hu (Text.separates_space _)

end

/-! ## Taking a text apart between its tokens -/

/-- Only the last token of a text can be an open string. -/
theorem Token.Cover.kind_ne_unclosedString {pos : Nat} {cs : List Char}
    {tokens : List Token} (h : Token.Cover pos cs tokens)
    (hlast : ∀ t ∈ tokens.getLast?, t.kind ≠ .unclosedString) :
    ∀ t ∈ tokens, t.kind ≠ .unclosedString := by
  intro t ht hkind
  exact hlast t (h.getLast?_of_unclosed ht hkind).2 hkind

theorem Token.shift_zero (t : Token) : t.shift 0 = t := rfl

/-- **Blanks may be put in where a token ends**: they move the tokens behind it,
and that is all. -/
theorem Token.scan_insert {source : String} {front behind : List Token}
    {u : Token} (hsplit : Token.scan source = front ++ u :: behind)
    (hu : u.kind ≠ .unclosedString) {w : String}
    (hw : ∀ c ∈ w.toList, Text.isBlank c) :
    Token.scan (String.Pos.Raw.extract source ⟨0⟩ ⟨u.stop⟩ ++ w
        ++ String.Pos.Raw.extract source ⟨u.stop⟩ source.rawEndPos)
      = front ++ u :: behind.map (Token.shift w.utf8ByteSize) := by
  obtain ⟨before, after, hsource, hcut, hrest, hcover, hstop, hbehind⟩ :=
    Token.exists_cut hsplit
  rw [hcut, hrest]
  by_cases hne : w = ""
  · have hmap : behind.map (Token.shift "".utf8ByteSize) = behind :=
      (List.map_congr_left fun t _ => t.shift_zero).trans (List.map_id behind)
    rw [hne, String.append_empty, ← String.ofList_append, ← hsource, hmap]
    exact hsplit
  · have hscan : Token.scan (String.ofList before) = front ++ [u] := by
      rw [Token.scan, String.toList_ofList]
      exact hcover.scanFrom_eq
    have hclosed : ∀ t ∈ Token.scan (String.ofList before),
        t.kind ≠ .unclosedString := by
      rw [hscan]
      refine hcover.kind_ne_unclosedString ?_
      rw [List.getLast?_concat]
      rintro t ⟨⟩
      exact hu
    -- The tokens behind are counted from the end of `u`, then from `w` on.
    have hmoved : (Token.scan (String.ofList after)).map
          (Token.shift (String.ofList before ++ w).utf8ByteSize)
        = behind.map (Token.shift w.utf8ByteSize) := by
      rw [Token.scan, String.toList_ofList, ← Token.scanFrom_add,
        String.utf8ByteSize_append, Text.utf8ByteSize_ofList, ← hstop,
        ← Nat.add_assoc, Token.scanFrom_add, Nat.zero_add, hbehind.scanFrom_eq]
    rw [Token.scan_blanks hclosed hne hw, hscan, hmoved, List.append_assoc]
    rfl

/-- **A text can be taken apart between its tokens.** Two texts with blanks
between them have the tokens of the one and then those of the other, moved by
what stands before, unless the first ends within a string. A source can be cut
behind every token that is not an open string: the part before the cut has the
tokens up to that one. And where blanks are put in there, the tokens up to that
one stay and the others are moved by the size of the blanks. -/
theorem Token.scan_apart :
    (∀ a w b : String, w ≠ "" → (∀ c ∈ w.toList, Text.isBlank c) →
      (∀ t ∈ (Token.scan a).getLast?, t.kind ≠ .unclosedString) →
      Token.scan (a ++ w ++ b)
        = Token.scan a
          ++ (Token.scan b).map (Token.shift (a ++ w).utf8ByteSize))
    ∧ ∀ (source : String) (front behind : List Token) (u : Token),
      Token.scan source = front ++ u :: behind → u.kind ≠ .unclosedString →
      Token.scan (String.Pos.Raw.extract source ⟨0⟩ ⟨u.stop⟩) = front ++ [u]
      ∧ String.Pos.Raw.extract source ⟨0⟩ ⟨u.stop⟩
          ++ String.Pos.Raw.extract source ⟨u.stop⟩ source.rawEndPos = source
      ∧ ∀ w : String, (∀ c ∈ w.toList, Text.isBlank c) →
        Token.scan (String.Pos.Raw.extract source ⟨0⟩ ⟨u.stop⟩ ++ w
            ++ String.Pos.Raw.extract source ⟨u.stop⟩ source.rawEndPos)
          = front ++ u :: behind.map (Token.shift w.utf8ByteSize) := by
  refine ⟨?_, ?_⟩
  · intro a w b hne hw hlast
    have hclosed :=
      (Token.cover_scanFrom 0 a.toList).kind_ne_unclosedString hlast
    exact Token.scan_blanks hclosed hne hw b
  · intro source front behind u hsplit hu
    obtain ⟨before, after, hsource, hcut, hrest, hcover, -⟩ :=
      Token.exists_cut hsplit
    refine ⟨?_, ?_, fun w hw => Token.scan_insert hsplit hu hw⟩
    · rw [hcut, Token.scan, String.toList_ofList]
      exact hcover.scanFrom_eq
    · rw [hcut, hrest, ← String.ofList_append, ← hsource]

/-- An operator of two characters comes apart at a line break put between them,
but stays whole where a space is put in behind it. The string that is open at
the end is moved like any other token. -/
theorem Token.scan_apart_of_equals :
    ((∀ t ∈ (Token.scan "x=").getLast?, t.kind ≠ .unclosedString)
      ∧ Token.scan ("x=" ++ "\n" ++ "=\"é")
        = Token.scan "x="
          ++ (Token.scan "=\"é").map (Token.shift ("x=" ++ "\n").utf8ByteSize))
    ∧ Token.scan "x==\"é"
      = [⟨.ident "x", 0, 1⟩] ++ ⟨.equal, 1, 3⟩ :: [⟨.unclosedString, 3, 6⟩]
    ∧ Token.scan (String.Pos.Raw.extract "x==\"é" ⟨0⟩ ⟨3⟩ ++ "\u3000"
          ++ String.Pos.Raw.extract "x==\"é" ⟨3⟩ "x==\"é".rawEndPos)
      = [⟨.ident "x", 0, 1⟩] ++ ⟨.equal, 1, 3⟩
        :: [⟨.unclosedString, 3, 6⟩].map (Token.shift "\u3000".utf8ByteSize) := by
  have hfirst : Token.scan "x=" = [⟨.ident "x", 0, 1⟩, ⟨.assign, 1, 2⟩] := by
    decide +kernel
  have hsecond : Token.scan "x==\"é"
      = [⟨.ident "x", 0, 1⟩] ++ ⟨.equal, 1, 3⟩
        :: [⟨.unclosedString, 3, 6⟩] := by
    decide +kernel
  have hlast : ∀ t ∈ (Token.scan "x=").getLast?, t.kind ≠ .unclosedString := by
    rw [hfirst]
    rintro t ⟨⟩
    decide
  refine ⟨⟨hlast, ?_⟩, hsecond, ?_⟩
  · exact Token.scan_apart.1 _ _ _ (by decide) (List.all_eq_true.1 (by decide))
      hlast
  · exact (Token.scan_apart.2 _ _ _ _ hsecond (by decide)).2.2 _
      (List.all_eq_true.1 (by decide))

end Monkey
