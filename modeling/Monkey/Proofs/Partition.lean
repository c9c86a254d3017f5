import Mathlib.Data.String.Basic
import Monkey.Proofs.Spelling

/-!
# The tokens of a source partition it

The spans of the tokens of a source lie one behind the other and are separated
by blanks only; every span begins and ends between two characters; the text of
a span is the spelling of its token, and no token stops where it could have
gone on. `Token.Partition` puts these properties together, and
`Token.partition_scan` is the statement that the scanner has all of them.

Offsets are bytes, as in the tokens themselves, while the scanner works on
characters. So the properties are stated with the operations of strings on
byte offsets – `String.Pos.Raw.get?`, `String.Pos.Raw.extract` and the validity
of a position – and a first section says what these are on a text that is
given in two or three parts.
-/

namespace Monkey

open Token (Kind)

/-! ## Offsets in a text that is given in parts -/

namespace Text

theorem byteSize_eq_utf8Len (cs : List Char) :
    byteSize cs = String.utf8Len cs := by
  induction cs with
  | nil => rfl
  | cons c cs ih => rw [byteSize, String.utf8Len_cons, ih, Nat.add_comm]

theorem byteSize_append (cs ds : List Char) :
    byteSize (cs ++ ds) = byteSize cs + byteSize ds := by
  simp only [byteSize_eq_utf8Len, String.utf8Len_append]

theorem byteSize_pos {cs : List Char} (h : cs ≠ []) : 0 < byteSize cs := by
  rw [byteSize_eq_utf8Len]
  exact Nat.pos_of_ne_zero fun hzero => h (String.utf8Len_eq_zero.1 hzero)

theorem utf8ByteSize_ofList (cs : List Char) :
    (String.ofList cs).utf8ByteSize = byteSize cs := by
  rw [String.utf8ByteSize_ofList, byteSize_eq_utf8Len]

/-- A position between two parts of a text is valid. -/
theorem isValid_ofList_append (before after : List Char) :
    String.Pos.Raw.IsValid (String.ofList (before ++ after))
      ⟨byteSize before⟩ := by
  refine String.Pos.Raw.isValid_iff_exists_append.2
    ⟨String.ofList before, String.ofList after, String.ofList_append, ?_⟩
  rw [← utf8ByteSize_ofList]
  rfl

/-- The character behind the first part of a text. -/
theorem get?_ofList_append (before after : List Char) :
    String.Pos.Raw.get? (String.ofList (before ++ after)) ⟨byteSize before⟩
      = after.head? := by
  rw [byteSize_eq_utf8Len]
  exact String.get?_of_valid before after

theorem exists_of_utf8GetAux? {cs : List Char} {p offset : Nat} {c : Char}
    (h : String.Pos.Raw.utf8GetAux? cs ⟨p⟩ ⟨offset⟩ = some c) :
    ∃ before after, cs = before ++ c :: after
      ∧ offset = p + byteSize before := by
  induction cs generalizing p with
  | nil => cases h
  | cons d ds ih =>
    rw [String.Pos.Raw.utf8GetAux?] at h
    split at h
    · rename_i heq
      obtain rfl : d = c := Option.some.inj h
      have heq : p = offset := congrArg (·.byteIdx) heq
      exact ⟨[], ds, rfl, heq.symm⟩
    · obtain ⟨before, after, rfl, hoffset⟩ := ih h
      refine ⟨d :: before, after, rfl, ?_⟩
      rw [hoffset, byteSize, Nat.add_assoc]

/-- Where a character is, the text is in two parts. -/
theorem exists_of_get? {source : String} {offset : Nat} {c : Char}
    (h : String.Pos.Raw.get? source ⟨offset⟩ = some c) :
    ∃ before after, source.toList = before ++ c :: after
      ∧ offset = byteSize before := by
  obtain ⟨before, after, hsource, hoffset⟩ :=
    exists_of_utf8GetAux? (p := 0) h
  exact ⟨before, after, hsource, by rw [hoffset, Nat.zero_add]⟩

/-- The slice between two offsets is the part of the text between them. -/
theorem extract_ofList_append (before text after : List Char) :
    String.Pos.Raw.extract (String.ofList (before ++ (text ++ after)))
        ⟨byteSize before⟩ ⟨byteSize before + byteSize text⟩
      = String.ofList text := by
  rw [byteSize_eq_utf8Len, byteSize_eq_utf8Len, ← List.append_assoc]
  exact String.extract_of_valid before text after

end Text

/-! ## What a cover says of its tokens -/

namespace Token.Cover

variable {pos : Nat} {cs : List Char} {tokens : List Token}

/-- **Every token is a part of the text**: what stands before it, its spelling
and what stands behind it. -/
theorem split (h : Token.Cover pos cs tokens) {t : Token} (ht : t ∈ tokens) :
    ∃ before text after, cs = before ++ (text ++ after)
      ∧ t.start = pos + Text.byteSize before
      ∧ t.stop = t.start + Text.byteSize text
      ∧ t.kind.SpelledAs text ∧ t.kind.EndsBefore after := by
  induction h with
  | nil => cases ht
  | @blank pos c cs tokens _ _ ih =>
    obtain ⟨before, text, after, rfl, hstart, hrest⟩ := ih ht
    refine ⟨c :: before, text, after, rfl, ?_, hrest⟩
    rw [hstart, Text.byteSize, Nat.add_assoc]
  | @token pos kind piece rest tokens hspell hends _ ih =>
    obtain rfl | ht := List.mem_cons.1 ht
    · exact ⟨[], piece, rest, rfl, rfl, rfl, hspell, hends⟩
    · obtain ⟨before, text, after, rfl, hstart, hrest⟩ := ih ht
      refine ⟨piece ++ before, text, after, by simp, ?_, hrest⟩
      rw [hstart, Text.byteSize_append, Nat.add_assoc]

theorem start_ge (h : Token.Cover pos cs tokens) {t : Token}
    (ht : t ∈ tokens) : pos ≤ t.start := by
  obtain ⟨before, text, after, -, hstart, -⟩ := h.split ht
  omega

theorem tokens_nil (h : Token.Cover pos [] tokens) : tokens = [] := by
  refine List.eq_nil_iff_forall_not_mem.2 ?_
  intro t ht
  obtain ⟨before, text, after, heq, -, -, hspell, -⟩ := h.split ht
  obtain ⟨-, htext⟩ := List.append_eq_nil_iff.1 heq.symm
  exact hspell.ne_nil (List.append_eq_nil_iff.1 htext).1

/-- The tokens stand one behind the other. -/
theorem pairwise (h : Token.Cover pos cs tokens) :
    tokens.Pairwise fun t u => t.stop ≤ u.start := by
  induction h with
  | nil => exact .nil
  | blank _ _ ih => exact ih
  | token _ _ h ih => exact .cons (fun u hu => h.start_ge hu) ih

/-- A character that no token takes is blank. -/
theorem blank_of_forall_not_mem (h : Token.Cover pos cs tokens)
    {before after : List Char} {c : Char} (hcs : cs = before ++ c :: after)
    (hfree : ∀ t ∈ tokens, ¬ (t.start ≤ pos + Text.byteSize before
      ∧ pos + Text.byteSize before < t.stop)) : Text.isBlank c := by
  induction h generalizing before with
  | nil => simp at hcs
  | @blank pos d cs tokens hd _ ih =>
    cases before with
    | nil =>
      obtain ⟨rfl, -⟩ := List.cons.inj hcs
      exact hd
    | cons b before =>
      obtain ⟨rfl, htail⟩ := List.cons.inj hcs
      refine ih htail ?_
      intro t ht
      rw [Nat.add_assoc]
      exact hfree t ht
  | @token pos kind text rest tokens hspell _ _ ih =>
    -- The first token does not take the character, which therefore stands
    -- behind the text of the token.
    have hfirst : Text.byteSize text ≤ Text.byteSize before := by
      have := hfree _ List.mem_cons_self
      dsimp only at this
      omega
    obtain ⟨rest', rfl, hrest⟩ : ∃ rest', before = text ++ rest'
        ∧ rest = rest' ++ c :: after := by
      obtain h | ⟨bs, htext, hbs⟩ := List.append_eq_append_iff.1 hcs
      · exact h
      · cases bs with
        | nil => exact ⟨[], by simpa using htext.symm, hbs.symm⟩
        | cons b bs =>
          rw [htext, Text.byteSize_append] at hfirst
          have := Text.byteSize_pos (List.cons_ne_nil b bs)
          omega
    refine ih hrest ?_
    intro t ht
    rw [Nat.add_assoc, ← Text.byteSize_append]
    exact hfree t (List.mem_cons_of_mem _ ht)

/-- Nothing follows a string whose closing quote is missing. -/
theorem getLast?_of_unclosed (h : Token.Cover pos cs tokens) {t : Token}
    (ht : t ∈ tokens) (hkind : t.kind = .unclosedString) :
    t.stop = pos + Text.byteSize cs ∧ tokens.getLast? = some t := by
  induction h with
  | nil => cases ht
  | @blank pos c cs tokens _ _ ih =>
    obtain ⟨hstop, hlast⟩ := ih ht
    refine ⟨?_, hlast⟩
    rw [hstop, Text.byteSize, Nat.add_assoc]
  | @token pos kind text rest tokens _ hends hrest ih =>
    obtain rfl | ht := List.mem_cons.1 ht
    · obtain rfl : kind = .unclosedString := hkind
      obtain rfl : rest = [] := hends
      rw [hrest.tokens_nil]
      exact ⟨by simp, rfl⟩
    · obtain ⟨hstop, hlast⟩ := ih ht
      refine ⟨?_, ?_⟩
      · rw [hstop, Text.byteSize_append, Nat.add_assoc]
      · rw [List.getLast?_cons, hlast]
        rfl

end Token.Cover

/-! ## The partition -/

/-- **Tokens that partition a source.** -/
structure Token.Partition (source : String) (tokens : List Token) :
    Prop where
  /-- Spans are not empty and lie within the source. -/
  spans : ∀ t ∈ tokens, t.start < t.stop ∧ t.stop ≤ source.utf8ByteSize
  /-- Each span ends before the next one begins. -/
  ordered : tokens.Pairwise fun t u => t.stop ≤ u.start
  /-- Spans begin and end between characters. -/
  boundaries : ∀ t ∈ tokens, String.Pos.Raw.IsValid source ⟨t.start⟩
    ∧ String.Pos.Raw.IsValid source ⟨t.stop⟩
  /-- Outside of the spans there are only blanks. -/
  gaps : ∀ (offset : Nat) (c : Char),
    String.Pos.Raw.get? source ⟨offset⟩ = some c →
    (∀ t ∈ tokens, ¬ (t.start ≤ offset ∧ offset < t.stop)) → Text.isBlank c
  /-- The text of a span spells its token. -/
  spelled : ∀ t ∈ tokens, t.kind.SpelledAs
    (String.Pos.Raw.extract source ⟨t.start⟩ ⟨t.stop⟩).toList
  /-- The text of a span alone is that token. -/
  determined : ∀ t ∈ tokens,
    Token.scan (String.Pos.Raw.extract source ⟨t.start⟩ ⟨t.stop⟩)
      = [⟨t.kind, 0, t.stop - t.start⟩]
  /-- The content of a string is what stands between its quotes. -/
  contents : ∀ t ∈ tokens, ∀ content : String, t.kind = .str content →
    String.Pos.Raw.IsValid source ⟨t.start + 1⟩
      ∧ String.Pos.Raw.IsValid source ⟨t.stop - 1⟩
      ∧ String.Pos.Raw.extract source ⟨t.start + 1⟩ ⟨t.stop - 1⟩ = content
  /-- A string whose closing quote is missing reaches the end of the source
  and is the last token. -/
  unclosed : ∀ t ∈ tokens, t.kind = .unclosedString →
    t.stop = source.utf8ByteSize ∧ tokens.getLast? = some t
  /-- No token stops where it could have gone on. -/
  maximal : ∀ t ∈ tokens, ∀ c : Char,
    String.Pos.Raw.get? source ⟨t.stop⟩ = some c →
    (t.kind.isWord → ¬ (c.isAlpha ∨ c.isDigit ∨ c = '_'))
      ∧ (∀ digits : String, t.kind = .int digits → ¬ c.isDigit)
      ∧ (t.kind = .assign ∨ t.kind = .bang → c ≠ '=')

/-- A token of a source, with what stands before and behind it. -/
theorem Token.split_of_mem_scan {source : String} {t : Token}
    (ht : t ∈ Token.scan source) :
    ∃ before text after, source = String.ofList (before ++ (text ++ after))
      ∧ t.start = Text.byteSize before
      ∧ t.stop = Text.byteSize before + Text.byteSize text
      ∧ t.kind.SpelledAs text ∧ t.kind.EndsBefore after := by
  obtain ⟨before, text, after, hsource, hstart, hstop, hrest⟩ :=
    (Token.cover_scanFrom 0 source.toList).split ht
  rw [Nat.zero_add] at hstart
  rw [hstart] at hstop
  refine ⟨before, text, after, ?_, hstart, hstop, hrest⟩
  rw [← hsource, String.ofList_toList]

/-- A text that spells a token is scanned as that token. -/
theorem Token.scan_of_spelledAs {kind : Kind} {text : List Char}
    (h : kind.SpelledAs text) :
    Token.scan (String.ofList text) = [⟨kind, 0, Text.byteSize text⟩] := by
  have hscan := Token.scanFrom_append h kind.endsBefore_nil 0
  rw [List.append_nil, Nat.zero_add, Token.scanFrom] at hscan
  unfold Token.scan
  rw [String.toList_ofList, hscan]

/-- **The tokens of a source partition it.** -/
theorem Token.partition_scan (source : String) :
    Token.Partition source (Token.scan source) := by
  have hcover := Token.cover_scanFrom 0 source.toList
  have hsize : Text.byteSize source.toList = source.utf8ByteSize := by
    rw [← Text.utf8ByteSize_ofList, String.ofList_toList]
  constructor
  case spans =>
    intro t ht
    obtain ⟨before, text, after, rfl, hstart, hstop, hspell, -⟩ :=
      Token.split_of_mem_scan ht
    have hpos := Text.byteSize_pos hspell.ne_nil
    rw [Text.utf8ByteSize_ofList, Text.byteSize_append, Text.byteSize_append]
    omega
  case ordered => exact hcover.pairwise
  case boundaries =>
    intro t ht
    obtain ⟨before, text, after, rfl, hstart, hstop, -⟩ :=
      Token.split_of_mem_scan ht
    rw [hstart, hstop]
    refine ⟨Text.isValid_ofList_append _ _, ?_⟩
    rw [← Text.byteSize_append, ← List.append_assoc]
    exact Text.isValid_ofList_append _ _
  case gaps =>
    intro offset c hget hfree
    obtain ⟨before, after, hsource, hoffset⟩ := Text.exists_of_get? hget
    refine hcover.blank_of_forall_not_mem hsource ?_
    rw [Nat.zero_add, ← hoffset]
    exact hfree
  case spelled =>
    intro t ht
    obtain ⟨before, text, after, rfl, hstart, hstop, hspell, -⟩ :=
      Token.split_of_mem_scan ht
    rw [hstart, hstop, Text.extract_ofList_append, String.toList_ofList]
    exact hspell
  case determined =>
    intro t ht
    obtain ⟨before, text, after, rfl, hstart, hstop, hspell, -⟩ :=
      Token.split_of_mem_scan ht
    rw [hstart, hstop, Text.extract_ofList_append, Nat.add_sub_cancel_left]
    exact Token.scan_of_spelledAs hspell
  case contents =>
    intro t ht content hkind
    obtain ⟨before, text, after, rfl, hstart, hstop, hspell, -⟩ :=
      Token.split_of_mem_scan ht
    rw [hkind] at hspell
    obtain ⟨rfl, -⟩ := hspell
    have hquote : Text.byteSize ['"'] = 1 := by decide
    have hleft : t.start + 1 = Text.byteSize (before ++ ['"']) := by
      rw [hstart, Text.byteSize_append, hquote]
    have hright : t.stop - 1 = Text.byteSize (before ++ ['"'])
        + Text.byteSize content.toList := by
      rw [← hleft, hstart, hstop, ← List.singleton_append,
        Text.byteSize_append, Text.byteSize_append, hquote]
      omega
    have hparts : before ++ ('"' :: (content.toList ++ ['"']) ++ after)
        = before ++ ['"'] ++ (content.toList ++ '"' :: after) := by simp
    rw [hleft, hright, hparts, Text.extract_ofList_append,
      String.ofList_toList]
    refine ⟨Text.isValid_ofList_append _ _, ?_, rfl⟩
    rw [← Text.byteSize_append, ← List.append_assoc]
    exact Text.isValid_ofList_append _ _
  case unclosed =>
    intro t ht hkind
    have h := hcover.getLast?_of_unclosed ht hkind
    rw [Nat.zero_add, hsize] at h
    exact h
  case maximal =>
    intro t ht c hget
    obtain ⟨before, text, after, rfl, hstart, hstop, hspell, hends⟩ :=
      Token.split_of_mem_scan ht
    rw [hstop, ← Text.byteSize_append, ← List.append_assoc,
      Text.get?_ofList_append] at hget
    refine ⟨fun hword => ?_, fun digits hkind => ?_, fun hkind => ?_⟩
    · have hc := (Kind.endsBefore_iff_of_isWord hword).1 hends c hget
      rwa [Text.isNameChar_iff] at hc
    · rw [hkind] at hends
      exact hends c hget
    · obtain hkind | hkind := hkind <;> rw [hkind] at hends <;>
        exact hends c hget

end Monkey
