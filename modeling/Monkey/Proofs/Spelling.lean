import Monkey.Token.Scan

/-!
# How tokens are spelled

What a token looks like in a source, said without a scanner: `SpelledAs` gives
the texts that spell a kind, and `EndsBefore` what may stand directly behind
such a text for the token to end there. Between them they say all about the
scanner: the first lexeme of a text is the one that is spelled by a front part
of the text and ends before the rest (`Lexeme.first_eq_iff`).

Words – names and keywords – and runs of digits go on as long as they can, and
so does an operator that could take an equals sign. A string whose closing
quote is missing goes on to the end of the text.
-/

namespace Monkey

open Token (Kind)

/-- A text that is a name: a letter or an underscore, then letters, digits and
underscores. -/
def Text.IsName (text : List Char) : Prop :=
  ∃ c cs, text = c :: cs ∧ Text.isNameStart c ∧ ∀ d ∈ cs, Text.isNameChar d

/-- **A character that begins no token**: not a blank either. -/
def Text.IsStray (c : Char) : Prop :=
  ¬ Text.isBlank c ∧ ¬ Text.isNameStart c ∧ ¬ c.isDigit
    ∧ c ≠ '=' ∧ c ≠ '!' ∧ c ≠ '"' ∧ Kind.ofChar? c = none

namespace Token.Kind

/-- The names that are keywords. -/
def keywords : List String :=
  ["fn", "let", "true", "false", "if", "else", "return"]

/-- The spelling of a kind that has only one: a keyword is spelled in small
letters, an operator or a delimiter as it is called. -/
def spelling : Kind → String
  | kwFn => "fn"
  | kwLet => "let"
  | kwTrue => "true"
  | kwFalse => "false"
  | kwIf => "if"
  | kwElse => "else"
  | kwReturn => "return"
  | kind => kind.label

/-- **The texts that spell a kind.** -/
def SpelledAs : Kind → List Char → Prop
  | ident name, text =>
    text = name.toList ∧ Text.IsName text ∧ name ∉ keywords
  | int digits, text =>
    text = digits.toList ∧ text ≠ [] ∧ ∀ c ∈ text, c.isDigit
  | str content, text =>
    text = '"' :: (content.toList ++ ['"']) ∧ '"' ∉ content.toList
  | unclosedString, text => ∃ content, text = '"' :: content ∧ '"' ∉ content
  | illegal content, text =>
    text = content.toList ∧ ∃ c, text = [c] ∧ Text.IsStray c
  | kind, text => text = kind.spelling.toList

/-- Whether a kind has only one spelling. -/
def isFixed : Kind → Bool
  | illegal _ | unclosedString | ident _ | int _ | str _ => false
  | _ => true

theorem spelledAs_iff_of_isFixed {kind : Kind} (h : kind.isFixed)
    {text : List Char} :
    kind.SpelledAs text ↔ text = kind.spelling.toList := by
  cases kind <;> first | exact Iff.rfl | cases h

theorem spelledAs_of_isFixed {kind : Kind} (h : kind.isFixed)
    {text : List Char} (htext : kind.spelling.toList = text) :
    kind.SpelledAs text :=
  (spelledAs_iff_of_isFixed h).2 htext.symm

/-- Whether a kind is a name or a keyword. -/
def isWord : Kind → Bool
  | ident _ | kwFn | kwLet | kwTrue | kwFalse | kwIf | kwElse | kwReturn => true
  | _ => false

/-- **What may follow a kind directly**, for a token to end there. -/
def EndsBefore (kind : Kind) (rest : List Char) : Prop :=
  match kind with
  | int _ => ∀ c ∈ rest.head?, ¬ c.isDigit
  | assign | bang => ∀ c ∈ rest.head?, c ≠ '='
  | unclosedString => rest = []
  | kind => kind.isWord → ∀ c ∈ rest.head?, ¬ Text.isNameChar c

theorem endsBefore_nil (kind : Kind) : kind.EndsBefore [] := by
  cases kind <;> simp [EndsBefore]

/-- A word ends before what cannot stand in a word. -/
theorem endsBefore_iff_of_isWord {kind : Kind} (hword : kind.isWord)
    {rest : List Char} :
    kind.EndsBefore rest ↔ ∀ c ∈ rest.head?, ¬ Text.isNameChar c := by
  cases kind <;> first | exact forall_prop_of_true hword | cases hword

end Token.Kind

/-! ## Runs of characters -/

namespace Text

/-- A run ends where the characters of its class do. -/
theorem takeWhile_append {p : Char → Bool} {cs rest : List Char}
    (hcs : ∀ c ∈ cs, p c) (hrest : ∀ c ∈ rest.head?, ¬ p c) :
    (cs ++ rest).takeWhile p = cs ∧ (cs ++ rest).dropWhile p = rest := by
  rw [List.takeWhile_append_of_pos hcs, List.dropWhile_append_of_pos hcs]
  cases rest with
  | nil => simp
  | cons c rest =>
    have hc : p c = false := by simpa using hrest c rfl
    simp [hc]

theorem takeWhile_all {p : Char → Bool} (cs : List Char) :
    ∀ c ∈ cs.takeWhile p, p c :=
  List.all_eq_true.1 List.all_takeWhile

theorem dropWhile_head {p : Char → Bool} (cs : List Char) :
    ∀ c ∈ (cs.dropWhile p).head?, ¬ p c := by
  intro c hc
  have := List.head?_dropWhile_not p cs
  rw [hc] at this
  simpa using this

/-- The codes of letters. -/
theorem isAlpha_iff {c : Char} : c.isAlpha ↔
    (65 ≤ c.toNat ∧ c.toNat ≤ 90) ∨ (97 ≤ c.toNat ∧ c.toNat ≤ 122) := by
  have hupper : c.isUpper ↔ 65 ≤ c.toNat ∧ c.toNat ≤ 90 := decide_eq_true_iff
  have hlower : c.isLower ↔ 97 ≤ c.toNat ∧ c.toNat ≤ 122 := by
    show (decide (c.val ≥ 'a'.val) && decide (c.val ≤ 'z'.val)) = true ↔ _
    rw [Bool.and_eq_true, decide_eq_true_iff, decide_eq_true_iff]
    exact Iff.rfl
  show (c.isUpper || c.isLower) = true ↔ _
  rw [Bool.or_eq_true, hupper, hlower]

/-- The codes of digits. -/
theorem isDigit_iff {c : Char} : c.isDigit ↔ 48 ≤ c.toNat ∧ c.toNat ≤ 57 := by
  show (decide (c.val ≥ '0'.val) && decide (c.val ≤ '9'.val)) = true ↔ _
  rw [Bool.and_eq_true, decide_eq_true_iff, decide_eq_true_iff]
  exact Iff.rfl

theorem isNameStart_iff {c : Char} :
    isNameStart c ↔ c.isAlpha ∨ c = '_' := by
  simp [isNameStart]

theorem isNameChar_iff {c : Char} :
    isNameChar c ↔ c.isAlpha ∨ c.isDigit ∨ c = '_' := by
  show ((c.isAlpha || c.isDigit) || c == '_') = true ↔ _
  simp [or_assoc]

theorem not_isNameStart_of_isDigit {c : Char} (h : c.isDigit) :
    ¬ isNameStart c := by
  rw [isNameStart_iff, isAlpha_iff]
  rintro (halpha | rfl)
  · have hdigit := isDigit_iff.1 h
    omega
  · cases h

theorem forall_ne_quote {cs : List Char} (h : '"' ∉ cs) :
    ∀ c ∈ cs, (c ≠ '"' : Bool) := by
  intro c hc
  refine decide_eq_true ?_
  rintro rfl
  exact h hc

end Text

/-! ## Words -/

namespace Token.Kind

theorem isWord_ofName (name : String) : (ofName name).isWord := by
  unfold ofName
  repeat' split
  all_goals rfl

theorem ofName_of_notMem {name : String} (h : name ∉ keywords) :
    ofName name = ident name := by
  simp_all [keywords, ofName]

theorem spelledAs_ofName {name : String} (h : Text.IsName name.toList) :
    (ofName name).SpelledAs name.toList := by
  by_cases hname : name ∈ keywords
  · simp only [keywords, List.mem_cons, List.not_mem_nil, or_false] at hname
    rcases hname with rfl | rfl | rfl | rfl | rfl | rfl | rfl <;> rfl
  · rw [ofName_of_notMem hname]
    exact ⟨rfl, h, hname⟩

/-- A word is spelled as a name, and the name says which word it is. -/
theorem SpelledAs.ofName_eq {kind : Kind} {text : List Char}
    (hword : kind.isWord) (h : kind.SpelledAs text) :
    Text.IsName text ∧ ofName (String.ofList text) = kind := by
  cases kind with
  | ident name =>
    obtain ⟨rfl, hname, hkeyword⟩ := h
    refine ⟨hname, ?_⟩
    rw [String.ofList_toList, ofName_of_notMem hkeyword]
  | kwFn | kwLet | kwTrue | kwFalse | kwIf | kwElse | kwReturn =>
    obtain rfl := h
    exact ⟨⟨_, _, rfl, by decide, List.all_eq_true.1 (by decide)⟩, by decide⟩
  | _ => cases hword

end Token.Kind

/-! ## The first lexeme -/

namespace Lexeme

/-- **A lexeme that is cut off rightly**: its text spells its kind, and it
ends where it should. -/
def IsToken (lexeme : Lexeme) : Prop :=
  lexeme.kind.SpelledAs lexeme.text ∧ lexeme.kind.EndsBefore lexeme.rest

theorem isToken_run_ofName {c : Char} (hc : Text.isNameStart c)
    (cs : List Char) : (run .ofName Text.isNameChar c cs).IsToken := by
  constructor
  · have hname : Text.IsName
        (String.ofList (c :: cs.takeWhile Text.isNameChar)).toList := by
      rw [String.toList_ofList]
      exact ⟨c, _, rfl, hc, Text.takeWhile_all cs⟩
    simpa [run] using Kind.spelledAs_ofName hname
  · have hword := Kind.isWord_ofName
      (String.ofList (c :: cs.takeWhile Text.isNameChar))
    have hrest := Text.dropWhile_head (p := Text.isNameChar) cs
    unfold run
    generalize Kind.ofName _ = kind at hword
    cases kind <;> first | exact fun _ => hrest | cases hword

theorem isToken_run_int {c : Char} (hc : c.isDigit) (cs : List Char) :
    (run .int Char.isDigit c cs).IsToken := by
  constructor
  · refine ⟨by simp [run], by simp [run], ?_⟩
    intro d hd
    obtain rfl | hd := List.mem_cons.1 hd
    · exact hc
    · exact Text.takeWhile_all cs d hd
  · exact Text.dropWhile_head cs

theorem isToken_quoted (cs : List Char) : (quoted '"' cs).IsToken := by
  have hbody : '"' ∉ cs.takeWhile (· ≠ '"') := by
    intro h
    simpa using Text.takeWhile_all cs _ h
  unfold quoted
  dsimp only
  split
  · exact ⟨⟨_, rfl, hbody⟩, rfl⟩
  · rename_i q rest hrest
    have hq := Text.dropWhile_head (p := (· ≠ '"')) cs q (by rw [hrest]; rfl)
    obtain rfl : q = '"' := by simpa using hq
    exact ⟨⟨by simp, by simpa using hbody⟩, by rintro ⟨⟩⟩

theorem isToken_withEquals {alone joined : Kind} {c : Char}
    (h : alone = .assign ∧ joined = .equal ∧ c = '='
      ∨ alone = .bang ∧ joined = .notEqual ∧ c = '!') (cs : List Char) :
    (withEquals alone joined c cs).IsToken := by
  have hspell : alone.SpelledAs [c] ∧ joined.SpelledAs [c, '='] := by
    obtain ⟨rfl, rfl, rfl⟩ | ⟨rfl, rfl, rfl⟩ := h
    · exact ⟨Kind.spelledAs_of_isFixed rfl (by decide),
        Kind.spelledAs_of_isFixed rfl (by decide)⟩
    · exact ⟨Kind.spelledAs_of_isFixed rfl (by decide),
        Kind.spelledAs_of_isFixed rfl (by decide)⟩
  unfold withEquals
  split
  · refine ⟨hspell.2, ?_⟩
    obtain ⟨-, rfl, -⟩ | ⟨-, rfl, -⟩ := h <;> rintro ⟨⟩
  · rename_i hcs
    have hrest : ∀ d ∈ cs.head?, d ≠ '=' := by
      rintro d hd rfl
      obtain ⟨rest, rfl⟩ := List.head?_eq_some_iff.1 hd
      exact hcs rest rfl
    refine ⟨hspell.1, ?_⟩
    obtain ⟨rfl, -⟩ | ⟨rfl, -⟩ := h <;> exact hrest

theorem isToken_single {c : Char} {kind : Kind} (h : Kind.ofChar? c = some kind)
    (cs : List Char) : (single kind c cs).IsToken := by
  have hkind : kind.isFixed ∧ kind.spelling.toList = [c]
      ∧ ∀ rest, kind.EndsBefore rest := by
    unfold Kind.ofChar? at h
    split at h <;> cases h <;> exact ⟨rfl, by decide, by rintro _ ⟨⟩⟩
  exact ⟨Kind.spelledAs_of_isFixed hkind.1 hkind.2.1, hkind.2.2 cs⟩

/-- **The first lexeme is a token.** -/
theorem isToken_first {c : Char} (hc : ¬ Text.isBlank c) (cs : List Char) :
    (first c cs).IsToken := by
  unfold first
  split
  · exact isToken_withEquals (.inl ⟨rfl, rfl, ‹_›⟩) cs
  · split
    · exact isToken_withEquals (.inr ⟨rfl, rfl, ‹_›⟩) cs
    · split
      · rename_i hq
        rw [hq]
        exact isToken_quoted cs
      · split
        · exact isToken_run_ofName ‹_› cs
        · split
          · exact isToken_run_int ‹_› cs
          · split
            · exact isToken_single ‹_› cs
            · refine ⟨⟨by simp [single], c, rfl, ?_⟩, by rintro ⟨⟩⟩
              unfold Text.IsStray
              simp_all

/-- A letter or an underscore begins a word. -/
theorem first_of_isNameStart {c : Char} (hc : Text.isNameStart c)
    (cs : List Char) : first c cs = run .ofName Text.isNameChar c cs := by
  have hne (d : Char) (hd : Text.isNameStart d = false) : c ≠ d := by
    rintro rfl
    rw [hc] at hd
    cases hd
  unfold first
  rw [if_neg (hne _ (by decide)), if_neg (hne _ (by decide)),
    if_neg (hne _ (by decide)), if_pos hc]

/-- A digit begins a number. -/
theorem first_of_isDigit {c : Char} (hc : c.isDigit) (cs : List Char) :
    first c cs = run .int Char.isDigit c cs := by
  have hne (d : Char) (hd : d.isDigit = false) : c ≠ d := by
    rintro rfl
    rw [hc] at hd
    cases hd
  unfold first
  rw [if_neg (hne _ (by decide)), if_neg (hne _ (by decide)),
    if_neg (hne _ (by decide)), if_neg (Text.not_isNameStart_of_isDigit hc),
    if_pos hc]

theorem first_of_isStray {c : Char} (hc : Text.IsStray c) (cs : List Char) :
    first c cs = single (.illegal (String.singleton c)) c cs := by
  obtain ⟨-, hstart, hdigit, heq, hbang, hquote, hchar⟩ := hc
  unfold first
  rw [if_neg heq, if_neg hbang, if_neg hquote, if_neg hstart, if_neg hdigit,
    hchar]

theorem first_of_ofChar? {c : Char} {kind : Kind}
    (h : Kind.ofChar? c = some kind) (cs : List Char) :
    first c cs = single kind c cs := by
  unfold Kind.ofChar? at h
  split at h <;> cases h <;> rfl

theorem first_word {kind : Kind} (hword : kind.isWord) {text rest : List Char}
    (hspell : kind.SpelledAs text)
    (hrest : ∀ d ∈ rest.head?, ¬ Text.isNameChar d) {c : Char}
    {cs : List Char} (heq : c :: cs = text ++ rest) :
    first c cs = ⟨kind, text, rest⟩ := by
  obtain ⟨⟨c, cs, rfl, hc, hcs⟩, hkind⟩ :=
    Kind.SpelledAs.ofName_eq hword hspell
  obtain ⟨rfl, rfl⟩ := List.cons.inj heq
  obtain ⟨htake, hdrop⟩ := Text.takeWhile_append hcs hrest
  rw [first_of_isNameStart hc, run, List.append_eq, htake, hdrop, hkind]

theorem first_digits {text rest : List Char} (hne : text ≠ [])
    (hdigits : ∀ d ∈ text, d.isDigit) (hrest : ∀ d ∈ rest.head?, ¬ d.isDigit)
    {c : Char} {cs : List Char} (heq : c :: cs = text ++ rest) :
    first c cs = ⟨.int (String.ofList text), text, rest⟩ := by
  cases text with
  | nil => exact absurd rfl hne
  | cons d ds =>
    obtain ⟨rfl, rfl⟩ := List.cons.inj heq
    obtain ⟨hd, hds⟩ := List.forall_mem_cons.1 hdigits
    obtain ⟨htake, hdrop⟩ := Text.takeWhile_append hds hrest
    rw [first_of_isDigit hd, run, List.append_eq, htake, hdrop]

/-- A string ends at the next quote. -/
theorem first_quoted {content : List Char} (h : '"' ∉ content)
    (rest : List Char) :
    first '"' (content ++ '"' :: rest)
      = ⟨.str (String.ofList content), '"' :: (content ++ ['"']), rest⟩ := by
  have hspan := Text.takeWhile_append (Text.forall_ne_quote h)
    (show ∀ c ∈ ('"' :: rest).head?, ¬ (c ≠ '"' : Bool) by simp)
  show quoted '"' _ = _
  unfold quoted
  dsimp only
  rw [hspan.1, hspan.2]

/-- Without another quote there is no string. -/
theorem first_unclosed {content : List Char} (h : '"' ∉ content) :
    first '"' content = ⟨.unclosedString, '"' :: content, []⟩ := by
  have hspan := Text.takeWhile_append (Text.forall_ne_quote h)
    (show ∀ c ∈ ([] : List Char).head?, ¬ (c ≠ '"' : Bool) by simp)
  rw [List.append_nil] at hspan
  show quoted '"' _ = _
  unfold quoted
  dsimp only
  rw [hspan.1, hspan.2]

/-- A kind spelled by a character that is a token by itself. -/
theorem first_single {kind : Kind} (hfixed : kind.isFixed)
    (hchar : kind.spelling.toList.map Kind.ofChar? = [some kind])
    {text rest : List Char} (hspell : kind.SpelledAs text) {c : Char}
    {cs : List Char} (heq : c :: cs = text ++ rest) :
    first c cs = ⟨kind, text, rest⟩ := by
  obtain ⟨d, hd, hkind⟩ := List.map_eq_singleton_iff.1 hchar
  obtain rfl : text = [d] :=
    ((Kind.spelledAs_iff_of_isFixed hfixed).1 hspell).trans hd
  obtain ⟨rfl, rfl⟩ := List.cons.inj heq
  exact first_of_ofChar? hkind _

/-- An operator that could take an equals sign is alone before anything
else. -/
theorem withEquals_alone {alone joined : Kind} {c : Char} {rest : List Char}
    (hrest : ∀ d ∈ rest.head?, d ≠ '=') :
    withEquals alone joined c rest = ⟨alone, [c], rest⟩ := by
  unfold withEquals
  split
  · exact absurd rfl (hrest '=' rfl)
  · rfl

/-- **A token at the front of a text is its first lexeme.** -/
theorem first_eq_of_spelledAs {kind : Kind} {text rest : List Char}
    (hspell : kind.SpelledAs text) (hends : kind.EndsBefore rest) {c : Char}
    {cs : List Char} (heq : c :: cs = text ++ rest) :
    first c cs = ⟨kind, text, rest⟩ := by
  cases kind with
  | int digits =>
    obtain ⟨rfl, hne, hdigits⟩ := hspell
    rw [first_digits hne hdigits hends heq, String.ofList_toList]
  | str content =>
    obtain ⟨rfl, hcontent⟩ := hspell
    obtain ⟨rfl, rfl⟩ := List.cons.inj heq
    have hsplit := first_quoted hcontent rest
    rw [String.ofList_toList] at hsplit
    simpa using hsplit
  | unclosedString =>
    obtain ⟨content, rfl, hcontent⟩ := hspell
    obtain rfl : rest = [] := hends
    obtain ⟨rfl, rfl⟩ := List.cons.inj heq
    simpa using first_unclosed hcontent
  | illegal content =>
    obtain ⟨hcontent, c', rfl, hstray⟩ := hspell
    obtain ⟨rfl, rfl⟩ := List.cons.inj heq
    rw [first_of_isStray hstray, single, ← String.ofList_toList (s := content),
      ← hcontent]
    rfl
  | ident _ | kwFn | kwLet | kwTrue | kwFalse | kwIf | kwElse | kwReturn =>
    exact first_word rfl hspell (hends rfl) heq
  | assign =>
    obtain rfl : text = ['='] := hspell.trans (by decide)
    obtain ⟨rfl, rfl⟩ := List.cons.inj heq
    exact withEquals_alone hends
  | bang =>
    obtain rfl : text = ['!'] := hspell.trans (by decide)
    obtain ⟨rfl, rfl⟩ := List.cons.inj heq
    exact withEquals_alone hends
  | equal =>
    obtain rfl : text = ['=', '='] := hspell.trans (by decide)
    obtain ⟨rfl, rfl⟩ := List.cons.inj heq
    rfl
  | notEqual =>
    obtain rfl : text = ['!', '='] := hspell.trans (by decide)
    obtain ⟨rfl, rfl⟩ := List.cons.inj heq
    rfl
  | _ => exact first_single rfl (by decide) hspell heq

/-- **The first lexeme of a text** is the one that is spelled by its front and
ends before the rest of it. -/
theorem first_eq_iff {c : Char} (hc : ¬ Text.isBlank c) {cs : List Char}
    {kind : Kind} {text rest : List Char} :
    first c cs = ⟨kind, text, rest⟩
      ↔ c :: cs = text ++ rest ∧ kind.SpelledAs text
        ∧ kind.EndsBefore rest := by
  constructor
  · intro h
    have htoken := isToken_first hc cs
    have htext := text_append_rest c cs
    rw [h] at htoken htext
    exact ⟨htext.symm, htoken⟩
  · rintro ⟨heq, hspell, hends⟩
    exact first_eq_of_spelledAs hspell hends heq

end Lexeme

/-! ## The first character of a token -/

theorem Text.isNameChar_of_isNameStart {c : Char} (h : Text.isNameStart c) :
    Text.isNameChar c :=
  isNameChar_iff.2 ((isNameStart_iff.1 h).imp_right .inr)

theorem Text.isNameChar_of_isDigit {c : Char} (h : c.isDigit) :
    Text.isNameChar c :=
  isNameChar_iff.2 (.inr (.inl h))

/-- No character of a word is blank: words lie in a range of codes that the
blanks leave out. -/
theorem Text.not_isBlank_of_isNameChar {c : Char} (h : Text.isNameChar c) :
    ¬ Text.isBlank c := by
  have hrange : 48 ≤ c.toNat ∧ c.toNat ≤ 122 := by
    obtain h | h | rfl := isNameChar_iff.1 h
    · rw [isAlpha_iff] at h
      omega
    · rw [isDigit_iff] at h
      omega
    · decide
  intro hblank
  simp only [isBlank, blankRanges, List.any_cons, List.any_nil, Bool.or_false,
    Bool.or_eq_true, Bool.and_eq_true, decide_eq_true_eq] at hblank
  omega

/-- **A token begins with a character that is not blank.** -/
theorem Token.Kind.SpelledAs.exists_cons {kind : Kind} {text : List Char}
    (h : kind.SpelledAs text) :
    ∃ c cs, text = c :: cs ∧ ¬ Text.isBlank c := by
  cases kind with
  | ident name =>
    obtain ⟨-, ⟨c, cs, rfl, hc, -⟩, -⟩ := h
    exact ⟨c, cs, rfl, Text.not_isBlank_of_isNameChar
      (Text.isNameChar_of_isNameStart hc)⟩
  | int digits =>
    obtain ⟨-, hne, hdigits⟩ := h
    obtain ⟨c, cs, rfl⟩ := List.exists_cons_of_ne_nil hne
    exact ⟨c, cs, rfl, Text.not_isBlank_of_isNameChar
      (Text.isNameChar_of_isDigit (hdigits c List.mem_cons_self))⟩
  | str content => exact ⟨_, _, h.1, by decide⟩
  | unclosedString =>
    obtain ⟨content, rfl, -⟩ := h
    exact ⟨_, _, rfl, by decide⟩
  | illegal content =>
    obtain ⟨-, c, rfl, hc⟩ := h
    exact ⟨c, [], rfl, hc.1⟩
  | _ =>
    obtain rfl := h
    exact ⟨_, _, rfl, by decide⟩

theorem Token.Kind.SpelledAs.ne_nil {kind : Kind} {text : List Char}
    (h : kind.SpelledAs text) : text ≠ [] := by
  obtain ⟨c, cs, rfl, -⟩ := h.exists_cons
  exact List.cons_ne_nil c cs

/-! ## The tokens of a text -/

theorem Token.scanFrom_blank {c : Char} (hc : Text.isBlank c) (pos : Nat)
    (cs : List Char) :
    Token.scanFrom pos (c :: cs) = Token.scanFrom (pos + c.utf8Size) cs := by
  rw [Token.scanFrom, if_pos hc]

theorem Token.scanFrom_first {c : Char} (hc : ¬ Text.isBlank c) {cs : List Char}
    {lexeme : Lexeme} (hfirst : Lexeme.first c cs = lexeme) (pos : Nat) :
    Token.scanFrom pos (c :: cs)
      = ⟨lexeme.kind, pos, pos + Text.byteSize lexeme.text⟩
        :: Token.scanFrom (pos + Text.byteSize lexeme.text) lexeme.rest := by
  rw [Token.scanFrom, if_neg hc, hfirst]

/-- **A token at the front of a text is its first**, if it ends there. -/
theorem Token.scanFrom_append {kind : Kind} {text rest : List Char}
    (hspell : kind.SpelledAs text) (hends : kind.EndsBefore rest) (pos : Nat) :
    Token.scanFrom pos (text ++ rest)
      = ⟨kind, pos, pos + Text.byteSize text⟩
        :: Token.scanFrom (pos + Text.byteSize text) rest := by
  obtain ⟨c, cs, rfl, hc⟩ := hspell.exists_cons
  have hfirst : Lexeme.first c (cs ++ rest) = ⟨kind, c :: cs, rest⟩ :=
    Lexeme.first_eq_of_spelledAs hspell hends rfl
  rw [List.cons_append, Token.scanFrom_first hc hfirst]

/-- **The tokens of a text** that begins `pos` bytes into the source: the text
is cut into blanks and tokens, one behind the other, and each token is spelled
by its piece and ends there. -/
inductive Token.Cover : Nat → List Char → List Token → Prop where
  | nil {pos : Nat} : Token.Cover pos [] []
  | blank {pos : Nat} {c : Char} {cs : List Char} {tokens : List Token} :
      Text.isBlank c → Token.Cover (pos + c.utf8Size) cs tokens →
      Token.Cover pos (c :: cs) tokens
  | token {pos : Nat} {kind : Kind} {text rest : List Char}
      {tokens : List Token} :
      kind.SpelledAs text → kind.EndsBefore rest →
      Token.Cover (pos + Text.byteSize text) rest tokens →
      Token.Cover pos (text ++ rest)
        (⟨kind, pos, pos + Text.byteSize text⟩ :: tokens)

/-- Scanning cuts a text into its tokens. -/
theorem Token.cover_scanFrom (pos : Nat) (cs : List Char) :
    Token.Cover pos cs (Token.scanFrom pos cs) := by
  fun_induction Token.scanFrom pos cs with
  | case1 pos => exact .nil
  | case2 pos c cs hc ih => exact .blank hc ih
  | case3 pos c cs hc lexeme stop ih =>
    obtain ⟨hspell, hends⟩ := Lexeme.isToken_first hc cs
    have htext := Lexeme.text_append_rest c cs
    rw [← htext]
    exact .token hspell hends ih

end Monkey
