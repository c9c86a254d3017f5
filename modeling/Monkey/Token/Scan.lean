import Monkey.Text.Blank
import Monkey.Token

/-!
# The tokens of a source text

The scanner works on the characters of the source and cuts off one *lexeme* at
a time: the longest piece of text at the front that is one token. A lexeme
keeps the characters it consists of beside those left over, so that nothing
of the source is lost (`Lexeme.text_append_rest`), and the span of the token
is the UTF-8 size of the text passed so far.

Every lexeme has at least one character, which is why scanning ends.
-/

namespace Monkey

/-- The number of bytes a text takes in UTF-8. -/
def Text.byteSize : List Char → Nat
  | [] => 0
  | c :: cs => c.utf8Size + byteSize cs

/-- Whether a character can begin a name. -/
def Text.isNameStart (c : Char) : Bool :=
  c.isAlpha || c == '_'

/-- Whether a character can stand in a name after its first. -/
def Text.isNameChar (c : Char) : Bool :=
  c.isAlphanum || c == '_'

/-- **A lexeme** at the front of a text: what it is, its own characters, and
those that follow it. -/
structure Lexeme where
  /-- The kind of token the lexeme is. -/
  kind : Token.Kind
  /-- The characters of the lexeme. -/
  text : List Char
  /-- The characters after it. -/
  rest : List Char

namespace Lexeme

/-- A lexeme of one character. -/
def single (kind : Token.Kind) (c : Char) (cs : List Char) : Lexeme :=
  ⟨kind, [c], cs⟩

/-- A lexeme of one character, or of two when an equals sign follows. -/
def withEquals (alone joined : Token.Kind) (c : Char) : List Char → Lexeme
  | '=' :: cs => ⟨joined, [c, '='], cs⟩
  | cs => ⟨alone, [c], cs⟩

/-- The lexeme that begins with `c` and goes on as long as the characters
satisfy `p`. -/
def run (kind : String → Token.Kind) (p : Char → Bool) (c : Char)
    (cs : List Char) : Lexeme :=
  ⟨kind (String.ofList (c :: cs.takeWhile p)), c :: cs.takeWhile p,
    cs.dropWhile p⟩

/-- The string that begins with the quote `c`. It ends at the next quote;
without one it takes the whole rest of the text and is not a string. -/
def quoted (c : Char) (cs : List Char) : Lexeme :=
  let body := cs.takeWhile (· ≠ '"')
  match cs.dropWhile (· ≠ '"') with
  | [] => ⟨.unclosedString, c :: body, []⟩
  | q :: rest => ⟨.str (String.ofList body), c :: (body ++ [q]), rest⟩

/-- **The first lexeme** of the text `c :: cs`, where `c` is not blank. -/
def first (c : Char) (cs : List Char) : Lexeme :=
  if c = '=' then withEquals .assign .equal c cs
  else if c = '!' then withEquals .bang .notEqual c cs
  else if c = '"' then quoted c cs
  else if Text.isNameStart c then run .ofName Text.isNameChar c cs
  else if c.isDigit then run .int Char.isDigit c cs
  else match Token.Kind.ofChar? c with
    | some kind => single kind c cs
    | none => single (.illegal (String.singleton c)) c cs

/-- A lexeme and what follows it make up the text. -/
theorem text_append_rest (c : Char) (cs : List Char) :
    (first c cs).text ++ (first c cs).rest = c :: cs := by
  have hspan (p : Char → Bool) : cs.takeWhile p ++ cs.dropWhile p = cs :=
    List.takeWhile_append_dropWhile
  unfold first
  split
  · unfold withEquals; split <;> simp
  split
  · unfold withEquals; split <;> simp
  split
  · have h := hspan (· ≠ '"')
    unfold quoted
    dsimp only
    split <;> rename_i hrest <;> rw [hrest] at h <;> simpa using h
  split
  · simp [run]
  split
  · simp [run]
  · split <;> simp [single]

/-- A lexeme begins with the character it was cut from. -/
theorem text_ne_nil (c : Char) (cs : List Char) : (first c cs).text ≠ [] := by
  unfold first withEquals quoted run single
  repeat' (first | split | simp)

/-- What follows a lexeme is no longer than what followed its first
character. -/
theorem length_rest_le (c : Char) (cs : List Char) :
    (first c cs).rest.length ≤ cs.length := by
  have h := congrArg List.length (text_append_rest c cs)
  have hpos := List.length_pos_iff.2 (text_ne_nil c cs)
  simp only [List.length_append, List.length_cons] at h
  omega

end Lexeme

namespace Token

/-- The tokens of a text that begins `pos` bytes into the source. -/
def scanFrom (pos : Nat) (cs : List Char) : List Token :=
  match cs with
  | [] => []
  | c :: rest =>
    if Text.isBlank c then scanFrom (pos + c.utf8Size) rest
    else
      let lexeme := Lexeme.first c rest
      let stop := pos + Text.byteSize lexeme.text
      ⟨lexeme.kind, pos, stop⟩ :: scanFrom stop lexeme.rest
termination_by cs.length
decreasing_by
  · simp
  · exact Nat.lt_succ_of_le (Lexeme.length_rest_le c rest)

/-- **The tokens of a source text**, in order. -/
def scan (source : String) : List Token :=
  scanFrom 0 source.toList

/-- Keywords, names and operators need no blank between them. -/
example : (scan "let a=fn==10").map (·.kind)
    = [.kwLet, .ident "a", .assign, .kwFn, .equal, .int "10"] := by
  decide +kernel

/-- Spans count bytes, and a missing quote takes the rest of the text. -/
example : scan "é \"é"
    = [⟨.illegal "é", 0, 2⟩, ⟨.unclosedString, 3, 6⟩] := by
  decide +kernel

end Token

end Monkey
