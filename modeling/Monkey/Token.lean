/-!
# Tokens

A token is a kind together with the bytes of the source it stands for. The
kind alone decides how a token is read, so everything the grammar asks about
a token is a question about its kind; the span is carried for diagnostics and
listings.

Text that begins no token is not dropped. It becomes a token of an illegal
kind – a character the language has no use for, or a string whose closing
quote is missing – so that a token list accounts for the whole source and the
fault is reported where the grammar meets it.
-/

namespace Monkey

namespace Token

/-- What a token is. Four kinds carry text of the source; all others are
spelled in one way only. -/
inductive Kind where
  /-- A character that begins no token, as a text. -/
  | illegal (text : String)
  /-- A string whose closing quote is missing. -/
  | unclosedString
  /-- A name that is not a keyword. -/
  | ident (name : String)
  /-- A run of digits, as written. -/
  | int (digits : String)
  /-- The text between two quotes. -/
  | str (text : String)
  | assign
  | plus
  | minus
  | bang
  | asterisk
  | slash
  | equal
  | notEqual
  | greaterThan
  | lessThan
  | comma
  | colon
  | semicolon
  | leftParen
  | rightParen
  | leftBrace
  | rightBrace
  | leftBracket
  | rightBracket
  | kwFn
  | kwLet
  | kwTrue
  | kwFalse
  | kwIf
  | kwElse
  | kwReturn
  deriving DecidableEq, Repr, Inhabited

namespace Kind

/-- How a kind is called in diagnostics: operators and punctuation by their
spelling, the others by a name in capitals. -/
def label : Kind → String
  | illegal _ | unclosedString => "ILLEGAL"
  | ident _ => "IDENT"
  | int _ => "INT"
  | str _ => "STRING"
  | assign => "="
  | plus => "+"
  | minus => "-"
  | bang => "!"
  | asterisk => "*"
  | slash => "/"
  | equal => "=="
  | notEqual => "!="
  | greaterThan => ">"
  | lessThan => "<"
  | comma => ","
  | colon => ":"
  | semicolon => ";"
  | leftParen => "("
  | rightParen => ")"
  | leftBrace => "\x7b"
  | rightBrace => "\x7d"
  | leftBracket => "["
  | rightBracket => "]"
  | kwFn => "FUNCTION"
  | kwLet => "LET"
  | kwTrue => "TRUE"
  | kwFalse => "FALSE"
  | kwIf => "IF"
  | kwElse => "ELSE"
  | kwReturn => "RETURN"

/-- The name of a kind in token listings. -/
def name : Kind → String
  | illegal _ | unclosedString => "Illegal"
  | ident _ => "Ident"
  | int _ => "Int"
  | str _ => "String"
  | assign => "Assign"
  | plus => "Plus"
  | minus => "Minus"
  | bang => "Bang"
  | asterisk => "Asterisk"
  | slash => "Slash"
  | equal => "Equal"
  | notEqual => "NotEqual"
  | greaterThan => "GreaterThan"
  | lessThan => "LessThan"
  | comma => "Comma"
  | colon => "Colon"
  | semicolon => "SemiColon"
  | leftParen => "LParen"
  | rightParen => "RParen"
  | leftBrace => "LBrace"
  | rightBrace => "RBrace"
  | leftBracket => "LBracket"
  | rightBracket => "RBracket"
  | kwFn => "Function"
  | kwLet => "Let"
  | kwTrue => "True"
  | kwFalse => "False"
  | kwIf => "If"
  | kwElse => "Else"
  | kwReturn => "Return"

/-- What is wrong with a string whose closing quote is missing. -/
def unclosedReason : String := "unterminated string"

/-- What a listing shows of a token besides its name: the text it carries, or
for an illegal token the reason. -/
def payload? : Kind → Option String
  | unclosedString => some unclosedReason
  | illegal text | ident text | int text | str text => some text
  | _ => none

/-- The kind of a name: a keyword if it is one, an identifier otherwise. -/
def ofName (name : String) : Kind :=
  if name = "fn" then kwFn
  else if name = "let" then kwLet
  else if name = "true" then kwTrue
  else if name = "false" then kwFalse
  else if name = "if" then kwIf
  else if name = "else" then kwElse
  else if name = "return" then kwReturn
  else ident name

/-- The kind that a character is by itself, whatever follows it. -/
def ofChar? : Char → Option Kind
  | '+' => some plus
  | '-' => some minus
  | '*' => some asterisk
  | '/' => some slash
  | '>' => some greaterThan
  | '<' => some lessThan
  | ',' => some comma
  | ':' => some colon
  | ';' => some semicolon
  | '(' => some leftParen
  | ')' => some rightParen
  | '\x7b' => some leftBrace
  | '\x7d' => some rightBrace
  | '[' => some leftBracket
  | ']' => some rightBracket
  | _ => none

end Kind

end Token

/-- **A token**: its kind, and the bytes `start ≤ i < stop` of the source that
it was read from, counted in UTF-8. -/
structure Token where
  /-- What the token is. -/
  kind : Token.Kind
  /-- The offset of its first byte. -/
  start : Nat
  /-- The offset just after its last byte. -/
  stop : Nat
  deriving DecidableEq, Repr, Inhabited

end Monkey
