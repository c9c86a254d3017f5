import Monkey.Token

/-!
# Why a source is not a program

A parse error names the cause, in terms of the tokens met. The wording of the
causes is `ParseError.message`, and nothing else depends on it.
-/

namespace Monkey

/-- What the grammar asks for at some point of a source. -/
inductive Expected where
  /-- A token of one given kind. -/
  | token (kind : Token.Kind)
  /-- A name. -/
  | identifier
  /-- An expression. -/
  | expression
  deriving DecidableEq, Repr, Inhabited

/-- What was asked for, in words. -/
def Expected.label : Expected → String
  | token kind => kind.label
  | identifier => "IDENT"
  | expression => "an expression"

/-- **Why a source is not a program.** -/
inductive ParseError where
  /-- The source ends where something is asked for. -/
  | unexpectedEnd (expected : Expected)
  /-- Another token stands where something is asked for. -/
  | unexpectedToken (expected : Expected) (got : Token)
  /-- An integer is out of range. -/
  | integerRange (digits : String)
  /-- No expression begins with the token. -/
  | noOperand (got : Token)
  /-- An expression begins with an illegal token. -/
  | illegal (text : String)
  deriving DecidableEq, Repr, Inhabited

namespace ParseError

/-- **The wording of an error.** -/
def message : ParseError → String
  | unexpectedEnd expected =>
    "expected next token to be " ++ expected.label ++ ", got EOF instead"
  | unexpectedToken expected got =>
    "expected next token to be " ++ expected.label ++ ", got "
      ++ got.kind.label ++ " instead"
  | integerRange digits => "could not parse " ++ digits ++ " as integer"
  | noOperand got =>
    "no prefix parse function for " ++ got.kind.label ++ " found"
  | illegal text => "illegal token: " ++ text

/-- How an error is reported to the user. -/
def report (error : ParseError) : String := "\t" ++ error.message

/-- The token an error is about, where it carries one. -/
def token? : ParseError → Option Token
  | unexpectedToken _ got | noOperand got => some got
  | _ => none

/-- The offset of the token an error is about, where it carries one. -/
def position? (error : ParseError) : Option Nat :=
  error.token?.map (·.start)

end ParseError

end Monkey
