import Monkey.EvalError
import Monkey.Program.Render
import Monkey.Text.Escaped
import Monkey.Token.Listing
import Monkey.Token.Scan
import Monkey.World

/-!
# Transcripts

Running the language on lines or on a file leaves a *transcript*: what was
written to the output and to the error output, and how the run ended. The
options say what is shown of every input before it is evaluated.
-/

namespace Monkey

/-- **What is shown of an input** besides its result. -/
structure Options where
  /-- Whether its tokens are listed. -/
  tokens : Bool := false
  /-- Whether the program is written back as it was understood. -/
  program : Bool := false
  deriving DecidableEq, Repr, Inhabited

/-- Why an input could not be read. -/
inductive ReadFailure where
  /-- There is no such file. -/
  | missing
  /-- The bytes are not text in UTF-8. -/
  | notText
  /-- The system says so. -/
  | system (message : String)
  deriving DecidableEq, Repr, Inhabited

/-- The wording of a failure to read. -/
def ReadFailure.message : ReadFailure → String
  | missing => "No such file or directory (os error 2)"
  | notText => "stream did not contain valid UTF-8"
  | system message => message

/-- **Why a run ends badly.** -/
inductive RunError where
  /-- The script cannot be read. -/
  | script (path : String) (cause : ReadFailure)
  /-- A line cannot be read. -/
  | line (cause : ReadFailure)
  /-- The script has faulty statements. -/
  | parse (count : Nat)
  /-- The script fails. -/
  | eval (error : EvalError)
  deriving DecidableEq, Repr, Inhabited

/-- The wording of the end of a run. -/
def RunError.message : RunError → String
  | script path cause =>
    "could not read " ++ Text.escape path ++ ": " ++ cause.message
  | line cause => "line editor failed: " ++ cause.message
  | parse count => "found " ++ toString count ++ " parse error(s)"
  | eval error => error.report

/-- **The transcript of a run.** -/
structure Transcript where
  /-- What was written to the output. -/
  output : String
  /-- What was written to the error output. -/
  errors : String
  /-- How the run ended. -/
  result : Except RunError Unit

namespace World

/-- Writes lines, in order. -/
def writeLines (w : World) (lines : List String) : World :=
  lines.foldl writeLine w

/-- Lists the tokens of a source, if the options say so. -/
def showTokens (w : World) (options : Options) (source : String) : World :=
  if options.tokens then w.writeLines ((Token.scan source).map Token.listing)
  else w

/-- Writes a program back, if the options say so. -/
def showProgram (w : World) (options : Options) (program : Program) : World :=
  if options.program then w.writeLine program.render else w

end World

end Monkey
