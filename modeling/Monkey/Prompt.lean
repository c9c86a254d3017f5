import Monkey.Eval.Program
import Monkey.Program.Parse
import Monkey.Transcript

/-!
# The prompt

At the prompt, lines are read and evaluated one by one in a single scope. Each
line is a program of its own: its result is shown, or its error, or the errors
that keep it from being a program, and the next line goes on with the bindings
made so far. A line without statements shows nothing.

Lines come as bytes. One that is not text ends the run; the end of the input is
noted in the output.
-/

namespace Monkey.Prompt

/-- **Evaluates a line** and shows what came of it. There is no answer if calls
are nested too deeply. -/
def answerLine (depth : Nat) (options : Options) (scope : ScopeId)
    (line : String) (w : World) : Option World :=
  let w := w.showTokens options line
  match Program.parse line with
  | .error errors => some (w.writeLines (errors.map ParseError.report))
  | .ok program =>
    if program.statements.isEmpty then some w
    else
      match (program.eval depth scope).run (w.showProgram options program) with
      | .done v w' => some (w'.writeValue v)
      | .failed e w' => some (w'.writeLine e.report)
      | .exhausted => none

/-- What is written when the input ends. -/
def farewell : String := "CTRL-D"

/-- Evaluates lines in order; a line that is not text is given as `none` and
ends the run. -/
def answerLines (depth : Nat) (options : Options) (scope : ScopeId) :
    List (Option String) → World → Option Transcript
  | [], w => some ⟨(w.writeLine farewell).output, "", .ok ()⟩
  | none :: _, w => some ⟨w.output, "", .error (.line .notText)⟩
  | some line :: lines, w => do
    let w' ← answerLine depth options scope line w
    answerLines depth options scope lines w'

/-- **The transcript of a run at the prompt**, in a scope of its own. -/
def run (a : Arrangement) (depth : Nat) (options : Options)
    (lines : List (Option String)) : Option Transcript :=
  let (w, scope) := (World.empty a).addScope none
  answerLines depth options scope lines w

/-! ## Lines of an input -/

/-- The byte that ends a line. -/
def newline : UInt8 := 10

/-- The byte that may stand before the end of a line. -/
def carriageReturn : UInt8 := 13

/-- A line without the byte that may stand before its end. -/
def trimReturn (line : List UInt8) : List UInt8 :=
  if line.getLast? = some carriageReturn then line.dropLast else line

/-- The lines of an input. The last one need not be ended; `line` is what has
been seen of the current one, last byte first. -/
def splitLines (line : List UInt8) : List UInt8 → List (List UInt8)
  | [] => if line.isEmpty then [] else [line.reverse]
  | b :: bytes =>
    if b = newline then trimReturn line.reverse :: splitLines [] bytes
    else splitLines (b :: line) bytes

/-- The text of a line, if it is text. -/
def decodeLine (line : List UInt8) : Option String :=
  String.fromUTF8? ⟨line.toArray⟩

/-- **The lines of an input**, as texts. -/
def lines (input : List UInt8) : List (Option String) :=
  (splitLines [] input).map decodeLine

end Monkey.Prompt
