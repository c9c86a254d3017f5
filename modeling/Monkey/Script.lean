import Monkey.Eval.Program
import Monkey.Program.Parse
import Monkey.Transcript

/-!
# Scripts

A script is a whole program in a file. It is evaluated once, in a scope of its
own, and its result is shown unless it is null. A script with faulty statements
is not evaluated at all; every fault is reported on the error output.
-/

namespace Monkey.Script

/-- Whether a value is worth showing as the result of a script. -/
def isShown : Value → Bool
  | .null _ => false
  | _ => true

/-- **The transcript of running a source text.** There is none if calls are
nested too deeply. -/
def transcript (a : Arrangement) (depth : Nat) (options : Options)
    (source : String) : Option Transcript :=
  let (w, scope) := (World.empty a).addScope none
  let w := w.showTokens options source
  match Program.parse source with
  | .error errors =>
    let reports := (w.clearOutput.writeLines (errors.map ParseError.report)).output
    some ⟨w.output, reports, .error (.parse errors.length)⟩
  | .ok program =>
    match (program.eval depth scope).run (w.showProgram options program) with
    | .done v w' =>
      let w' := if isShown v then w'.writeValue v else w'
      some ⟨w'.output, "", .ok ()⟩
    | .failed e w' => some ⟨w'.output, "", .error (.eval e)⟩
    | .exhausted => none

/-- **The transcript of running a file**, given its path and what reading it
gave. -/
def run (a : Arrangement) (depth : Nat) (options : Options) (path : String)
    (file : Except ReadFailure ByteArray) : Option Transcript :=
  match file with
  | .error cause => some ⟨"", "", .error (.script path cause)⟩
  | .ok bytes =>
    match String.fromUTF8? bytes with
    | none => some ⟨"", "", .error (.script path .notText)⟩
    | some source => transcript a depth options source

end Monkey.Script
