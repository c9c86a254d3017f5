import Monkey.Prompt
import Monkey.Script

/-!
# The command line

Runs a script if its path is given, and the prompt otherwise. The option
`--tokens` lists the tokens of every input, and `--ast` writes every program
back as it was understood.
-/

namespace Monkey.CommandLine

/-- What the arguments ask for. -/
structure Request where
  /-- What is shown of every input. -/
  options : Options
  /-- The script to run; without one, the prompt is started. -/
  path? : Option String

/-- What is asked for by the arguments, read in order after those that gave
`request`. -/
def parseArguments (request : Request) : List String → Except String Request
  | [] => .ok request
  | "--tokens" :: args =>
    parseArguments ⟨⟨true, request.options.program⟩, request.path?⟩ args
  | "--ast" :: args =>
    parseArguments ⟨⟨request.options.tokens, true⟩, request.path?⟩ args
  | arg :: args =>
    if arg.startsWith "--" || request.path?.isSome then
      .error ("unexpected argument '" ++ arg ++ "'")
    else parseArguments ⟨request.options, some arg⟩ args

/-- Ends with a message on the error output. -/
def stop (message : String) : IO UInt32 := do
  IO.eprintln message
  return 1

/-- The message for calls that are nested too deeply. -/
def tooDeep : String := "calls are nested too deeply"

/-- The bytes of a file. -/
def readScript (path : String) : IO (Except ReadFailure ByteArray) := do
  try
    return .ok (← IO.FS.readBinFile path)
  catch
    | .noFileOrDirectory .. => return .error .missing
    | error => return .error (.system (toString error))

/-- Runs a script and shows its transcript. -/
def runScript (options : Options) (path : String) : IO UInt32 := do
  match Script.run .ascending generousDepth options path (← readScript path) with
  | none => stop tooDeep
  | some transcript =>
    IO.print transcript.output
    IO.eprint transcript.errors
    match transcript.result with
    | .ok () => return 0
    | .error error => stop error.message

/-- Reads a line, byte by byte; `line` is what has been read of it, last byte
first. There is none at the end of the input. -/
partial def readLine (input : IO.FS.Stream) (line : List UInt8) :
    IO (Option (List UInt8)) := do
  match (← input.read 1).toList with
  | [] => return if line.isEmpty then none else some line.reverse
  | b :: _ =>
    if b = Prompt.newline then return some (Prompt.trimReturn line.reverse)
    else readLine input (b :: line)

/-- Reads lines and evaluates each before the next is read. -/
partial def prompt (options : Options) (scope : ScopeId) (w : World) :
    IO UInt32 := do
  match ← readLine (← IO.getStdin) [] with
  | none =>
    IO.println Prompt.farewell
    return 0
  | some bytes =>
    match Prompt.decodeLine bytes with
    | none => stop (RunError.line .notText).message
    | some line =>
      match Prompt.answerLine generousDepth options scope line w with
      | none => stop tooDeep
      | some w' =>
        IO.print w'.output
        (← IO.getStdout).flush
        prompt options scope w'.clearOutput

end Monkey.CommandLine

open Monkey Monkey.CommandLine in
/-- Runs the command line. -/
def main (args : List String) : IO UInt32 := do
  match parseArguments ⟨{}, none⟩ args with
  | .error message => stop message
  | .ok ⟨options, some path⟩ => runScript options path
  | .ok ⟨options, none⟩ =>
    let (w, scope) := (World.empty .ascending).addScope none
    prompt options scope w
