import Monkey.Eval.Program
import Monkey.Program.Parse

/-!
# Evaluating source text

Source text is read as a program and evaluated in a scope. It may fail to be a
program, in which case nothing is evaluated, or the program may fail.
-/

namespace Monkey

/-- **Why there is no value.** -/
inductive Failure where
  /-- The source is not a program. -/
  | parse (errors : List ParseError)
  /-- The program fails. -/
  | eval (error : EvalError)
  /-- There is no builtin of that name. -/
  | noBuiltin (name : String)
  deriving Inhabited

/-- **Evaluates a source text** in a scope. -/
def evalSource (depth : Nat) (scope : ScopeId) (source : String) :
    Eval Failure Value :=
  match Program.parse source with
  | .ok program => (program.eval depth scope).mapError .eval
  | .error errors => .fail (.parse errors)

end Monkey
