import Monkey.Integer
import Monkey.Operator
import Monkey.Value

/-!
# Why an evaluation fails

An error names the cause in terms of the operation that was asked for and the
types or numbers it was asked of. The wording is `EvalError.message`.
-/

namespace Monkey

/-- **Why an evaluation fails.** -/
inductive EvalError where
  /-- An operator before a value it is not defined on. -/
  | unknownUnary (op : UnaryOp) (operand : ValueType)
  /-- An operator between values of types it is not defined on. -/
  | unknownBinary (left : ValueType) (op : BinaryOp) (right : ValueType)
  /-- An operator between values of different types. -/
  | typeMismatch (left : ValueType) (op : BinaryOp) (right : ValueType)
  /-- A name that is bound in no scope and is no builtin. -/
  | unboundName (name : String)
  /-- A call of a value that is no function. -/
  | notAFunction (callee : ValueType)
  /-- A call with too few or too many arguments. -/
  | argumentCount (want got : Nat)
  /-- An index into a value that has no such elements. -/
  | notIndexable (collection : ValueType)
  /-- A value that cannot be a key of a hash. -/
  | unusableKey (key : ValueType)
  /-- A division by zero. -/
  | divisionByZero
  /-- A number without a negative. -/
  | negationOverflow (operand : Int64)
  /-- Numbers whose sum, difference, product or quotient is out of range. -/
  | overflow (left : Int64) (op : BinaryOp) (right : Int64)
  /-- A call of a builtin with too few or too many arguments. -/
  | builtinArgumentCount (got want : Nat)
  /-- A builtin called on a value it is not defined on. -/
  | unsupportedArgument (callee : Builtin) (got : ValueType)
  /-- A builtin for arrays called on another value. -/
  | notAnArray (callee : Builtin) (got : ValueType)
  deriving DecidableEq, Repr, Inhabited

namespace EvalError

/-- **The wording of an error.** -/
def message : EvalError → String
  | unknownUnary op operand =>
    "unknown operator: " ++ op.symbol ++ operand.label
  | unknownBinary left op right =>
    "unknown operator: " ++ left.label ++ " " ++ op.symbol ++ " " ++ right.label
  | typeMismatch left op right =>
    "type mismatch: " ++ left.label ++ " " ++ op.symbol ++ " " ++ right.label
  | unboundName name => "identifier not found: " ++ name
  | notAFunction callee => "not a function: " ++ callee.label
  | argumentCount want got =>
    "wrong number of arguments: want=" ++ toString want
      ++ ", got=" ++ toString got
  | notIndexable collection =>
    "index operator not supported: " ++ collection.label
  | unusableKey key => "unusable as hash key: " ++ key.label
  | divisionByZero => "division by zero"
  | negationOverflow operand =>
    "integer overflow: -(" ++ Integer.render operand ++ ")"
  | overflow left op right =>
    "integer overflow: " ++ Integer.render left ++ " " ++ op.symbol ++ " "
      ++ Integer.render right
  | builtinArgumentCount got want =>
    "wrong number of arguments. got=" ++ toString got
      ++ ", want=" ++ toString want
  | unsupportedArgument callee got =>
    "argument to '" ++ callee.name ++ "' not supported, got " ++ got.label
  | notAnArray callee got =>
    "argument to '" ++ callee.name ++ "' must be ARRAY, got " ++ got.label

/-- How an error is reported to the user. -/
def report (error : EvalError) : String := "ERROR: " ++ error.message

end EvalError

end Monkey
