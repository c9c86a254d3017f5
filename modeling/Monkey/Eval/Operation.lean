import Monkey.Eval.Outcome
import Monkey.EvalError

/-!
# Operations on values

What operators, indices and builtins do with values that are already there.
None of them looks at a scope or changes one; they make new objects, and `puts`
writes.

Integers and strings are compared by their own rules. Any two other values can
be compared for being the same object, and nothing else.
-/

namespace Monkey

/-- Evaluations that fail with an error of the language. -/
abbrev Operation := Eval EvalError

namespace Eval

variable {ε : Type}

/-- A new integer. -/
def newInt (value : Int64) : Eval ε Value := make (.int · value)

/-- A new string. -/
def newStr (text : String) : Eval ε Value := make (.str · text)

/-- A new array. -/
def newArray (elements : List Value) : Eval ε Value :=
  make (.array · elements)

/-- A new hash. -/
def newHash (entries : Table HashKey (Value × Value)) : Eval ε Value :=
  make (.hash · entries)

end Eval

/-- The key a value is in a hash. -/
def Value.asKey (v : Value) : Operation HashKey :=
  match v.key? with
  | some key => .done key
  | none => .fail (.unusableKey v.type)

/-- A new integer with the value of an operation, which fails with `overflow`
if the value is out of range. -/
def exactly (overflow : EvalError) : Option Int64 → Operation Value
  | some value => .newInt value
  | none => .fail overflow

/-! ## Operators -/

/-- Applies an operator that stands before its operand. -/
def UnaryOp.apply : UnaryOp → Value → Operation Value
  | bang, v => .done (.truth (!v.truthy))
  | minus, .int _ n => exactly (.negationOverflow n) (Integer.neg? n)
  | minus, v => .fail (.unknownUnary .minus v.type)

namespace BinaryOp

/-- Applies an operator to integers. Arithmetic is exact or fails. -/
def onInts (op : BinaryOp) (a b : Int64) : Operation Value :=
  match op with
  | plus => exactly (.overflow a op b) (Integer.add? a b)
  | minus => exactly (.overflow a op b) (Integer.sub? a b)
  | multiply => exactly (.overflow a op b) (Integer.mul? a b)
  | divide =>
    if b = 0 then .fail .divisionByZero
    else exactly (.overflow a op b) (Integer.div? a b)
  | lessThan => .done (.truth (a.toInt < b.toInt))
  | greaterThan => .done (.truth (b.toInt < a.toInt))
  | equal => .done (.truth (a = b))
  | notEqual => .done (.truth (a ≠ b))

/-- Applies an operator to strings: they can only be put together. -/
def onStrs (op : BinaryOp) (s t : String) : Operation Value :=
  match op with
  | plus => .newStr (s ++ t)
  | _ => .fail (.unknownBinary .string op .string)

/-- Applies an operator to values that are neither two integers nor two
strings: they can only be compared for being the same object. -/
def onObjects (op : BinaryOp) (v w : Value) : Operation Value :=
  match op with
  | equal => .done (.truth (v.identical w))
  | notEqual => .done (.truth (!v.identical w))
  | _ =>
    if v.type = w.type then .fail (.unknownBinary v.type op w.type)
    else .fail (.typeMismatch v.type op w.type)

/-- **Applies an operator** to its two operands. -/
def apply (op : BinaryOp) : Value → Value → Operation Value
  | .int _ a, .int _ b => op.onInts a b
  | .str _ s, .str _ t => op.onStrs s t
  | v, w => op.onObjects v w

end BinaryOp

/-! ## Indices -/

/-- The element of a list at an integer, if it is there. -/
def elementAt? (elements : List Value) (position : Int64) : Option Value :=
  if position.toInt < 0 then none else elements[position.toInt.toNat]?

/-- **The element of a collection** at a position. A position where there is
nothing gives null. -/
def Value.at : Value → Value → Operation Value
  | .array _ elements, .int _ position =>
    .done ((elementAt? elements position).getD .nothing)
  | .hash _ entries, position => do
    let key ← position.asKey
    match Table.get? key entries with
    | some (_, value) => .done value
    | none => .done .nothing
  | v, _ => .fail (.notIndexable v.type)

/-! ## Builtins -/

namespace Builtin

/-- The elements of the array a builtin is called on. -/
def elementsOf (b : Builtin) : Value → Operation (List Value)
  | .array _ elements => .done elements
  | v => .fail (.notAnArray b v.type)

/-- The number of characters of a string or of elements of an array. -/
def lengthOf : Value → Operation Value
  | .str _ text => .newInt (.ofNat text.length)
  | .array _ elements => .newInt (.ofNat elements.length)
  | v => .fail (.unsupportedArgument .len v.type)

/-- **Calls a builtin.** The number of arguments is checked before what they
are. -/
def apply : Builtin → List Value → Operation Value
  | len, [v] => lengthOf v
  | first, [v] => do
    let elements ← first.elementsOf v
    return elements.head?.getD .nothing
  | last, [v] => do
    let elements ← last.elementsOf v
    return elements.getLast?.getD .nothing
  | rest, [v] => do
    match ← rest.elementsOf v with
    | [] => return .nothing
    | _ :: elements => .newArray elements
  | push, [v, element] => do
    let elements ← push.elementsOf v
    .newArray (elements ++ [element])
  | puts, args => do
    Eval.update (·.writeValues args)
    return .nothing
  | push, args => .fail (.builtinArgumentCount args.length 2)
  | _, args => .fail (.builtinArgumentCount args.length 1)

end Builtin

end Monkey
