import Monkey.Source

/-!
# Values described from outside

A host that embeds the language hands values in as *data*: literal contents, a
builtin by name, or a source text whose value is meant. Building a value makes
new objects for all its parts, from left to right, and fails where the language
would.
-/

namespace Monkey

/-- **A description of a value.** -/
inductive Datum where
  /-- An integer. -/
  | int (value : Int64)
  /-- A boolean. -/
  | bool (value : Bool)
  /-- A string. -/
  | str (text : String)
  /-- Null. -/
  | null
  /-- An array. -/
  | array (elements : List Datum)
  /-- A hash of keys and values, entered in order. -/
  | hash (pairs : List (Datum × Datum))
  /-- A builtin, by its name. -/
  | builtin (name : String)
  /-- The value of a source text. -/
  | source (text : String)
  deriving Inhabited

mutual

/-- **Builds a value**; source texts are evaluated in the given scope. -/
def Datum.build (depth : Nat) (scope : ScopeId) : Datum → Eval Failure Value
  | .int value => .newInt value
  | .bool value => .done (.truth value)
  | .str text => .newStr text
  | .null => .done .nothing
  | .array elements => do
    let vs ← buildAll depth scope elements
    .newArray vs
  | .hash pairs => do
    let entries ← buildPairs depth scope [] pairs
    .newHash entries
  | .builtin name =>
    match Builtin.ofName? name with
    | some b => .make (.builtin · b)
    | none => .fail (.noBuiltin name)
  | .source text => evalSource depth scope text

/-- Builds values from left to right. -/
def buildAll (depth : Nat) (scope : ScopeId) :
    List Datum → Eval Failure (List Value)
  | [] => .done []
  | d :: ds => do
    let v ← d.build depth scope
    let vs ← buildAll depth scope ds
    return v :: vs

/-- Builds pairs from left to right and enters them into a table. The key of a
pair is checked before its value is built. -/
def buildPairs (depth : Nat) (scope : ScopeId)
    (entries : Table HashKey (Value × Value)) :
    List (Datum × Datum) → Eval Failure (Table HashKey (Value × Value))
  | [] => .done entries
  | (key, value) :: pairs => do
    let k ← key.build depth scope
    let hashKey ← k.asKey.mapError .eval
    let v ← value.build depth scope
    buildPairs depth scope (Table.insert hashKey (k, v) entries) pairs

end

end Monkey
