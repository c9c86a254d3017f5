import Monkey.Builtin
import Monkey.HashKey
import Monkey.Program.Equality
import Monkey.Table

/-!
# Values

Values never change, but they are objects: the language can ask whether two
expressions yield the same object, and two arrays with the same elements need
not be. Every value therefore carries an identity. The integers, strings,
arrays, hashes, functions and builtins that an evaluation makes are numbered,
and no number is handed out twice.

There are three objects that are not made but shared, one for each truth value
and one for null (`Value.truth`, `Value.nothing`). Nothing in the type of values
says that there are no other truth values and no other nulls: an object that
were made to be one would have a number, and would not be the shared one.

A function holds the scope it was made in by number; the scopes themselves
live outside of values, since they do change.
-/

namespace Monkey

/-- The identity of an object. -/
abbrev ObjectId := Nat

/-- The number of a scope. -/
abbrev ScopeId := Nat

/-- **A function of the language**: its parameters and body, and the scope it
was made in. -/
structure Closure where
  /-- The names of the parameters. -/
  params : List String
  /-- The body. -/
  body : Block
  /-- The scope that encloses the calls of the function. -/
  scope : ScopeId
  deriving DecidableEq, Inhabited

/-- **Which object a value is.** -/
inductive Identity where
  /-- One of the objects made by an evaluation. -/
  | object (id : ObjectId)
  /-- The shared object of a truth value. -/
  | bool (value : Bool)
  /-- The shared object of null. -/
  | null
  deriving DecidableEq, Repr, Inhabited

/-- **A value.** -/
inductive Value where
  /-- An integer. -/
  | int (id : ObjectId) (value : Int64)
  /-- A boolean. -/
  | bool (identity : Identity) (value : Bool)
  /-- A string. -/
  | str (id : ObjectId) (text : String)
  /-- An array of its elements. -/
  | array (id : ObjectId) (elements : List Value)
  /-- A hash. An entry keeps the object that served as key beside the value. -/
  | hash (id : ObjectId) (entries : List (HashKey × Value × Value))
  /-- A function of the program. -/
  | fn (id : ObjectId) (closure : Closure)
  /-- A function of the language. -/
  | builtin (id : ObjectId) (which : Builtin)
  /-- No value. -/
  | null (identity : Identity)
  deriving Inhabited

/-- The type of a value. -/
inductive ValueType where
  | integer
  | boolean
  | string
  | array
  | hash
  | function
  | builtin
  | null
  deriving DecidableEq, Repr, Inhabited

/-- How a type is called in messages. -/
def ValueType.label : ValueType → String
  | integer => "INTEGER"
  | boolean => "BOOLEAN"
  | string => "STRING"
  | array => "ARRAY"
  | hash => "HASH"
  | function => "FUNCTION"
  | builtin => "BUILTIN"
  | null => "NULL"

namespace Value

/-- **The shared truth value.** Comparisons, negations and literals yield it. -/
abbrev truth (b : Bool) : Value := bool (.bool b) b

/-- **The shared null.** It is yielded wherever there is no other value. -/
abbrev nothing : Value := null .null

/-- The type of a value. -/
def type : Value → ValueType
  | int _ _ => .integer
  | bool _ _ => .boolean
  | str _ _ => .string
  | array _ _ => .array
  | hash _ _ => .hash
  | fn _ _ => .function
  | builtin _ _ => .builtin
  | null _ => .null

/-- Which object a value is. -/
def identity : Value → Identity
  | int id _ | str id _ | array id _ | hash id _ | fn id _ | builtin id _ =>
    .object id
  | bool identity _ | null identity => identity

/-- **Whether two values are the same object.** -/
def identical (v w : Value) : Bool := v.identity == w.identity

/-- Whether a value counts as true in a condition: all do but `false` and
null. -/
def truthy : Value → Bool
  | bool _ value => value
  | null _ => false
  | _ => true

/-- The key a value is in a hash, if it can be one. -/
def key? : Value → Option HashKey
  | int _ value => some (.int value)
  | bool _ value => some (.bool value)
  | str _ text => some (.str text)
  | _ => none

end Value

end Monkey
