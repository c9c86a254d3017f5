/-!
# The builtins

Functions that come with the language. A name refers to a builtin where no
scope binds it.
-/

namespace Monkey

/-- **A builtin.** -/
inductive Builtin where
  /-- The number of characters of a string or of elements of an array. -/
  | len
  /-- The first element of an array. -/
  | first
  /-- The last element of an array. -/
  | last
  /-- An array without its first element. -/
  | rest
  /-- An array with an element added at its end. -/
  | push
  /-- Writes its arguments to the output, a line for each. -/
  | puts
  deriving DecidableEq, Repr, Inhabited

namespace Builtin

/-- The name that refers to a builtin. -/
def name : Builtin → String
  | len => "len"
  | first => "first"
  | last => "last"
  | rest => "rest"
  | push => "push"
  | puts => "puts"

/-- The builtin a name refers to. -/
def ofName? (name : String) : Option Builtin :=
  if name = "len" then some len
  else if name = "first" then some first
  else if name = "last" then some last
  else if name = "rest" then some rest
  else if name = "push" then some push
  else if name = "puts" then some puts
  else none

@[simp] theorem ofName?_name (b : Builtin) : ofName? b.name = some b := by
  cases b <;> decide

theorem name_of_ofName? {name : String} {b : Builtin}
    (h : ofName? name = some b) : b.name = name := by
  unfold ofName? at h
  grind [Builtin.name]

end Builtin

end Monkey
