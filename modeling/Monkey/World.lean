import Monkey.Text.Escaped
import Monkey.Value.Render

/-!
# Scopes, identities and output

What evaluation changes is collected in a *world*: the scopes made so far, the
next identity to hand out, and the text written so far. Scopes are numbered in
the order they are made, and a scope is enclosed by one made before it. A world
also has the orders of the hashes that are in it or will be, which nothing
changes.

A name means what the innermost scope that binds it says. The scopes asked, in
order, are the *chain* of a scope: the scope itself, the one that encloses it,
and so on. A link to a scope that was not made before is not followed, which is
why a chain ends whatever the links are; no operation makes such a link.
-/

namespace Monkey

/-- **A scope**: the names bound in it, and the scope around it. -/
structure Scope where
  /-- The names bound in the scope itself. -/
  bindings : Table String Value
  /-- The scope around it, if there is one. -/
  outer : Option ScopeId
  deriving Inhabited

/-- **The world of an evaluation.** -/
structure World where
  /-- The scopes, in the order they were made. -/
  scopes : Array Scope
  /-- The identity of the next object. -/
  nextObject : ObjectId
  /-- What has been written. -/
  output : String
  /-- The orders of the hashes. -/
  arrangement : Arrangement
  deriving Inhabited

namespace World

/-- The world before anything happens. -/
def empty (a : Arrangement) : World := ⟨#[], 0, "", a⟩

/-- Makes a scope without bindings; its number is the second part. -/
def addScope (w : World) (outer : Option ScopeId) : World × ScopeId :=
  let s := w.scopes.size
  (⟨w.scopes.push ⟨[], outer⟩, w.nextObject, w.output, w.arrangement⟩, s)

/-- Binds a name in a scope, in place of what it was bound to there. -/
def set (w : World) (s : ScopeId) (name : String) (v : Value) : World :=
  ⟨w.scopes.modify s fun scope =>
      ⟨Table.insert name v scope.bindings, scope.outer⟩,
    w.nextObject, w.output, w.arrangement⟩

/-- Hands out the next identity. -/
def addObject (w : World) : World × ObjectId :=
  (⟨w.scopes, w.nextObject + 1, w.output, w.arrangement⟩, w.nextObject)

/-- The same world with a text in place of what has been written. -/
def reword (w : World) (text : String) : World :=
  ⟨w.scopes, w.nextObject, text, w.arrangement⟩

/-- Writes a text. -/
def write (w : World) (text : String) : World :=
  w.reword (w.output ++ text)

/-- Writes a text and ends the line. -/
def writeLine (w : World) (text : String) : World :=
  w.write (text ++ "\n")

/-- Writes the text of a value and ends the line. -/
def writeValue (w : World) (v : Value) : World :=
  w.writeLine (v.render w.arrangement)

/-- Writes the texts of values, a line for each. -/
def writeValues (w : World) (vs : List Value) : World :=
  vs.foldl writeValue w

/-- The same world with nothing written. -/
def clearOutput (w : World) : World := w.reword ""

/-- What a scope binds a name to, without asking the scopes around it. -/
def getLocal? (w : World) (s : ScopeId) (name : String) : Option Value :=
  w.scopes[s]?.bind fun scope => Table.get? name scope.bindings

/-- The scope around a scope. -/
def outer? (w : World) (s : ScopeId) : Option ScopeId :=
  w.scopes[s]?.bind (·.outer)

/-- **The chain of a scope**: the scopes asked for a name, innermost first. -/
def chain (w : World) (s : ScopeId) : List ScopeId :=
  s :: match w.outer? s with
    | some o => if o < s then w.chain o else []
    | none => []

/-- **What a name means in a scope**: what the first scope of the chain that
binds it says. -/
def get? (w : World) (s : ScopeId) (name : String) : Option Value :=
  (w.chain s).findSome? fun i => w.getLocal? i name

/-- The names bound in a scope itself, in ascending order. -/
def names (w : World) (s : ScopeId) : List String :=
  match w.scopes[s]? with
  | some scope => Table.keys scope.bindings
  | none => []

/-- A scope in words: the names bound in it, and whether there is a scope
around it. -/
def describe (w : World) (s : ScopeId) : String :=
  "Environment \x7b names: ["
    ++ ", ".intercalate ((w.names s).map Text.escape)
    ++ "], enclosed: "
    ++ (if (w.outer? s).isSome then "true" else "false") ++ " \x7d"

/-! ## What the operations change -/

@[simp] theorem size_scopes_set (w : World) (s : ScopeId) (name : String)
    (v : Value) : (w.set s name v).scopes.size = w.scopes.size := by
  simp [set]

/-- Binding a name keeps the links between scopes. -/
@[simp] theorem outer?_set (w : World) (s t : ScopeId) (name : String)
    (v : Value) : (w.set s name v).outer? t = w.outer? t := by
  by_cases h : s = t
  · simp [outer?, set, Array.getElem?_modify, h]
    cases w.scopes[t]? <;> rfl
  · simp [outer?, set, Array.getElem?_modify, h]

/-- **Binding a name changes that name in that scope only.** -/
theorem getLocal?_set (w : World) {s : ScopeId} (hs : s < w.scopes.size)
    (t : ScopeId) (name other : String) (v : Value) :
    (w.set s name v).getLocal? t other
      = if t = s ∧ other = name then some v else w.getLocal? t other := by
  by_cases h : s = t
  · subst h
    simp only [getLocal?, set, Array.getElem?_modify,
      Array.getElem?_eq_getElem hs]
    simp [Table.get?_insert]
  · simp [getLocal?, set, Array.getElem?_modify, h, Ne.symm h]

/-! ### Scopes out of range, and new ones -/

section

variable {w : World} {s : ScopeId}

theorem getLocal?_of_size_le (h : w.scopes.size ≤ s) (name : String) :
    w.getLocal? s name = none := by
  rw [getLocal?, Array.getElem?_eq_none h]
  rfl

theorem outer?_of_size_le (h : w.scopes.size ≤ s) : w.outer? s = none := by
  rw [outer?, Array.getElem?_eq_none h]
  rfl

theorem set_of_size_le (h : w.scopes.size ≤ s) (name : String) (v : Value) :
    w.set s name v = w := by
  have hmodify (f : Scope → Scope) : w.scopes.modify s f = w.scopes := by
    refine Array.ext_getElem? fun i => ?_
    rw [Array.getElem?_modify]
    split
    · rename_i hi
      rw [← hi, Array.getElem?_eq_none h]
      rfl
    · rfl
  rw [set, hmodify]

theorem size_addScope (outer : Option ScopeId) :
    (w.addScope outer).1.scopes.size = w.scopes.size + 1 :=
  Array.size_push _

theorem outer?_addScope (outer : Option ScopeId) :
    (w.addScope outer).1.outer? s
      = if s = w.scopes.size then outer else w.outer? s := by
  unfold outer? addScope
  rw [Array.getElem?_push]
  split <;> rfl

/-- A new scope binds nothing. -/
theorem getLocal?_addScope (outer : Option ScopeId) (name : String) :
    (w.addScope outer).1.getLocal? s name = w.getLocal? s name := by
  unfold getLocal? addScope
  rw [Array.getElem?_push]
  split
  · rename_i hs
    rw [hs, Array.getElem?_eq_none (Nat.le_refl _)]
    rfl
  · rfl

end

end World

end Monkey
