import Monkey.Datum

/-!
# Sessions

A host drives the language through *handles* to scopes, numbered in the order
they were given out; the first belongs to a scope made at the start. Through
them it makes scopes, encloses one by another, reads and binds names, and
evaluates source text. Several handles may belong to one scope.

A session goes on after a command that fails, with whatever the command changed
before it failed. What a command writes is kept for that command only.
-/

namespace Monkey

/-- **The state of a session.** -/
structure Session where
  /-- The scopes and objects made so far, and what the last command wrote. -/
  world : World
  /-- The scope of each handle. -/
  handles : Array ScopeId

/-- **A command** of the host; scopes are given by handle. -/
inductive Command where
  /-- Evaluate a source text. -/
  | eval (handle : Nat) (source : String)
  /-- Ask what a name means. -/
  | get (handle : Nat) (name : String)
  /-- Bind a name. -/
  | set (handle : Nat) (name : String) (value : Datum)
  /-- Ask for a description of a scope. -/
  | describe (handle : Nat)
  /-- Ask whether two handles belong to one scope. -/
  | same (first second : Nat)
  /-- Make a scope with none around it. -/
  | new
  /-- Make a scope enclosed by another. -/
  | enclose (handle : Nat)
  /-- Give out another handle to a scope. -/
  | clone (handle : Nat)

/-- **The reply to a command.** -/
inductive Reply where
  /-- The source has a value. -/
  | evaluated (v : Value) (scope : ScopeId)
  /-- The source has none. -/
  | notEvaluated (failure : Failure) (scope : ScopeId)
  /-- What the name means. -/
  | found (v : Value)
  /-- No scope binds the name. -/
  | missing
  /-- The scope that was bound in or asked about. -/
  | scope (scope : ScopeId)
  /-- The value to bind could not be built. -/
  | notBuilt (failure : Failure)
  /-- Whether the handles belong to one scope. -/
  | same (answer : Bool)
  /-- The new handle. -/
  | made (handle : Nat)
  /-- There is no such handle. -/
  | noSuchHandle
  /-- Calls were nested too deeply. -/
  | exhausted

namespace Session

/-- A session with a handle to one new scope. -/
def start (a : Arrangement) : Session :=
  let (w, scope) := (World.empty a).addScope none
  ⟨w, #[scope]⟩

/-- Gives out a new handle. -/
def give (s : Session) (w : World) (scope : ScopeId) : Session × Reply :=
  (⟨w, s.handles.push scope⟩, .made s.handles.size)

/-- Carries out a command on the scope of a handle, if there is one. -/
def onScope (s : Session) (handle : Nat)
    (f : ScopeId → Session × Reply) : Session × Reply :=
  match s.handles[handle]? with
  | some scope => f scope
  | none => (s, .noSuchHandle)

/-- Evaluates a source text in a scope. -/
def evalIn (depth : Nat) (s : Session) (source : String) (scope : ScopeId) :
    Session × Reply :=
  match (evalSource depth scope source).run s.world with
  | .done v w => (⟨w, s.handles⟩, .evaluated v scope)
  | .failed e w => (⟨w, s.handles⟩, .notEvaluated e scope)
  | .exhausted => (s, .exhausted)

/-- Binds a name in a scope to a value built there. -/
def setIn (depth : Nat) (s : Session) (name : String) (value : Datum)
    (scope : ScopeId) : Session × Reply :=
  match (value.build depth scope).run s.world with
  | .done v w => (⟨w.set scope name v, s.handles⟩, .scope scope)
  | .failed e w => (⟨w, s.handles⟩, .notBuilt e)
  | .exhausted => (s, .exhausted)

/-- **Carries out a command.** -/
def step (depth : Nat) (s : Session) (command : Command) : Session × Reply :=
  let s : Session := ⟨s.world.clearOutput, s.handles⟩
  match command with
  | .eval handle source => s.onScope handle (s.evalIn depth source)
  | .get handle name =>
    s.onScope handle fun scope =>
      match s.world.get? scope name with
      | some v => (s, .found v)
      | none => (s, .missing)
  | .set handle name value => s.onScope handle (s.setIn depth name value)
  | .describe handle => s.onScope handle fun scope => (s, .scope scope)
  | .same first second =>
    s.onScope first fun a => s.onScope second fun b => (s, .same (a = b))
  | .new =>
    let (w, scope) := s.world.addScope none
    s.give w scope
  | .enclose handle =>
    s.onScope handle fun outer =>
      let (w, scope) := s.world.addScope (some outer)
      s.give w scope
  | .clone handle => s.onScope handle fun scope => s.give s.world scope

end Session

end Monkey
