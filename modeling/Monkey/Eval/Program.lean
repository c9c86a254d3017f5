import Monkey.Eval.Operation

/-!
# Evaluating programs

Evaluation follows the tree: an expression is evaluated in a scope by
evaluating its parts in it from left to right. The one thing that does not
follow the tree is a call, which evaluates the body of whatever function its
callee turns out to be. So evaluation is defined in two steps. The first takes
the meaning of calls as a parameter `call` and recurses on trees alone. The
second ties the knot: calls nested `n + 1` deep are those whose bodies are
evaluated with calls nested `n` deep, and calls nested zero deep end without an
answer (`Closure.call`).

A program that is done or fails within some depth does the same within every
greater one, so depth decides only whether there is an answer. A program
without calls of its own functions has one at depth zero.

`return` is not a failure of the program but ends evaluation in the same way,
up to the function it stands in: it is an *interrupt*, and so is an error.
-/

namespace Monkey

/-- **What ends the evaluation of a statement early.** -/
inductive Interrupt where
  /-- A value is returned from the function. -/
  | returned (v : Value)
  /-- The program fails. -/
  | failed (e : EvalError)

/-- Evaluations that can end early. -/
abbrev Evaluation := Eval Interrupt

/-- An operation as a part of an evaluation. -/
def Operation.lift {α : Type} (x : Operation α) : Evaluation α :=
  x.mapError .failed

/-- **Where a `return` goes to**: the value that is returned is the result. -/
def Evaluation.catchReturn (x : Evaluation Value) : Operation Value := fun w =>
  match x w with
  | .done v w' => .done v w'
  | .failed (.returned v) w' => .done v w'
  | .failed (.failed e) w' => .failed e w'
  | .exhausted => .exhausted

/-- What a name means in a scope. Names that no scope binds are those of
builtins; each mention of a builtin is a new object. -/
def lookup (scope : ScopeId) (name : String) : Operation Value := do
  match ← Eval.ask (·.get? scope name) with
  | some v => .done v
  | none =>
    match Builtin.ofName? name with
    | some b => .make (.builtin · b)
    | none => .fail (.unboundName name)

/-- **Calls a value.** Functions of the program are called by `call`. -/
def Value.callWith (call : Closure → List Value → Operation Value)
    (f : Value) (args : List Value) : Operation Value :=
  match f with
  | .fn _ closure => call closure args
  | .builtin _ b => b.apply args
  | v => .fail (.notAFunction v.type)

section

variable (call : Closure → List Value → Operation Value)

mutual

/-- **Evaluates an expression** in a scope. -/
def Expr.eval (scope : ScopeId) : Expr → Evaluation Value
  | .ident name => (lookup scope name).lift
  | .int value => .newInt value
  | .str text => .newStr text
  | .bool value => .done (.truth value)
  | .array elements => do
    let vs ← evalExprs scope elements
    .newArray vs
  | .hash pairs => do
    let entries ← evalPairs scope [] pairs
    .newHash entries
  | .unary op operand => do
    let v ← operand.eval scope
    (op.apply v).lift
  | .binary op left right => do
    let v ← left.eval scope
    let w ← right.eval scope
    (op.apply v w).lift
  | .cond condition consequence none => do
    let v ← condition.eval scope
    if v.truthy then evalStmts scope .nothing consequence else .done .nothing
  | .cond condition consequence (some alternative) => do
    let v ← condition.eval scope
    if v.truthy then evalStmts scope .nothing consequence
    else evalStmts scope .nothing alternative
  | .fn params body => .make (.fn · ⟨params, body, scope⟩)
  | .call callee args => do
    let f ← callee.eval scope
    let vs ← evalExprs scope args
    (f.callWith call vs).lift
  | .index collection position => do
    let v ← collection.eval scope
    let w ← position.eval scope
    (v.at w).lift

/-- Evaluates expressions from left to right. -/
def evalExprs (scope : ScopeId) : List Expr → Evaluation (List Value)
  | [] => .done []
  | e :: es => do
    let v ← e.eval scope
    let vs ← evalExprs scope es
    return v :: vs

/-- Evaluates pairs from left to right and enters them into a table. The key
of a pair is checked before its value is evaluated. -/
def evalPairs (scope : ScopeId) (entries : Table HashKey (Value × Value)) :
    List (Expr × Expr) → Evaluation (Table HashKey (Value × Value))
  | [] => .done entries
  | (key, value) :: pairs => do
    let k ← key.eval scope
    let hashKey ← k.asKey.lift
    let v ← value.eval scope
    evalPairs scope (Table.insert hashKey (k, v) entries) pairs

/-- Evaluates the statements of a block in order. The result is that of the
last one, or `last` if there is none. -/
def evalStmts (scope : ScopeId) (last : Value) :
    List Stmt → Evaluation Value
  | [] => .done last
  | s :: ss => do
    let v ← s.eval scope
    evalStmts scope v ss

/-- **Evaluates a statement** in a scope. -/
def Stmt.eval (scope : ScopeId) : Stmt → Evaluation Value
  | .bind name value => do
    let v ← value.eval scope
    Eval.update (·.set scope name v)
    return .nothing
  | .ret value => do
    let v ← value.eval scope
    .fail (.returned v)
  | .expr value => value.eval scope

end

/-- Binds parameters to arguments, in order. -/
def bindParams (w : World) (scope : ScopeId) : List String → List Value → World
  | p :: ps, v :: vs => bindParams (w.set scope p v) scope ps vs
  | _, _ => w

/-- Makes the scope of a call: it binds the parameters, and the scope of the
function encloses it. -/
def Closure.enter (f : Closure) (args : List Value) : Operation ScopeId :=
  .step fun w =>
    let (w', scope) := w.addScope (some f.scope)
    (bindParams w' scope f.params args, scope)

/-- Calls a function of the program, given the meaning of the calls in its
body. -/
def Closure.enterAndRun (f : Closure) (args : List Value) : Operation Value :=
  if f.params.length = args.length then do
    let scope ← f.enter args
    Evaluation.catchReturn (evalStmts call scope .nothing f.body)
  else .fail (.argumentCount f.params.length args.length)

end

/-- **Calls a function of the program**, with calls nested up to `depth`
deep. -/
def Closure.call : (depth : Nat) → Closure → List Value → Operation Value
  | 0, _, _ => .exhaust
  | depth + 1, f, args => f.enterAndRun (Closure.call depth) args

/-- **Calls a value.** -/
def Value.call (depth : Nat) : Value → List Value → Operation Value :=
  Value.callWith (Closure.call depth)

/-- The depth of calls allowed where nothing else is said: more than the calls
of a program can be nested before memory for them runs out. -/
def generousDepth : Nat := 0x100000000

/-- **Evaluates a program** in a scope, with calls nested up to `depth` deep.
The result is that of the last statement, or null if there is none; a `return`
outside of functions ends the program. -/
def Program.eval (depth : Nat) (program : Program) (scope : ScopeId) :
    Operation Value :=
  Evaluation.catchReturn
    (evalStmts (Closure.call depth) scope .nothing program.statements)

end Monkey
