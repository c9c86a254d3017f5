import Monkey.Program.Parse
import Monkey.Proofs.Comparison
import Monkey.Proofs.Interruption
import Monkey.Proofs.Naming

/-!
# A program that maps

The language has no loops, and `map` is not among its builtins: it is a program.
The function that it binds goes through an array by a function of its own, which
calls itself with the rest of the array and with the array of the results so far.
Here it is shown that this is `List.mapM`, whatever is mapped and whichever
function it is mapped by (`Mapping.maps`).

What a round relies on is that names mean in its scope what they should
(`Mapping.Round`). They go on doing so as long as the world only grows
(`World.Grown`), and a function that writes nothing does no more to it. So a round
can be followed from name to name, up to the call that begins the next one
(`Mapping.Ready.run_iter_cons`), and the rounds by induction on the array
(`Mapping.run_iter`). How deeply calls have to be nested is found on the way.
-/

namespace Monkey

open Eval

/-! ## Worlds that grow -/

/-- **The world has grown**: scopes may have been made and identities handed out,
but the scopes that there were are as they were, and so are the orders of hashes,
and nothing has been written. -/
structure World.Grown (w w' : World) : Prop where
  scopes : w.KeepsScopes w'
  objects : w.nextObject ≤ w'.nextObject
  output : w'.output = w.output
  arrangement : w'.arrangement = w.arrangement

namespace World

variable {u v w w' : World} {s : ScopeId} {x : String}

theorem Grown.trans (huv : u.Grown v) (hvw : v.Grown w) : u.Grown w where
  scopes s hs := by
    rw [hvw.scopes s (Nat.lt_of_lt_of_le hs huv.scopes.size_le),
      huv.scopes s hs]
  objects := Nat.le_trans huv.objects hvw.objects
  output := hvw.output.trans huv.output
  arrangement := hvw.arrangement.trans huv.arrangement

/-- The world with some more identities handed out. -/
def later (w : World) (n : Nat) : World :=
  ⟨w.scopes, w.nextObject + n, w.output, w.arrangement⟩

theorem grown_later (w : World) (n : Nat) : w.Grown (w.later n) :=
  ⟨fun _ _ => rfl, Nat.le_add_right _ n, rfl, rfl⟩

theorem grown_addScope (w : World) (outer : Option ScopeId) :
    w.Grown (w.addScope outer).1 :=
  ⟨w.keepsScopes_addScope outer, Nat.le_refl _, rfl, rfl⟩

/-- What is bound in a new scope does not matter to the old ones. -/
theorem Grown.set (h : w.Grown w') (hs : w.scopes.size ≤ s) (v : Value) :
    w.Grown (w'.set s x v) where
  scopes t ht := by
    have hne : s ≠ t := fun heq => Nat.not_lt.2 hs (heq ▸ ht)
    rw [World.set, Array.getElem?_modify, if_neg hne, h.scopes t ht]
  objects := h.objects
  output := h.output
  arrangement := h.arrangement

/-- **Names mean what they did** in the scopes that there were. -/
theorem Grown.get? (h : w.Grown w') (hs : s < w.scopes.size) :
    w'.get? s x = w.get? s x := by
  refine get?_congr (fun t ht => ?_) fun t ht => ?_
  · exact h.scopes.keepsLinks t (Nat.lt_of_le_of_lt ht hs)
  · unfold getLocal?
    rw [h.scopes t (Nat.lt_of_le_of_lt ht hs)]

/-- What a name means in a scope in which one has been bound. -/
theorem get?_set (hs : s < w.scopes.size) {y : String} {v : Value} :
    (w.set s x v).get? s y = if y = x then some v else w.get? s y := by
  split
  · rename_i hy
    rw [get?_eq, getLocal?_set w hs, if_pos ⟨rfl, hy⟩, Option.some_or]
  · rename_i hy
    exact get?_set_of_ne hs hy v s

/-- What a name means in a new scope. -/
theorem get?_addScope (hs : s < w.scopes.size) :
    (w.addScope (some s)).1.get? w.scopes.size x = w.get? s x := by
  rw [get?_eq, getLocal?_addScope, getLocal?_of_size_le (Nat.le_refl _),
    outer?_addScope_self, Option.bind_some, if_pos hs,
    (w.grown_addScope _).get? hs]
  rfl

end World

/-- **A call that writes nothing makes the world grow.** -/
theorem Value.grown_call {depth : Nat} {f : Value} {args : List Value}
    {w w' : World} (h : ((f.call depth args).run w).world? = some w')
    (houtput : w'.output = w.output) : w.Grown w' := by
  have hscopes : w.KeepsScopes w' :=
    Value.within_callWith (Closure.within_call depth) f args w w' h
  obtain ⟨k, k', hsteps, rfl, rfl⟩ := Value.exists_steps_call h
  exact ⟨hscopes, hsteps.nextObject_le, houtput, hsteps.arrangement_eq⟩

/-! ## Answers -/

/-- **The outcome is the answer**, with a value of the same contents or with the
same error. -/
inductive Outcome.Answers (w : World) :
    Except EvalError Value → Outcome EvalError Value → Prop where
  | ok {u v : Value} : u.equal v = true → Answers w (.ok v) (.done u w)
  | error {e : EvalError} : Answers w (.error e) (.failed e w)

/-- **Calling the value comes to the answer**, with calls nested deeply enough,
and writes nothing. -/
def Value.Computes (f : Value) (args : List Value) (w : World)
    (answer : Except EvalError Value) : Prop :=
  ∃ depth w', Outcome.Answers w' answer ((f.call depth args).run w)
    ∧ w'.output = w.output

/-! ## The program -/

namespace Mapping

/-- The text of the program. -/
def source : String :=
  "\n        let map = fn(arr, f) \x7b\n"
    ++ "            let iter = fn(arr, acc) \x7b\n"
    ++ "                if (len(arr) == 0) \x7b acc \x7d else \x7b "
    ++ "iter(rest(arr), push(acc, f(first(arr)))) \x7d\n"
    ++ "            \x7d;\n"
    ++ "            iter(arr, [])\n"
    ++ "        \x7d;"

/-- Whether the array is at its end: `len(arr) == 0`. -/
def condition : Expr :=
  .binary .equal (.call (.ident "len") [.ident "arr"]) (.int 0)

/-- The result for the first element: `f(first(arr))`. -/
def element : Expr :=
  .call (.ident "f") [.call (.ident "first") [.ident "arr"]]

/-- The next round: `iter(rest(arr), push(acc, f(first(arr))))`. -/
def next : Expr :=
  .call (.ident "iter") [.call (.ident "rest") [.ident "arr"],
    .call (.ident "push") [.ident "acc", element]]

/-- A round: at the end of the array the results so far, and else the next
round. -/
def round : List Stmt :=
  [.expr (.cond condition [.expr (.ident "acc")] (some [.expr next]))]

/-- The function that goes through the array, made in the scope of a call of
`map`. -/
def iter (scope : ScopeId) : Closure := ⟨["arr", "acc"], round, scope⟩

/-- What a call of `map` does: it makes that function and calls it. -/
def body : List Stmt :=
  [.bind "iter" (.fn ["arr", "acc"] round),
    .expr (.call (.ident "iter") [.ident "arr", .array []])]

/-- The function `map`, made in a scope. -/
def map (scope : ScopeId) : Closure := ⟨["arr", "f"], body, scope⟩

/-- The program. -/
def program : Program := ⟨[.bind "map" (.fn ["arr", "f"] body)]⟩

/-- The builtins that it takes for granted. -/
def builtins : List String := ["len", "first", "rest", "push"]

/-! ## What names mean in a round -/

/-- **What a call of `map` has set up** in its scope: the function that is mapped
and the one that goes through the array. -/
structure Ready (f : Value) (s : ScopeId) (w : World) : Prop where
  made : s < w.scopes.size
  loop : ∃ id, w.get? s "iter" = some (.fn id (iter s))
  function : w.get? s "f" = some f
  free : ∀ x ∈ builtins, w.get? s x = none

/-- **What the names mean in a round.** -/
structure Round (f again arr acc : Value) (s : ScopeId) (w : World) : Prop where
  made : s < w.scopes.size
  array : w.get? s "arr" = some arr
  results : w.get? s "acc" = some acc
  loop : w.get? s "iter" = some again
  function : w.get? s "f" = some f
  free : ∀ x ∈ builtins, w.get? s x = none

section

variable {f again arr acc : Value} {s : ScopeId} {w w' : World}

theorem Ready.grown (h : Ready f s w) (hw : w.Grown w') : Ready f s w' where
  made := Nat.lt_of_lt_of_le h.made hw.scopes.size_le
  loop := h.loop.imp fun _ hloop => (hw.get? h.made).trans hloop
  function := (hw.get? h.made).trans h.function
  free x hx := (hw.get? h.made).trans (h.free x hx)

theorem Round.grown (h : Round f again arr acc s w) (hw : w.Grown w') :
    Round f again arr acc s w' where
  made := Nat.lt_of_lt_of_le h.made hw.scopes.size_le
  array := (hw.get? h.made).trans h.array
  results := (hw.get? h.made).trans h.results
  loop := (hw.get? h.made).trans h.loop
  function := (hw.get? h.made).trans h.function
  free x hx := (hw.get? h.made).trans (h.free x hx)

end

end Mapping

/-- **The scope of a call with two arguments.** -/
def World.enter (w : World) (outer : ScopeId) (x y : String) (a b : Value) :
    World :=
  ((w.addScope (some outer)).1.set w.scopes.size x a).set w.scopes.size y b

namespace World

variable {w : World} {outer : ScopeId} {x y : String} {a b : Value}

theorem grown_enter : w.Grown (w.enter outer x y a b) :=
  ((w.grown_addScope _).set (Nat.le_refl _) a).set (Nat.le_refl _) b

theorem size_enter :
    (w.enter outer x y a b).scopes.size = w.scopes.size + 1 := by
  rw [enter, size_scopes_set, size_scopes_set, size_addScope]

/-- **What a name means in the scope of the call**: one of the arguments, or what
it means in the scope around it. -/
theorem get?_enter (houter : outer < w.scopes.size) (z : String) :
    (w.enter outer x y a b).get? w.scopes.size z
      = if z = y then some b else if z = x then some a
        else w.get? outer z := by
  have hsize : w.scopes.size < (w.addScope (some outer)).1.scopes.size := by
    rw [size_addScope]
    exact Nat.lt_succ_self _
  rw [enter, get?_set (by rwa [size_scopes_set]), get?_set hsize,
    get?_addScope houter]

end World

/-- A call of a function with two parameters evaluates its body in that scope. -/
theorem Closure.run_call_enter {c : Closure} {x y : String}
    (hparams : c.params = [x, y]) (depth : Nat) (a b : Value) (w : World) :
    (c.call (depth + 1) [a, b]).run w
      = (Evaluation.catchReturn
        (evalStmts (Closure.call depth) w.scopes.size .nothing c.body)).run
          (w.enter c.scope x y a b) := by
  have henter : (c.enter [a, b]).run w
      = .done w.scopes.size (w.enter c.scope x y a b) := by
    unfold Closure.enter
    rw [hparams]
    rfl
  have hlength : c.params.length = [a, b].length := by
    rw [hparams]
    rfl
  rw [Closure.call, Closure.enterAndRun, if_pos hlength,
    run_bind_of_done henter]

/-- A body that comes to what an operation comes to. -/
theorem Evaluation.run_catchReturn_of_lift {x : Evaluation Value}
    {y : Operation Value} {w w' : World} (h : x.run w = y.lift.run w') :
    x.catchReturn.run w = y.run w' := by
  unfold Eval.run at *
  rw [Evaluation.catchReturn, h, Operation.lift, Eval.mapError]
  cases y w' <;> rfl

/-! ## Calls in expressions -/

section

variable {call : Closure → List Value → Operation Value} {s : ScopeId}
  {u v w : World}

theorem run_evalExprs_one {e : Expr} {a : Value}
    (h : (e.eval call s).run u = .done a v) :
    (evalExprs call s [e]).run u = .done [a] v := by
  rw [evalExprs, run_bind_of_done h, evalExprs]
  rfl

theorem run_evalExprs_two {d e : Expr} {a b : Value}
    (hd : (d.eval call s).run u = .done a v)
    (he : (e.eval call s).run v = .done b w) :
    (evalExprs call s [d, e]).run u = .done [a, b] w := by
  rw [evalExprs, run_bind_of_done hd, run_bind_of_done (run_evalExprs_one he)]
  rfl

theorem run_evalExprs_two_failed {d e : Expr} {a : Value} {i : Interrupt}
    (hd : (d.eval call s).run u = .done a v)
    (he : (e.eval call s).run v = .failed i w) :
    (evalExprs call s [d, e]).run u = .failed i w := by
  rw [evalExprs, run_bind_of_done hd, evalExprs]
  refine run_bind_of_failed (run_bind_of_failed he _) _

/-- A block of one statement. -/
theorem run_evalStmts_one (st : Stmt) (last : Value) (w : World) :
    (evalStmts call s last [st]).run w = (st.eval call s).run w := by
  rw [evalStmts]
  cases hrun : (st.eval call s).run w with
  | done a w' => rw [run_bind_of_done hrun, evalStmts, run_done]
  | failed i w' => exact run_bind_of_failed hrun _
  | exhausted => exact run_bind_of_exhausted hrun _

/-- **A call**, when the callee and the arguments are done. -/
theorem Expr.run_call {callee : Expr} {args : List Expr} {f : Value}
    {vs : List Value} (hcallee : (callee.eval call s).run u = .done f v)
    (hargs : (evalExprs call s args).run v = .done vs w) :
    ((Expr.call callee args).eval call s).run u
      = (f.callWith call vs).lift.run w := by
  rw [Expr.eval, run_bind_of_done hcallee, run_bind_of_done hargs]

theorem Expr.run_call_failed {callee : Expr} {args : List Expr} {f : Value}
    {i : Interrupt} (hcallee : (callee.eval call s).run u = .done f v)
    (hargs : (evalExprs call s args).run v = .failed i w) :
    ((Expr.call callee args).eval call s).run u = .failed i w := by
  rw [Expr.eval, run_bind_of_done hcallee, run_bind_of_failed hargs]

/-- **A call of a builtin by its name.** -/
theorem Expr.run_call_builtin {x : String} {b : Builtin} {args : List Expr}
    {vs : List Value} {r : Value} {w' : World} (hfree : u.get? s x = none)
    (hb : Builtin.ofName? x = some b)
    (hargs : (evalExprs call s args).run u.addObject.1 = .done vs w)
    (happly : (b.apply vs).run w = .done r w') :
    ((Expr.call (.ident x) args).eval call s).run u = .done r w' := by
  rw [Expr.run_call (Expr.run_ident_of_builtin hfree hb) hargs]
  exact Operation.run_lift_of_done happly

end

/-! ## One round -/

namespace Mapping

section

variable {call : Closure → List Value → Operation Value}
  {f again a : Value} {vs us : List Value} {i j : ObjectId} {s : ScopeId}
  {w w' : World}

theorem Round.run_arr {arr acc : Value} (h : Round f again arr acc s w) :
    (evalExprs call s [.ident "arr"]).run w = .done [arr] w :=
  run_evalExprs_one (Expr.run_ident_of_bound h.array)

/-- The length tells whether the array is at its end. -/
theorem Round.run_condition {acc : Value}
    (h : Round f again (.array i vs) acc s w) :
    (condition.eval call s).run w
      = .done (.truth (Int64.ofNat vs.length = 0)) (w.later 3) := by
  have hzero : ((Expr.int 0).eval call s).run (w.later 2)
      = .done (.int (w.nextObject + 2) 0) (w.later 3) := by
    rw [Expr.eval]
    rfl
  exact Expr.run_binary (Expr.run_call_builtin (h.free "len" (by decide)) rfl
    (h.grown (w.grown_later 1)).run_arr rfl) hzero rfl

theorem Round.run_rest {acc : Value}
    (h : Round f again (.array i (a :: vs)) acc s w) :
    ((Expr.call (.ident "rest") [.ident "arr"]).eval call s).run w
      = .done (.array (w.nextObject + 1) vs) (w.later 2) :=
  Expr.run_call_builtin (h.free "rest" (by decide)) rfl
    (h.grown (w.grown_later 1)).run_arr rfl

/-- The function is called with the first element. -/
theorem Round.run_element {acc : Value}
    (h : Round f again (.array i (a :: vs)) acc s w) :
    (element.eval call s).run w
      = (f.callWith call [a]).lift.run (w.later 1) := by
  have hfirst : ((Expr.call (.ident "first") [.ident "arr"]).eval call s).run w
      = .done a (w.later 1) :=
    Expr.run_call_builtin (h.free "first" (by decide)) rfl
      (h.grown (w.grown_later 1)).run_arr rfl
  exact Expr.run_call (Expr.run_ident_of_bound h.function)
    (run_evalExprs_one hfirst)

/-- **If the function fails, the round does.** -/
theorem Round.run_next_of_failed {e : EvalError}
    (h : Round f again (.array i (a :: vs)) (.array j us) s w)
    (hf : (f.callWith call [a]).run (w.later 4) = .failed e w') :
    (next.eval call s).run w = .failed (.failed e) w' := by
  have hacc : ((Expr.ident "acc").eval call s).run (w.later 3)
      = .done (.array j us) (w.later 3) :=
    Expr.run_ident_of_bound (h.grown (w.grown_later 3)).results
  have helement : (element.eval call s).run (w.later 3)
      = .failed (.failed e) w' :=
    (h.grown (w.grown_later 3)).run_element.trans
      (Operation.run_lift_of_failed hf)
  have hpush := Expr.run_call_failed (Expr.run_ident_of_builtin
    ((h.grown (w.grown_later 2)).free "push" (by decide)) rfl)
    (run_evalExprs_two_failed hacc helement)
  exact Expr.run_call_failed (Expr.run_ident_of_bound h.loop)
    (run_evalExprs_two_failed h.run_rest hpush)

/-- **If the function is done, the next round has its result.** -/
theorem Round.run_next_of_done {r : Value}
    (h : Round f again (.array i (a :: vs)) (.array j us) s w)
    (hf : (f.callWith call [a]).run (w.later 4) = .done r w') :
    (next.eval call s).run w
      = (again.callWith call [.array (w.nextObject + 1) vs,
        .array w'.nextObject (us ++ [r])]).lift.run (w'.later 1) := by
  have hacc : ((Expr.ident "acc").eval call s).run (w.later 3)
      = .done (.array j us) (w.later 3) :=
    Expr.run_ident_of_bound (h.grown (w.grown_later 3)).results
  have helement : (element.eval call s).run (w.later 3) = .done r w' :=
    (h.grown (w.grown_later 3)).run_element.trans
      (Operation.run_lift_of_done hf)
  have hpush := Expr.run_call_builtin
    ((h.grown (w.grown_later 2)).free "push" (by decide)) rfl
    (run_evalExprs_two hacc helement) rfl
  exact Expr.run_call (Expr.run_ident_of_bound h.loop)
    (run_evalExprs_two h.run_rest hpush)

/-- **A round at the end of the array** gives what there is so far. -/
theorem Round.run_round_nil {acc : Value}
    (h : Round f again (.array i []) acc s w) :
    (evalStmts call s .nothing round).run w = .done acc (w.later 3) := by
  have hacc : ((Expr.ident "acc").eval call s).run (w.later 3)
      = .done acc (w.later 3) :=
    Expr.run_ident_of_bound (h.grown (w.grown_later 3)).results
  rw [round, run_evalStmts_one, Stmt.eval, Expr.eval,
    run_bind_of_done h.run_condition, if_pos (by decide), run_evalStmts_one,
    Stmt.eval, hacc]

/-- A length that can be counted is told from zero. -/
theorem ofNat_ne_zero {n : Nat} (hpos : 0 < n)
    (hn : n < 18446744073709551616) : Int64.ofNat n ≠ 0 := by
  intro hzero
  have hmod : n % 18446744073709551616 = 0 := by
    simpa using congrArg (·.toBitVec.toNat) hzero
  omega

/-- **A round before the end of the array** goes on to the next one. -/
theorem Round.run_round_cons {acc : Value}
    (h : Round f again (.array i (a :: vs)) acc s w)
    (hlength : (a :: vs).length < 18446744073709551616) :
    (evalStmts call s .nothing round).run w
      = (next.eval call s).run (w.later 3) := by
  have hlong : ¬ (Value.truth (Int64.ofNat (a :: vs).length = 0)).truthy := by
    intro htruthy
    exact ofNat_ne_zero (Nat.succ_pos _) hlength (of_decide_eq_true htruthy)
  rw [round, run_evalStmts_one, Stmt.eval, Expr.eval,
    run_bind_of_done h.run_condition, if_neg hlong, run_evalStmts_one,
    Stmt.eval]

end

/-! ## All rounds -/

/-- **What the names mean in the scope of a call** of the function that goes
through the array. -/
theorem Ready.round {f : Value} {s : ScopeId} {w : World} (h : Ready f s w)
    (arr acc : Value) :
    ∃ id, Round f (.fn id (iter s)) arr acc w.scopes.size
      (w.enter s "arr" "acc" arr acc) := by
  have hother {x : String} (hx : x ≠ "arr" ∧ x ≠ "acc") :
      (w.enter s "arr" "acc" arr acc).get? w.scopes.size x = w.get? s x := by
    rw [World.get?_enter h.made, if_neg hx.2, if_neg hx.1]
  obtain ⟨id, hloop⟩ := h.loop
  refine ⟨id, ?_, ?_, ?_, ?_, ?_, fun x hx => ?_⟩
  · rw [World.size_enter]
    exact Nat.lt_succ_self _
  · exact World.get?_enter h.made "arr"
  · exact World.get?_enter h.made "acc"
  · exact (hother (by decide)).trans hloop
  · exact (hother (by decide)).trans h.function
  · have hnames : ∀ x ∈ builtins, x ≠ "arr" ∧ x ≠ "acc" := by decide
    exact (hother (hnames x hx)).trans (h.free x hx)

section

variable {f a : Value} {vs us : List Value} {i j : ObjectId} {s : ScopeId}
  {w : World}

/-- **The last call** of the function that goes through the array. -/
theorem Ready.run_iter_nil (h : Ready f s w) :
    ∃ w', w.Grown w'
      ∧ ((iter s).call 1 [.array i [], .array j us]).run w
        = .done (.array j us) w' := by
  obtain ⟨id, hround⟩ := h.round (.array i []) (.array j us)
  have hgrown : w.Grown (w.enter s "arr" "acc" (.array i []) (.array j us)) :=
    World.grown_enter
  refine ⟨_, hgrown.trans (World.grown_later _ 3), ?_⟩
  rw [Closure.run_call_enter rfl]
  exact Evaluation.run_catchReturn_of_lift hround.run_round_nil

/-- **A call before the last one**: the function is called with the first
element. If that fails, so does the call; if it is done, the rest of the array is
gone through with the result behind those that there were. -/
theorem Ready.run_iter_cons (h : Ready f s w)
    (hlength : (a :: vs).length < 18446744073709551616) :
    ∃ u, w.Grown u ∧ ∀ depth,
      (∀ e u', (f.call depth [a]).run u = .failed e u' →
        ((iter s).call (depth + 1) [.array i (a :: vs), .array j us]).run w
          = .failed e u')
      ∧ ∀ r u', (f.call depth [a]).run u = .done r u' →
        ((iter s).call (depth + 1) [.array i (a :: vs), .array j us]).run w
          = ((iter s).call depth [.array (w.nextObject + 4) vs,
            .array u'.nextObject (us ++ [r])]).run (u'.later 1) := by
  obtain ⟨id, hround⟩ := h.round (.array i (a :: vs)) (.array j us)
  have hgrown : w.Grown
      (w.enter s "arr" "acc" (.array i (a :: vs)) (.array j us)) :=
    World.grown_enter
  have hnext := hround.grown (World.grown_later _ 3)
  refine ⟨_, hgrown.trans ((World.grown_later _ 3).trans
    (World.grown_later _ 4)), fun depth => ?_⟩
  rw [Closure.run_call_enter rfl]
  constructor
  · intro e u' hf
    refine Evaluation.run_catchReturn_of_lift
      ((hround.run_round_cons hlength).trans ?_)
    exact hnext.run_next_of_failed hf
  · intro r u' hf
    exact Evaluation.run_catchReturn_of_lift
      ((hround.run_round_cons hlength).trans (hnext.run_next_of_done hf))

end

/-- **The outcome is what is mapped**, behind what there was already. -/
inductive Mapped (us : List Value) (w : World) :
    Except EvalError (List Value) → Outcome EvalError Value → Prop where
  | ok {id : ObjectId} {rs ts : List Value} : equalValues rs ts = true →
      Mapped us w (.ok ts) (.done (.array id (us ++ rs)) w)
  | error {e : EvalError} : Mapped us w (.error e) (.failed e w)

section

variable {us : List Value} {w : World} {rs? : Except EvalError (List Value)}
  {o : Outcome EvalError Value}

theorem Mapped.ne_exhausted (h : Mapped us w rs? o) : o ≠ .exhausted := by
  cases h <;> nofun

/-- With nothing before it, what is mapped is the answer. -/
theorem Mapped.answers (h : Mapped [] w rs? o) (i : ObjectId) :
    Outcome.Answers w (.array i <$> rs?) o := by
  cases h with
  | ok hrs => exact .ok hrs
  | error => exact .error

/-- What is mapped with one more element before it. -/
theorem Mapped.cons {r v : Value} (h : Mapped (us ++ [r]) w rs? o)
    (hr : r.equal v = true) :
    Mapped us w (do let b ← .ok v; let bs ← rs?; pure (b :: bs)) o := by
  cases h with
  | error => exact .error
  | @ok id rs ts hrs =>
    rw [List.append_assoc]
    refine .ok ?_
    rw [List.singleton_append, equalValues, hr, hrs]
    rfl

end

/-- **All rounds.** By induction on the array; the round for an element calls the
function in a world that has grown, and so does the next round. -/
theorem run_iter {f : Value} {g : Value → Except EvalError Value} {s : ScopeId}
    {vs : List Value} (hlength : vs.length < 18446744073709551616) {w : World}
    (hready : Ready f s w)
    (hf : ∀ v ∈ vs, ∀ w', w.Grown w' → f.Computes [v] w' (g v))
    (i j : ObjectId) (us : List Value) :
    ∃ depth w', w.Grown w' ∧ Mapped us w' (vs.mapM g)
      (((iter s).call depth [.array i vs, .array j us]).run w) := by
  induction vs generalizing w i j us with
  | nil =>
    obtain ⟨w', hgrown, hrun⟩ := hready.run_iter_nil
    have hnil : Mapped us w' (.ok []) (.done (.array j (us ++ [])) w') := .ok rfl
    rw [List.append_nil, ← hrun] at hnil
    exact ⟨1, w', hgrown, hnil⟩
  | cons a vs ih =>
    obtain ⟨u, hgrown, hround⟩ := hready.run_iter_cons hlength
    obtain ⟨m, u', hanswer, houtput⟩ := hf a List.mem_cons_self u hgrown
    rw [List.mapM_cons]
    generalize hg : g a = answer at hanswer
    generalize hrun : (f.call m [a]).run u = o at hanswer
    have hgrown' (hworld : o.world? = some u') : u.Grown u' :=
      Value.grown_call (by rw [hrun, hworld]) houtput
    cases hanswer with
    | @error e =>
      refine ⟨m + 1, u', hgrown.trans (hgrown' rfl), ?_⟩
      rw [(hround m).1 e u' hrun]
      exact .error
    | @ok r v hr =>
      -- the next round, in the world that the function has left
      have hnext : w.Grown (u'.later 1) :=
        hgrown.trans ((hgrown' rfl).trans (World.grown_later u' 1))
      obtain ⟨n, w', hgrown'', hmapped⟩ := ih
        (Nat.lt_of_succ_lt hlength) (hready.grown hnext)
        (fun v hv w' hw' => hf v (List.mem_cons_of_mem a hv) w' (hnext.trans hw'))
        (w.nextObject + 4) u'.nextObject (us ++ [r])
      refine ⟨max m n + 1, w', hnext.trans hgrown'', ?_⟩
      have hf' : (f.call (max m n) [a]).run u = .done r u' :=
        (Value.callWith_approximates (Closure.call_approximates
          (Nat.le_max_left m n)) f [a]).run_done hrun
      rw [(hround (max m n)).2 r u' hf', (Closure.call_approximates
        (Nat.le_max_right m n) _ _).run_eq hmapped.ne_exhausted]
      exact hmapped.cons hr

/-! ## The function -/

/-- **A call of `map`** sets up its scope and goes through the array. -/
theorem run_map {f : Value} {s : ScopeId} {w : World} (hs : s < w.scopes.size)
    (hfree : ∀ x ∈ builtins, w.get? s x = none) (arr : Value) :
    ∃ u i, w.Grown u ∧ Ready f w.scopes.size u ∧ ∀ depth,
      ((map s).call (depth + 1) [arr, f]).run w
        = ((iter w.scopes.size).call depth [arr, .array i []]).run u := by
  -- the scope with the arguments, and with the function that is bound in it
  generalize hu : w.enter s "arr" "f" arr f = u
  let loop := Value.fn u.nextObject (iter w.scopes.size)
  let u' := (u.later 1).set w.scopes.size "iter" loop
  have hsize : w.scopes.size < (u.later 1).scopes.size := by
    show w.scopes.size < u.scopes.size
    rw [← hu, World.size_enter]
    exact Nat.lt_succ_self _
  have hgrown : w.Grown (u.later 1) := by
    rw [← hu]
    exact World.grown_enter.trans (World.grown_later _ 1)
  have hget (x : String) : u'.get? w.scopes.size x
      = if x = "iter" then some loop else if x = "f" then some f
        else if x = "arr" then some arr else w.get? s x := by
    rw [World.get?_set hsize, (u.grown_later 1).get? hsize, ← hu,
      World.get?_enter hs]
  have hnames : ∀ x ∈ builtins, x ≠ "iter" ∧ x ≠ "f" ∧ x ≠ "arr" := by decide
  have hready : Ready f w.scopes.size u' := by
    refine ⟨?_, ⟨u.nextObject, hget "iter"⟩, hget "f", fun x hx => ?_⟩
    · rwa [World.size_scopes_set]
    · obtain ⟨hiter, hf, harr⟩ := hnames x hx
      rw [hget, if_neg hiter, if_neg hf, if_neg harr, hfree x hx]
  refine ⟨u'.later 1, u'.nextObject,
    (hgrown.set (Nat.le_refl _) loop).trans (World.grown_later u' 1),
    hready.grown (World.grown_later u' 1), fun depth => ?_⟩
  have hbind : ((Stmt.bind "iter" (.fn ["arr", "acc"] round)).eval
        (Closure.call depth) w.scopes.size).run u = .done .nothing u' := by
    rw [Stmt.eval, Expr.eval]
    rfl
  have hempty : ((Expr.array []).eval (Closure.call depth) w.scopes.size).run u'
      = .done (.array u'.nextObject []) (u'.later 1) := by
    rw [Expr.eval, evalExprs]
    rfl
  rw [Closure.run_call_enter rfl]
  refine Evaluation.run_catchReturn_of_lift ?_
  rw [map, body, evalStmts, hu, run_bind_of_done hbind, run_evalStmts_one,
    Stmt.eval]
  exact Expr.run_call (Expr.run_ident_of_bound (hget "iter"))
    (run_evalExprs_two (Expr.run_ident_of_bound (hget "arr")) hempty)

/-- **Evaluating the program** binds the function. -/
theorem run_program {s : ScopeId} {w : World} (hs : s < w.scopes.size)
    (depth : Nat) :
    ∃ id w', (program.eval depth s).run w = .done .nothing w'
      ∧ w'.getLocal? s "map" = some (.fn id (map s)) := by
  let f := Value.fn w.nextObject (map s)
  have hbind : ((Stmt.bind "map" (.fn ["arr", "f"] body)).eval
      (Closure.call depth) s).run w
        = .done .nothing ((w.later 1).set s "map" f) := by
    rw [Stmt.eval, Expr.eval]
    rfl
  refine ⟨w.nextObject, (w.later 1).set s "map" f, ?_, ?_⟩
  · refine Evaluation.run_catchReturn_of_lift (y := .done .nothing) ?_
    rw [program, run_evalStmts_one, hbind]
    rfl
  · have hsize : s < (w.later 1).scopes.size := hs
    rw [World.getLocal?_set _ hsize, if_pos ⟨rfl, rfl⟩]

/-- The text is the program. -/
theorem parse_source : Program.parse source = .ok program := by
  decide +kernel

/-- **The program maps.** It can be evaluated in every scope, and binds a
function there. Wherever that function is called later, as long as none of the
builtins is bound in that scope or around it, with an array and with a function
that comes to an answer `g v` for every element `v` and writes nothing, in this
world and in those that it can grow to: it comes to the answer of `List.mapM`,
which is the array of the results, or the error of the first element that has
one. The scopes that there were are as they were, and nothing is written. (Lengths
are counted in 64 bits, so an array that could be longer is left out.) -/
theorem maps {s : ScopeId} {w₀ : World} (hs : s < w₀.scopes.size)
    (depth : Nat) :
    Program.parse source = .ok program
      ∧ ∃ id w₁, (program.eval depth s).run w₀ = .done .nothing w₁
        ∧ w₁.getLocal? s "map" = some (.fn id (map s))
        ∧ ∀ w : World, s < w.scopes.size →
          (∀ x ∈ builtins, w.get? s x = none) →
          ∀ (i : ObjectId) (vs : List Value) (f : Value)
            (g : Value → Except EvalError Value),
          vs.length < 18446744073709551616 →
          (∀ v ∈ vs, ∀ w', w.Grown w' → f.Computes [v] w' (g v)) →
          ∃ n w', w.Grown w' ∧ Outcome.Answers w' (.array i <$> vs.mapM g)
            ((Value.call n (.fn id (map s)) [.array i vs, f]).run w) := by
  obtain ⟨id, w₁, hprogram, hbound⟩ := run_program hs depth
  refine ⟨parse_source, id, w₁, hprogram, hbound, ?_⟩
  intro w hs hfree i vs f g hlength hf
  obtain ⟨u, j, hgrown, hready, hmap⟩ := run_map hs hfree (.array i vs)
  obtain ⟨n, w', hgrown', hmapped⟩ := run_iter hlength hready
    (fun v hv w' hw' => hf v hv w' (hgrown.trans hw')) i j []
  refine ⟨n + 1, w', hgrown.trans hgrown', ?_⟩
  rw [← hmap n] at hmapped
  exact hmapped.answers i

/-- The answer of the builtin for lengths. -/
def lengthAnswer : Value → Except EvalError Value
  | .str _ text => .ok (.int 0 (.ofNat text.length))
  | .array _ elements => .ok (.int 0 (.ofNat elements.length))
  | v => .error (.unsupportedArgument .len v.type)

theorem computes_len (id : ObjectId) (v : Value) (w : World) :
    (Value.builtin id .len).Computes [v] w (lengthAnswer v) := by
  cases v with
  | str _ _ | array _ _ =>
    exact ⟨0, w.later 1, .ok (beq_self_eq_true _), rfl⟩
  | _ => exact ⟨0, w, .error, rfl⟩

/-- The lengths of two strings. -/
theorem maps_lengths :
    let w₀ := ((World.empty .ascending).addScope none).1
    let w : World :=
      ⟨#[⟨[("map", .fn 0 (map 0))], none⟩], 1, "", .ascending⟩
    (program.eval 0 0).run w₀ = .done .nothing w
      ∧ (∀ x ∈ builtins, w.get? 0 x = none)
      ∧ ∃ id n w', Outcome.Answers w' (.ok (.array 7 [.int 0 2, .int 0 0]))
        ((Value.call n (.fn id (map 0))
          [.array 7 [.str 5 "ab", .str 6 ""], .builtin 8 .len]).run w) := by
  intro w₀ w
  have hfree : ∀ x ∈ builtins, w.get? 0 x = none := by
    intro x hx
    simp only [builtins, List.mem_cons, List.not_mem_nil, or_false] at hx
    obtain rfl | rfl | rfl | rfl := hx <;> cbv
  obtain ⟨-, id, -, -, -, hmaps⟩ :=
    maps (show 0 < w₀.scopes.size by decide) 0
  obtain ⟨n, w', -, hanswer⟩ := hmaps w (by decide) hfree 7
    [.str 5 "ab", .str 6 ""] (.builtin 8 .len) lengthAnswer (by decide)
    fun v _ w' _ => computes_len 8 v w'
  exact ⟨by cbv, hfree, id, n, w', hanswer⟩

end Mapping

end Monkey
