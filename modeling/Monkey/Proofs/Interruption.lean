import Monkey.Proofs.Depth
import Monkey.Proofs.Sequence

/-!
# Interrupts

A `return` and an error end an evaluation in the same way: as an *interrupt*,
which goes through everything around it up to the call of the function it stands
in. What is around it is a *context*, a phrase with a hole: `Slot` lists the
places where one phrase stands within another, and a `Context` is any number of
them, one within the other. The body of a function is not such a place, since it
is not evaluated where it stands.

Evaluation need not reach the hole of a context. It does if what stands before
the hole is done: the left operand before the right one, the callee and the
arguments before an argument, the earlier pairs of a hash and, before a value,
its key, which has to be one that hashes can have; and if it is the hole's
branch that a conditional takes. `Context.Reaches` says so, and in which world
the hole is reached.

A context that reaches its hole is evaluated by evaluating the hole and then
whatever is left, which depends on the hole only through its value
(`Context.exists_rest`). So an interrupt in the hole is the outcome of the whole,
with the world as the interrupt left it (`Context.interrupted`): nothing else is
evaluated, and no `let` around the hole binds its name.
-/

namespace Monkey

open Eval

/-! ## Phrases with a hole -/

/-- **The forms of phrases** that are evaluated to a value. -/
inductive Form where
  | expr
  | stmt
  | block

/-- The phrases of a form. -/
@[reducible] def Form.Phrase : Form → Type
  | expr => Expr
  | stmt => Stmt
  | block => Block

/-- **A phrase with a phrase missing** directly within it. -/
inductive Slot : Form → Form → Type where
  | operand (op : UnaryOp) : Slot .expr .expr
  | left (op : BinaryOp) (right : Expr) : Slot .expr .expr
  | right (op : BinaryOp) (left : Expr) : Slot .expr .expr
  | collection (position : Expr) : Slot .expr .expr
  | position (collection : Expr) : Slot .expr .expr
  | callee (args : List Expr) : Slot .expr .expr
  | argument (callee : Expr) (before after : List Expr) : Slot .expr .expr
  | element (before after : List Expr) : Slot .expr .expr
  | key (before : List (Expr × Expr)) (value : Expr)
      (after : List (Expr × Expr)) : Slot .expr .expr
  | value (before : List (Expr × Expr)) (key : Expr)
      (after : List (Expr × Expr)) : Slot .expr .expr
  | condition (consequence : Block) (alternative : Option Block) :
      Slot .expr .expr
  | consequence (condition : Expr) (alternative : Option Block) :
      Slot .block .expr
  | alternative (condition : Expr) (consequence : Block) : Slot .block .expr
  | bound (name : String) : Slot .expr .stmt
  | returned : Slot .expr .stmt
  | alone : Slot .expr .stmt
  | statement (before after : Block) : Slot .stmt .block

/-- The phrase with the missing one put in. -/
def Slot.plug {i o : Form} : Slot i o → i.Phrase → o.Phrase
  | operand op, e => .unary op e
  | left op r, e => .binary op e r
  | right op l, e => .binary op l e
  | collection p, e => .index e p
  | position c, e => .index c e
  | callee args, e => .call e args
  | argument f before after, e => .call f (before ++ e :: after)
  | element before after, e => .array (before ++ e :: after)
  | key before v after, e => .hash (before ++ (e, v) :: after)
  | value before k after, e => .hash (before ++ (k, e) :: after)
  | condition ss rs?, e => .cond e ss rs?
  | consequence c rs?, ss => .cond c ss rs?
  | alternative c ss, rs => .cond c ss (some rs)
  | bound name, e => .bind name e
  | returned, e => .ret e
  | alone, e => .expr e
  | statement before after, s => before ++ s :: after

/-- **A context**: a phrase with a phrase missing at any depth. -/
inductive Context : Form → Form → Type where
  | hole {f : Form} : Context f f
  | within {i m o : Form} (outer : Slot m o) (inner : Context i m) :
      Context i o

/-- The context with a phrase in the hole. -/
def Context.plug {i o : Form} : Context i o → i.Phrase → o.Phrase
  | hole, x => x
  | within outer inner, x => outer.plug (inner.plug x)

/-! ## Reaching the hole -/

/-- The evaluation is done and leads from one world to the other. -/
def Eval.Leads {ε α : Type} (x : Eval ε α) (w w' : World) : Prop :=
  ∃ a, x.run w = .done a w'

/-- An evaluation goes on alike behind evaluations that end alike. -/
theorem Eval.run_bind_congr {ε α β : Type} {x y : Eval ε α} {u w : World}
    (h : x.run u = y.run w) (f : α → Eval ε β) :
    (x >>= f).run u = (y >>= f).run w := by
  cases hy : y.run w with
  | done a w' => rw [run_bind_of_done (h.trans hy), run_bind_of_done hy]
  | failed e w' => rw [run_bind_of_failed (h.trans hy), run_bind_of_failed hy]
  | exhausted =>
    rw [run_bind_of_exhausted (h.trans hy), run_bind_of_exhausted hy]

section

variable (call : Closure → List Value → Operation Value) (scope : ScopeId)

/-- **Evaluates a phrase** in a scope. -/
def Form.eval : (f : Form) → f.Phrase → Evaluation Value
  | expr, e => e.eval call scope
  | stmt, s => s.eval call scope
  | block, ss => evalStmts call scope .nothing ss

/-- **The missing phrase is reached** in the world `w'`, if the phrase is
evaluated in the world `w`: what is evaluated before it is done. -/
def Slot.Reaches {i o : Form} : Slot i o → World → World → Prop
  | right _ e, w, w' | position e, w, w' => (e.eval call scope).Leads w w'
  | argument f before _, w, w' => ∃ u, (f.eval call scope).Leads w u
      ∧ (evalExprs call scope before).Leads u w'
  | element before _, w, w' => (evalExprs call scope before).Leads w w'
  | key before _ _, w, w' => (evalPairs call scope [] before).Leads w w'
  | value before k _, w, w' =>
    ∃ u, (evalPairs call scope [] before).Leads w u
      ∧ ∃ v, (k.eval call scope).run u = .done v w' ∧ v.key?.isSome
  | consequence c _, w, w' =>
    ∃ v, (c.eval call scope).run w = .done v w' ∧ v.truthy
  | alternative c _, w, w' =>
    ∃ v, (c.eval call scope).run w = .done v w' ∧ ¬ v.truthy
  | statement before _, w, w' =>
    (evalStmts call scope .nothing before).Leads w w'
  -- nothing is evaluated before the others
  | operand _, w, w' | left _ _, w, w' | collection _, w, w' | callee _, w, w'
  | condition _ _, w, w' | bound _, w, w' | returned, w, w' | alone, w, w' =>
    w' = w

/-- **The hole is reached** in the world `w'`, if the context is evaluated in
the world `w`. -/
def Context.Reaches {i o : Form} : Context i o → World → World → Prop
  | hole, w, w' => w' = w
  | within outer inner, w, w' =>
    ∃ u, outer.Reaches call scope w u ∧ inner.Reaches u w'

end

/-! ## What is left behind the hole -/

section

variable {call : Closure → List Value → Operation Value} {scope : ScopeId}
  {i o : Form} {w w' : World}

/-- **Behind the missing phrase** comes an evaluation of what is left, which is
given the value of the phrase. -/
theorem Slot.exists_rest {s : Slot i o} (h : s.Reaches call scope w w') :
    ∃ rest : Value → Evaluation Value, ∀ x,
      (o.eval call scope (s.plug x)).run w
        = (i.eval call scope x >>= rest).run w' := by
  cases s with
  | operand op =>
    obtain rfl : w' = w := h
    refine ⟨fun v => (op.apply v).lift, fun x => ?_⟩
    rw [Slot.plug, Form.eval, Expr.eval]
    rfl
  | left _ _ | collection _ | callee _ =>
    obtain rfl : w' = w := h
    apply Exists.intro
    intro x
    rw [Slot.plug, Form.eval, Expr.eval]
    rfl
  | right _ _ | position _ =>
    obtain ⟨v, hv⟩ := h
    apply Exists.intro
    intro x
    rw [Slot.plug, Form.eval, Expr.eval, run_bind_of_done hv]
    rfl
  | argument f before after =>
    obtain ⟨u, ⟨g, hg⟩, vs, hvs⟩ := h
    -- the arguments before this one are one evaluation, done in `w'`
    apply Exists.intro
    intro x
    rw [Slot.plug, Form.eval, Expr.eval, run_bind_of_done hg, evalExprs_append,
      bind_assoc, run_bind_of_done hvs, evalExprs, bind_assoc, bind_assoc]
    rfl
  | element before after =>
    obtain ⟨vs, hvs⟩ := h
    apply Exists.intro
    intro x
    rw [Slot.plug, Form.eval, Expr.eval, evalExprs_append, bind_assoc,
      run_bind_of_done hvs, evalExprs, bind_assoc, bind_assoc]
    rfl
  | key before v after =>
    obtain ⟨entries, hentries⟩ := h
    apply Exists.intro
    intro x
    rw [Slot.plug, Form.eval, Expr.eval, evalPairs_append, bind_assoc,
      run_bind_of_done hentries, evalPairs, bind_assoc]
    rfl
  | value before k after =>
    obtain ⟨u, ⟨entries, hentries⟩, v, hv, hkey⟩ := h
    obtain ⟨hashKey, hhashKey⟩ := Option.isSome_iff_exists.1 hkey
    -- the key is checked before its value is evaluated
    have hasKey : v.asKey.lift.run w' = .done hashKey w' := by
      unfold Value.asKey
      rw [hhashKey]
      rfl
    apply Exists.intro
    intro x
    rw [Slot.plug, Form.eval, Expr.eval, evalPairs_append, bind_assoc,
      run_bind_of_done hentries, evalPairs, bind_assoc, run_bind_of_done hv,
      bind_assoc, run_bind_of_done hasKey, bind_assoc]
    rfl
  | condition ss rs? =>
    obtain rfl : w' = w := h
    -- evaluation has an equation for each of the two conditionals
    cases rs? with
    | none | some _ =>
      apply Exists.intro
      intro x
      rw [Slot.plug, Form.eval, Expr.eval]
      rfl
  | consequence c rs? =>
    obtain ⟨v, hv, htruthy⟩ := h
    refine ⟨pure, fun x => ?_⟩
    cases rs? with
    | none | some _ =>
      rw [bind_pure, Slot.plug, Form.eval, Expr.eval, run_bind_of_done hv,
        if_pos htruthy]
      rfl
  | alternative c ss =>
    obtain ⟨v, hv, htruthy⟩ := h
    refine ⟨pure, fun x => ?_⟩
    rw [bind_pure, Slot.plug, Form.eval, Expr.eval, run_bind_of_done hv,
      if_neg htruthy]
    rfl
  | bound _ | returned =>
    obtain rfl : w' = w := h
    apply Exists.intro
    intro x
    rw [Slot.plug, Form.eval, Form.eval, Stmt.eval]
  | alone =>
    obtain rfl : w' = w := h
    refine ⟨pure, fun x => ?_⟩
    rw [bind_pure, Slot.plug, Form.eval, Form.eval, Stmt.eval]
  | statement before after =>
    obtain ⟨v, hv⟩ := h
    apply Exists.intro
    intro x
    rw [Slot.plug, Form.eval, Form.eval, evalStmts_append, run_bind_of_done hv,
      evalStmts]

/-- **Behind the hole** comes an evaluation of what is left, which is given the
value of the phrase in the hole. -/
theorem Context.exists_rest {K : Context i o} (h : K.Reaches call scope w w') :
    ∃ rest : Value → Evaluation Value, ∀ x,
      (o.eval call scope (K.plug x)).run w
        = (i.eval call scope x >>= rest).run w' := by
  induction K generalizing w with
  | hole =>
    obtain rfl : w' = w := h
    refine ⟨pure, fun x => ?_⟩
    rw [bind_pure]
    rfl
  | within outer inner ih =>
    obtain ⟨u, houter, hinner⟩ := h
    obtain ⟨rest, hrest⟩ := Slot.exists_rest houter
    obtain ⟨rest', hrest'⟩ := ih hinner
    -- what is left within comes before what is left around it
    refine ⟨fun v => rest' v >>= rest, fun x => ?_⟩
    rw [Context.plug, hrest, run_bind_congr (hrest' x), bind_assoc]

end

/-! ## Calls nested deeper -/

/-- An outcome stays what it is where an evaluation is approximated. -/
theorem Eval.Approximates.run_eq {ε α : Type} {x y : Eval ε α}
    (h : x.Approximates y) {w : World} (hx : x.run w ≠ .exhausted) :
    y.run w = x.run w :=
  ((h w).resolve_left hx).symm

theorem Eval.Approximates.run_done {ε α : Type} {x y : Eval ε α}
    (h : x.Approximates y) {w w' : World} {a : α}
    (hx : x.run w = .done a w') : y.run w = .done a w' := by
  rw [← hx]
  exact h.run_eq (by rw [hx]; nofun)

theorem Eval.Leads.of_approximates {ε α : Type} {x y : Eval ε α}
    {w w' : World} (hx : x.Leads w w') (h : x.Approximates y) :
    y.Leads w w' :=
  hx.imp fun _ => h.run_done

section

variable {m n : Nat} {scope : ScopeId} {i o : Form} {w w' : World}

/-- Phrases are evaluated alike with calls nested deeper. -/
theorem Form.eval_approximates (hmn : m ≤ n) (f : Form) (x : f.Phrase) :
    Eval.Approximates (f.eval (Closure.call m) scope x)
      (f.eval (Closure.call n) scope x) := by
  have hcall := Closure.call_approximates hmn
  cases f with
  | expr => exact Expr.eval_approximates hcall scope x
  | stmt => exact Stmt.eval_approximates hcall scope x
  | block => exact evalStmts_approximates hcall scope x .nothing

theorem Slot.Reaches.deepen {s : Slot i o} (hmn : m ≤ n)
    (h : s.Reaches (Closure.call m) scope w w') :
    s.Reaches (Closure.call n) scope w w' := by
  have hcall := Closure.call_approximates hmn
  have hexpr (e : Expr) := Expr.eval_approximates hcall scope e
  cases s with
  | right _ e | position e => exact h.of_approximates (hexpr e)
  | argument f before _ =>
    obtain ⟨u, hf, hbefore⟩ := h
    exact ⟨u, hf.of_approximates (hexpr f),
      hbefore.of_approximates (evalExprs_approximates hcall scope before)⟩
  | element before _ =>
    exact h.of_approximates (evalExprs_approximates hcall scope before)
  | key before _ _ =>
    exact h.of_approximates (evalPairs_approximates hcall scope before [])
  | value before k _ =>
    obtain ⟨u, hbefore, v, hv, hkey⟩ := h
    exact ⟨u,
      hbefore.of_approximates (evalPairs_approximates hcall scope before []),
      v, (hexpr k).run_done hv, hkey⟩
  | consequence c _ | alternative c _ =>
    obtain ⟨v, hv, htruthy⟩ := h
    exact ⟨v, (hexpr c).run_done hv, htruthy⟩
  | statement before _ =>
    exact h.of_approximates (evalStmts_approximates hcall scope before .nothing)
  | operand _ | left _ _ | collection _ | callee _ | condition _ _ | bound _
  | returned | alone => exact h

/-- A hole that is reached is reached with calls nested deeper. -/
theorem Context.Reaches.deepen {K : Context i o} (hmn : m ≤ n)
    (h : K.Reaches (Closure.call m) scope w w') :
    K.Reaches (Closure.call n) scope w w' := by
  induction K generalizing w with
  | hole => exact h
  | within outer inner ih =>
    obtain ⟨u, houter, hinner⟩ := h
    exact ⟨u, houter.deepen hmn, ih hinner⟩

/-! ## Interrupts in the hole -/

/-- **An interrupt goes through every context**: if the hole is reached and the
phrase in it is interrupted, by a `return` or an error, the whole is interrupted
in the same way and leaves the world as the phrase left it. The calls before the
hole and those in it may be nested differently; the whole is interrupted with
calls nested as deeply as both. -/
theorem Context.interrupted (K : Context i o) {depth : Nat} {w'' : World}
    {x : i.Phrase} {q : Interrupt} (hm : m ≤ depth) (hn : n ≤ depth)
    (hreaches : K.Reaches (Closure.call m) scope w w')
    (hx : (i.eval (Closure.call n) scope x).run w' = .failed q w'') :
    (o.eval (Closure.call depth) scope (K.plug x)).run w = .failed q w'' := by
  obtain ⟨rest, hrest⟩ := Context.exists_rest (hreaches.deepen hm)
  have hdeep : (i.eval (Closure.call depth) scope x).run w' = .failed q w'' := by
    rw [← hx]
    exact (Form.eval_approximates hn i x).run_eq (by rw [hx]; nofun)
  rw [hrest x]
  exact run_bind_of_failed hdeep rest

/-- In `let a = 1; let b = {a: if (a) { … }}; let a = 2` a function divides by
zero where the dots are: the `let` around it and the one behind it bind
nothing. -/
theorem Context.interrupted_by_division :
    let K : Context .expr .block :=
      .within (.statement [.bind "a" (.int 1)] [.bind "a" (.int 2)]) <|
      .within (.bound "b") <| .within (.value [] (.ident "a") []) <|
      .within (.consequence (.ident "a") none) <| .within (.statement [] []) <|
      .within .alone .hole
    let x : Expr := .call
      (.fn ["x"] [.ret (.binary .divide (.ident "x") (.int 0))]) [.ident "a"]
    let w : World := ⟨#[⟨[], none⟩], 0, "", .ascending⟩
    let w' : World := ⟨#[⟨[("a", .int 0 1)], none⟩], 1, "", .ascending⟩
    let w'' : World := ⟨#[⟨[("a", .int 0 1)], none⟩,
      ⟨[("x", .int 0 1)], some 0⟩], 3, "", .ascending⟩
    K.Reaches (Closure.call 0) 0 w w'
      ∧ (x.eval (Closure.call 1) 0).run w'
        = .failed (.failed .divisionByZero) w''
      ∧ (evalStmts (Closure.call 1) 0 .nothing (K.plug x)).run w
        = .failed (.failed .divisionByZero) w'' := by
  intro K x w w' w''
  have hreaches : K.Reaches (Closure.call 0) 0 w w' := by
    refine ⟨w', ⟨.nothing, ?_⟩, w', rfl, w', ⟨w', ⟨[], rfl⟩, .int 0 1, ?_, rfl⟩,
      w', ⟨.int 0 1, ?_, rfl⟩, w', ⟨.nothing, rfl⟩, w', rfl, rfl⟩ <;> cbv
  have hx : (x.eval (Closure.call 1) 0).run w'
      = .failed (.failed .divisionByZero) w'' := by cbv
  exact ⟨hreaches, hx,
    Context.interrupted K (Nat.zero_le 1) (Nat.le_refl 1) hreaches hx⟩

end

end Monkey
