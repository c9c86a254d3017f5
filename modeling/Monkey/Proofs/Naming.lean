import Monkey.Proofs.Host

/-!
# What a name comes to

A name that a scope of the chain binds comes to what is bound there, and to the
very object: nothing is made, and the world stays as it is. A name that no scope
binds may be a builtin's. Then each mention of it makes an object of its own, so
that two mentions of one name are two objects, while a builtin that has been
bound to a name is one.

Comparing a name with itself shows the difference (`Expr.ident_compared`): both
sides are the same object exactly if a scope binds the name.
-/

namespace Monkey

open Eval

/-! ## Worlds in which names mean the same -/

namespace World

variable {u v w : World}

/-- **What a name means depends on the scopes up to the one that is asked.** -/
theorem get?_congr {s : ScopeId} {x : String}
    (houter : ∀ t, t ≤ s → u.outer? t = w.outer? t)
    (hlocal : ∀ t, t ≤ s → u.getLocal? t x = w.getLocal? t x) :
    u.get? s x = w.get? s x := by
  induction s using Nat.strongRecOn with
  | ind s ih =>
    rw [u.get?_eq, w.get?_eq, houter s (Nat.le_refl s),
      hlocal s (Nat.le_refl s)]
    congr 1
    refine Option.bind_congr fun o _ => ?_
    split
    · rename_i hlt
      have hle {t : ScopeId} (ht : t ≤ o) : t ≤ s :=
        Nat.le_trans ht (Nat.le_of_lt hlt)
      exact ih o hlt (fun t ht => houter t (hle ht))
        fun t ht => hlocal t (hle ht)
    · rfl

/-- Binding a name leaves the others what they mean. -/
theorem get?_set_of_ne {s : ScopeId} (hs : s < w.scopes.size) {x y : String}
    (h : y ≠ x) (v : Value) (g : ScopeId) :
    (w.set s x v).get? g y = w.get? g y := by
  refine get?_congr (fun t _ => w.outer?_set s t x v) fun t _ => ?_
  rw [getLocal?_set w hs, if_neg fun ht => h ht.2]

/-- **The world is as before**, up to the identities that have been handed
out. -/
structure AsBefore (w w' : World) : Prop where
  scopes : w'.scopes = w.scopes
  output : w'.output = w.output

theorem AsBefore.refl (w : World) : w.AsBefore w := ⟨rfl, rfl⟩

theorem AsBefore.trans (huv : u.AsBefore v) (hvw : v.AsBefore w) :
    u.AsBefore w :=
  ⟨hvw.scopes.trans huv.scopes, hvw.output.trans huv.output⟩

theorem asBefore_addObject (w : World) : w.AsBefore w.addObject.1 := ⟨rfl, rfl⟩

theorem AsBefore.get? (h : w.AsBefore u) (s : ScopeId) (x : String) :
    u.get? s x = w.get? s x := by
  refine get?_congr (fun t _ => ?_) fun t _ => ?_
  · unfold outer?
    rw [h.scopes]
  · unfold getLocal?
    rw [h.scopes]

end World

/-! ## Operations as parts of evaluations -/

section

variable {α : Type} {x : Operation α} {w w' : World}

theorem Operation.run_lift_of_done {a : α} (h : x.run w = .done a w') :
    x.lift.run w = .done a w' := by
  have hx : x w = .done a w' := h
  unfold Eval.run Operation.lift Eval.mapError
  rw [hx]

theorem Operation.run_lift_of_failed {e : EvalError}
    (h : x.run w = .failed e w') : x.lift.run w = .failed (.failed e) w' := by
  have hx : x w = .failed e w' := h
  unfold Eval.run Operation.lift Eval.mapError
  rw [hx]

end

/-! ## Comparing -/

/-- **What `==` answers** for two values that are not both strings. -/
def Value.same : Value → Value → Bool
  | .int _ a, .int _ b => a == b
  | v, w => v.identical w

theorem Value.same_self (v : Value) : v.same v = true := by
  cases v <;> exact beq_self_eq_true _

/-- Two mentions of a builtin are two objects. -/
theorem Value.same_builtin {i j : ObjectId} (hij : i ≠ j) (b : Builtin) :
    (Value.builtin i b).same (.builtin j b) = false := by
  simp [Value.same, Value.identical, Value.identity, hij]

/-- **Comparing two values that are not both strings** gives the answer, or its
opposite. -/
theorem BinaryOp.run_compare {a b : Value}
    (h : ¬ (a.type = .string ∧ b.type = .string)) (w : World) :
    (BinaryOp.equal.apply a b).run w = .done (.truth (a.same b)) w
      ∧ (BinaryOp.notEqual.apply a b).run w
        = .done (.truth (!a.same b)) w := by
  cases a <;> cases b <;> first
    | exact ⟨rfl, rfl⟩
    | exact absurd ⟨rfl, rfl⟩ h
    | exact ⟨rfl, congrArg (fun r => Outcome.done (Value.truth r) w) decide_not⟩

/-! ## Names -/

section

variable {call : Closure → List Value → Operation Value} {scope : ScopeId}
  {w w' : World} {x : String} {v : Value}

/-- **A name that is bound** comes to what it is bound to. -/
theorem Expr.run_ident_of_bound (h : w.get? scope x = some v) :
    ((Expr.ident x).eval call scope).run w = .done v w := by
  rw [Expr.eval]
  refine Operation.run_lift_of_done ?_
  unfold lookup
  rw [run_bind_of_done (run_ask _ w), h]
  rfl

/-- **A builtin that is named** is a new object. -/
theorem Expr.run_ident_of_builtin (h : w.get? scope x = none) {b : Builtin}
    (hb : Builtin.ofName? x = some b) :
    ((Expr.ident x).eval call scope).run w
      = .done (.builtin w.nextObject b) w.addObject.1 := by
  rw [Expr.eval]
  refine Operation.run_lift_of_done ?_
  unfold lookup
  rw [run_bind_of_done (run_ask _ w), h, hb]
  rfl

/-- A name that comes to something is bound, or is a builtin's. -/
theorem Expr.bound_or_builtin_of_run
    (h : ((Expr.ident x).eval call scope).run w = .done v w') :
    w.get? scope x = some v ∨ (w.get? scope x = none
      ∧ ∃ b, Builtin.ofName? x = some b) := by
  cases hget : w.get? scope x with
  | some u =>
    rw [Expr.run_ident_of_bound hget] at h
    cases h
    exact .inl rfl
  | none =>
    refine .inr ⟨rfl, ?_⟩
    cases hb : Builtin.ofName? x with
    | some b => exact ⟨b, rfl⟩
    | none =>
      have hfail : (lookup scope x).run w = .failed (.unboundName x) w := by
        unfold lookup
        rw [run_bind_of_done (run_ask _ w), hget, hb]
        rfl
      rw [Expr.eval, Operation.run_lift_of_failed hfail] at h
      cases h

/-! ## A name compared with itself -/

/-- An operator, when its operands are done. -/
theorem Expr.run_binary {op : BinaryOp} {left right : Expr} {a b c : Value}
    {u u' u'' : World} (hleft : (left.eval call scope).run w = .done a u)
    (hright : (right.eval call scope).run u = .done b u')
    (hop : (op.apply a b).run u' = .done c u'') :
    ((Expr.binary op left right).eval call scope).run w = .done c u'' := by
  rw [Expr.eval, run_bind_of_done hleft, run_bind_of_done hright]
  exact Operation.run_lift_of_done hop

end

/-- **A name compared with itself.** Let a name come to a value that is no
string. Then comparing the name with itself answers whether a scope of the chain
binds the name, and the opposite comparison the opposite; neither touches
anything. So a name is one value if it is bound, whatever it is bound to. But it
is another one at each mention if it is a builtin's, though a builtin that a
scope binds is one. -/
theorem Expr.ident_compared {depth : Nat} {scope : ScopeId} {w w' : World}
    {x : String} {v : Value}
    (hrun : ((Expr.ident x).eval (Closure.call depth) scope).run w
      = .done v w')
    (hv : v.type ≠ .string) :
    ∃ u, w.AsBefore u
      ∧ ((Expr.binary .equal (.ident x) (.ident x)).eval (Closure.call depth)
          scope).run w = .done (.truth (w.get? scope x).isSome) u
      ∧ ((Expr.binary .notEqual (.ident x) (.ident x)).eval
          (Closure.call depth) scope).run w
        = .done (.truth (w.get? scope x).isNone) u := by
  obtain hbound | ⟨hfree, b, hb⟩ := Expr.bound_or_builtin_of_run hrun
  · have hident : ((Expr.ident x).eval (Closure.call depth) scope).run w
        = .done v w := Expr.run_ident_of_bound hbound
    have hstrings : ¬ (v.type = .string ∧ v.type = .string) := fun h => hv h.1
    obtain ⟨hequal, hnotEqual⟩ := BinaryOp.run_compare hstrings w
    rw [v.same_self] at hequal hnotEqual
    rw [hbound]
    exact ⟨w, .refl w, Expr.run_binary hident hident hequal,
      Expr.run_binary hident hident hnotEqual⟩
  · have hleft : ((Expr.ident x).eval (Closure.call depth) scope).run w
        = .done (.builtin w.nextObject b) w.addObject.1 :=
      Expr.run_ident_of_builtin hfree hb
    have hright : ((Expr.ident x).eval (Closure.call depth) scope).run
          w.addObject.1
        = .done (.builtin (w.nextObject + 1) b) w.addObject.1.addObject.1 :=
      Expr.run_ident_of_builtin
        ((w.asBefore_addObject.get? scope x).trans hfree) hb
    have hsame : (Value.builtin w.nextObject b).same
        (.builtin (w.nextObject + 1) b) = false :=
      Value.same_builtin (Nat.ne_of_lt (Nat.lt_succ_self w.nextObject)) b
    have hstrings : ¬ ((Value.builtin w.nextObject b).type = .string
        ∧ (Value.builtin (w.nextObject + 1) b).type = .string) := nofun
    obtain ⟨hequal, hnotEqual⟩ :=
      BinaryOp.run_compare hstrings w.addObject.1.addObject.1
    rw [hsame] at hequal hnotEqual
    rw [hfree]
    exact ⟨_, w.asBefore_addObject.trans (World.asBefore_addObject _),
      Expr.run_binary hleft hright hequal,
      Expr.run_binary hleft hright hnotEqual⟩

/-! ### A builtin, named and bound -/

/-- A scope binds `f` to the builtin `len`, which no scope binds to its own
name. -/
def World.boundLen : World :=
  ⟨#[⟨[("f", .builtin 0 .len)], none⟩], 1, "", .ascending⟩

/-- The name that is bound is one value. -/
theorem Expr.ident_compared_boundLen :
    ((Expr.ident "f").eval (Closure.call 0) 0).run World.boundLen
        = .done (.builtin 0 .len) World.boundLen
      ∧ ∃ u, World.boundLen.AsBefore u
        ∧ ((Expr.binary .equal (.ident "f") (.ident "f")).eval
          (Closure.call 0) 0).run World.boundLen = .done (.truth true) u := by
  have hrun : ((Expr.ident "f").eval (Closure.call 0) 0).run World.boundLen
      = .done (.builtin 0 .len) World.boundLen := by cbv
  have hbound : World.boundLen.get? 0 "f" = some (.builtin 0 .len) := by cbv
  obtain ⟨u, hbefore, hequal, -⟩ := Expr.ident_compared hrun (by decide)
  rw [hbound] at hequal
  exact ⟨hrun, u, hbefore, hequal⟩

/-- **The builtin's own name is two values**: where nothing is bound, `len`
comes to a builtin, and still `len == len` is false and `len != len` is true. -/
theorem Expr.len_differs_from_itself :
    (∃ v w, ((Expr.ident "len").eval (Closure.call 0) 0).run
        ((World.empty .ascending).addScope none).1 = .done v w
      ∧ v.type = .builtin)
    ∧ (∃ w, ((Expr.binary .equal (.ident "len") (.ident "len")).eval
        (Closure.call 0) 0).run ((World.empty .ascending).addScope none).1
      = .done (.truth false) w)
    ∧ ∃ w, ((Expr.binary .notEqual (.ident "len") (.ident "len")).eval
        (Closure.call 0) 0).run ((World.empty .ascending).addScope none).1
      = .done (.truth true) w := by
  refine ⟨⟨.builtin 0 .len, ⟨#[⟨[], none⟩], 1, "", .ascending⟩, ?_, rfl⟩,
    ⟨⟨#[⟨[], none⟩], 2, "", .ascending⟩, ?_⟩,
    ⟨⟨#[⟨[], none⟩], 2, "", .ascending⟩, ?_⟩⟩
  · cbv
  · cbv
  · cbv

end Monkey
