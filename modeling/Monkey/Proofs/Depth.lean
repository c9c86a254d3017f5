import Monkey.Proofs.Congruence

/-!
# Depth decides only whether there is an answer

An evaluation *approximates* another if it gives the same outcome wherever it
gives one: it may end for want of depth where the other goes on, and that is
all. Everything evaluation is put together from respects approximation, so a
program evaluated with calls nested to some depth approximates the same program
evaluated with calls nested deeper (`Program.eval_approximates`).
-/

namespace Monkey

/-- **One outcome approximates another**, up to their results: it is none, or
the same outcome with a result that `P` relates to the other. -/
inductive Outcome.Approximates {ε α : Type} (P : α → α → Prop) :
    Outcome ε α → Outcome ε α → Prop where
  | done {a b : α} {w : World} : P a b → Approximates P (.done a w) (.done b w)
  | failed {e : ε} {w : World} : Approximates P (.failed e w) (.failed e w)
  | exhausted {o : Outcome ε α} : Approximates P .exhausted o

theorem Outcome.approximates_eq_iff {ε α : Type} {o o' : Outcome ε α} :
    o.Approximates Eq o' ↔ o = .exhausted ∨ o = o' := by
  constructor
  · intro h
    cases h with
    | done hab => exact .inr (by rw [hab])
    | failed => exact .inr rfl
    | exhausted => exact .inl rfl
  · rintro (rfl | rfl)
    · exact .exhausted
    · cases o with
      | done a w => exact .done rfl
      | failed e w => exact .failed
      | exhausted => exact .exhausted

namespace Eval

variable {ε ε' α β : Type}

/-- **One evaluation approximates another**: where it gives an outcome, the
other gives the same. -/
def Approximates (x y : Eval ε α) : Prop :=
  ∀ w, x.run w = .exhausted ∨ x.run w = y.run w

theorem Approximates.refl (x : Eval ε α) : x.Approximates x :=
  fun _ => .inr rfl

theorem approximates_iff {x y : Eval ε α} :
    x.Approximates y ↔ ∀ w, (x.run w).Approximates Eq (y.run w) :=
  forall_congr' fun _ => Outcome.approximates_eq_iff.symm

/-- Approximation is kept when evaluations are put after each other. -/
theorem approximates_bind {P : α → α → Prop} {Q : β → β → Prop}
    {x y : Eval ε α} {f g : α → Eval ε β}
    (hxy : ∀ w, (x.run w).Approximates P (y.run w))
    (hfg : ∀ a b, P a b → ∀ w, ((f a).run w).Approximates Q ((g b).run w))
    (w : World) : ((x >>= f).run w).Approximates Q ((y >>= g).run w) := by
  have houtcome := hxy w
  generalize hx : x.run w = o, hy : y.run w = o' at houtcome
  cases houtcome with
  | done hab =>
    rw [run_bind_of_done hx, run_bind_of_done hy]
    exact hfg _ _ hab _
  | failed =>
    rw [run_bind_of_failed hx, run_bind_of_failed hy]
    exact .failed
  | exhausted =>
    rw [run_bind_of_exhausted hx]
    exact .exhausted

/-- Approximation is kept when failures are restated. -/
theorem Approximates.mapError {x y : Eval ε α} (h : x.Approximates y)
    (f : ε → ε') : (x.mapError f).Approximates (y.mapError f) := by
  intro w
  have hw : x w = .exhausted ∨ x w = y w := h w
  unfold Eval.run Eval.mapError
  rcases hw with hx | hxy
  · exact .inl (by rw [hx])
  · exact .inr (by rw [hxy])

end Eval

open Eval

/-- Approximation is kept where a `return` is caught. -/
theorem Evaluation.catchReturn_approximates {x y : Evaluation Value}
    (h : Eval.Approximates x y) :
    Eval.Approximates (catchReturn x) (catchReturn y) := by
  intro w
  have hw : x w = .exhausted ∨ x w = y w := h w
  unfold Eval.run catchReturn
  rcases hw with hx | hxy
  · exact .inl (by rw [hx])
  · exact .inr (by rw [hxy])

/-- **Approximation, as a comparison of evaluations.** Nothing changes on the
way, and all that is alike is equal. -/
def approximation : Congruence where
  Stage := Unit
  Leads _ _ := True
  node _ := True
  Values _ := Eq
  Lists _ := Eq
  Tables _ := Eq
  Evals _ P x y := ∀ w, (x.run w).Approximates (P ()) (y.run w)

section

variable {call call' : Closure → List Value → Operation Value}
  (h : ∀ f args, (call f args).Approximates (call' f args))

include h

/-- Calls of values approximate each other as calls of functions do. -/
theorem Value.callWith_approximates (f : Value) (args : List Value) :
    (f.callWith call args).Approximates (f.callWith call' args) := by
  cases f with
  | fn _ closure => exact h closure args
  | _ => exact .refl _

/-- **Operations approximate each other**: all but calls are the same. -/
theorem approximation_holds (s : ScopeId) :
    approximation.Holds call call' s s where
  operands _ _ _ := trivial
  values_mono _ hv := hv
  lists_mono _ hvs := hvs
  tables_mono _ ht := ht
  done hP _ := .done (hP () trivial)
  bind hx hf := approximates_bind hx fun a b hab => hf () a b trivial hab
  truth _ := rfl
  nothing := rfl
  truthy hv := congrArg Value.truthy (Eq.symm hv)
  lists_nil := rfl
  lists_cons hv hvs := List.cons_eq_cons.2 ⟨hv, hvs⟩
  tables_nil := rfl
  tables_insert key ht hk hv := by
    rw [show _ = _ from ht, show _ = _ from hk, show _ = _ from hv]
    rfl
  lookup _ := approximates_iff.1 (.refl _)
  int _ := approximates_iff.1 (.refl _)
  str _ := approximates_iff.1 (.refl _)
  fn _ := approximates_iff.1 (.refl _)
  array hvs := hvs ▸ approximates_iff.1 (.refl _)
  hash ht := ht ▸ approximates_iff.1 (.refl _)
  unary _ hv := hv ▸ approximates_iff.1 (.refl _)
  binary _ hv hw := hv ▸ hw ▸ approximates_iff.1 (.refl _)
  key hv := hv ▸ approximates_iff.1 (.refl _)
  index hv hw := hv ▸ hw ▸ approximates_iff.1 (.refl _)
  call {i f g vs ws} hf hvs := by
    rw [← show f = g from hf, ← show vs = ws from hvs]
    exact approximates_iff.1
      ((Value.callWith_approximates h f vs).mapError _)
  set _ hv := hv ▸ fun _ => .done trivial
  ret hv := hv ▸ approximates_iff.1 (.refl _)

theorem Expr.eval_approximates (scope : ScopeId) (e : Expr) :
    (e.eval call scope).Approximates (e.eval call' scope) :=
  approximates_iff.2
    ((approximation_holds h scope).at_node (n := .expr e) trivial ())

theorem Stmt.eval_approximates (scope : ScopeId) (s : Stmt) :
    (s.eval call scope).Approximates (s.eval call' scope) :=
  approximates_iff.2
    ((approximation_holds h scope).at_node (n := .stmt s) trivial ())

theorem evalExprs_approximates (scope : ScopeId) (es : List Expr) :
    (evalExprs call scope es).Approximates (evalExprs call' scope es) :=
  approximates_iff.2 ((approximation_holds h scope).evalExprs
    (fun _ _ => (approximation_holds h scope).at_node trivial) ())

theorem evalPairs_approximates (scope : ScopeId) (pairs : List (Expr × Expr))
    (entries : Table HashKey (Value × Value)) :
    (evalPairs call scope entries pairs).Approximates
      (evalPairs call' scope entries pairs) := by
  have hnode (n : Node) : approximation.At call call' scope scope n :=
    (approximation_holds h scope).at_node trivial
  exact approximates_iff.2 ((approximation_holds h scope).evalPairs
    (fun p _ => ⟨hnode (.expr p.1), hnode (.expr p.2)⟩)
    (show approximation.Tables () entries entries from rfl))

theorem evalStmts_approximates (scope : ScopeId) (ss : List Stmt)
    (last : Value) :
    (evalStmts call scope last ss).Approximates
      (evalStmts call' scope last ss) :=
  approximates_iff.2 ((approximation_holds h scope).evalStmts
    (fun _ _ => (approximation_holds h scope).at_node trivial)
    (show approximation.Values () last last from rfl))

/-- Calls of a function approximate each other as the calls in its body do. -/
theorem Closure.enterAndRun_approximates (f : Closure) (args : List Value) :
    (f.enterAndRun call args).Approximates (f.enterAndRun call' args) := by
  unfold Closure.enterAndRun
  split
  · have hbody (scope : ScopeId) := Evaluation.catchReturn_approximates
      (evalStmts_approximates h scope f.body .nothing)
    refine approximates_iff.2 (approximates_bind
      (approximates_iff.1 (.refl (f.enter args))) ?_)
    rintro scope _ rfl
    exact approximates_iff.1 (hbody scope)
  · exact .refl _

end

/-- **Deeper calls are approximated by shallower ones.** -/
theorem Closure.call_approximates {m n : Nat} (hmn : m ≤ n) (f : Closure)
    (args : List Value) : (f.call m args).Approximates (f.call n args) := by
  induction m generalizing n f args with
  | zero => exact fun _ => .inl rfl
  | succ m ih =>
    obtain ⟨n, rfl⟩ : ∃ k, n = k + 1 := ⟨n - 1, by omega⟩
    exact f.enterAndRun_approximates
      (fun f args => ih (Nat.le_of_succ_le_succ hmn) f args) args

/-- **Depth decides only whether there is an answer**: a program that is done
or fails does so in the same way with calls nested deeper. -/
theorem Program.eval_approximates {m n : Nat} (hmn : m ≤ n)
    (program : Program) (scope : ScopeId) :
    (program.eval m scope).Approximates (program.eval n scope) :=
  Evaluation.catchReturn_approximates
    (evalStmts_approximates (Closure.call_approximates hmn) scope
      program.statements .nothing)

end Monkey
