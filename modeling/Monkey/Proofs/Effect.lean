import Mathlib.Order.Defs.Unbundled
import Monkey.Eval.Program

/-!
# What evaluations do to the world

An evaluation *stays within* a relation of worlds if the relation holds between
the world it starts in and the world it ends in, whether it ends with a result
or with a failure (`Eval.Within`). Relations that are reflexive and transitive
compose: what every step stays within, the evaluation as a whole stays within.
Where more is to be said of results and failures, an evaluation *keeps* an
invariant of the world, and results and failures are as promised (`Eval.Keeps`).

The operations on values stay within the narrowest relation that is of interest
here, `World.SameScopes`: they hand out identities and write, and touch no
scope.
-/

namespace Monkey

/-- The world an evaluation ends in, if it has an answer. -/
def Outcome.world? {ε α : Type} : Outcome ε α → Option World
  | .done _ w => some w
  | .failed _ w => some w
  | .exhausted => none

namespace Eval

variable {ε ε' α β : Type} {R S : World → World → Prop}

/-- **An evaluation stays within a relation**: whatever world it starts in, and
whether it ends with a result or a failure, the world it ends in is related to
the world it started in. -/
def Within (R : World → World → Prop) (x : Eval ε α) : Prop :=
  ∀ w w', (x.run w).world? = some w' → R w w'

theorem Within.mono {x : Eval ε α} (h : x.Within R)
    (hRS : ∀ w w', R w w' → S w w') : x.Within S :=
  fun w w' hw => hRS w w' (h w w' hw)

/-- An evaluation whose answer is known stays within what holds of its world. -/
theorem within_of_world? {x : Eval ε α} {f : World → World}
    (hx : ∀ w, (x.run w).world? = some (f w)) (hf : ∀ w, R w (f w)) :
    x.Within R := by
  intro w w' hw
  rw [hx w] at hw
  rw [← Option.some.inj hw]
  exact hf w

theorem within_update {f : World → World} (hf : ∀ w, R w (f w)) :
    (update f : Eval ε Unit).Within R :=
  within_of_world? (fun _ => rfl) hf

/-- What a step does to the world is all that it does. -/
theorem within_step {f : World → World × α} (hf : ∀ w, R w (f w).1) :
    (step f : Eval ε α).Within R :=
  within_of_world? (fun _ => rfl) hf

/-- It does not matter what the failure is. -/
theorem Within.mapError {x : Eval ε α} (h : x.Within R) (f : ε → ε') :
    (x.mapError f).Within R := by
  intro w w' hw
  refine h w w' ?_
  rw [← hw]
  unfold Eval.run Eval.mapError
  cases x w <;> rfl

section

variable [IsPreorder World R]

theorem within_done (a : α) : (done a : Eval ε α).Within R :=
  within_of_world? (fun _ => rfl) (refl_of R)

theorem within_fail (e : ε) : (fail e : Eval ε α).Within R :=
  within_of_world? (fun _ => rfl) (refl_of R)

theorem within_ask (f : World → α) : (ask f : Eval ε α).Within R :=
  within_of_world? (fun _ => rfl) (refl_of R)

/-- **Evaluations put after each other stay within what each of them stays
within.** If the first one fails, its world is the last. -/
theorem Within.bind {x : Eval ε α} {f : α → Eval ε β} (hx : x.Within R)
    (hf : ∀ a, (f a).Within R) : (x >>= f).Within R := by
  intro w w' hw
  cases hrun : x.run w with
  | done a v =>
    rw [run_bind_of_done hrun] at hw
    have hv : R w v := hx w v (by rw [hrun]; rfl)
    exact trans_of R hv (hf a v w' hw)
  | failed e v =>
    rw [run_bind_of_failed hrun] at hw
    rw [← Option.some.inj hw]
    exact hx w v (by rw [hrun]; rfl)
  | exhausted =>
    rw [run_bind_of_exhausted hrun] at hw
    cases hw

end

end Eval

/-! ## Evaluations that keep an invariant -/

/-- **What an evaluation ends with**: a world of which `I` is true, and a result
of which `P` is or a failure of which `E` is; or nothing at all. -/
inductive Outcome.Satisfies {ε α : Type} (I : World → Prop) (E : ε → Prop)
    (P : α → Prop) : Outcome ε α → Prop where
  | done {a : α} {w : World} : P a → I w → Satisfies I E P (.done a w)
  | failed {e : ε} {w : World} : E e → I w → Satisfies I E P (.failed e w)
  | exhausted : Satisfies I E P .exhausted

namespace Eval

variable {ε ε' α β : Type} {I : World → Prop} {E : ε → Prop} {F : ε' → Prop}
  {P : α → Prop} {Q : β → Prop}

/-- **The evaluation keeps the invariant.** -/
def Keeps (I : World → Prop) (E : ε → Prop) (P : α → Prop) (x : Eval ε α) :
    Prop :=
  ∀ w, I w → (x.run w).Satisfies I E P

theorem keeps_done {a : α} (h : P a) : (done a : Eval ε α).Keeps I E P :=
  fun _ hw => .done h hw

theorem keeps_fail {e : ε} (h : E e) : (fail e : Eval ε α).Keeps I E P :=
  fun _ hw => .failed h hw

theorem keeps_exhaust : (exhaust : Eval ε α).Keeps I E P :=
  fun _ _ => .exhausted

theorem keeps_ask {f : World → α} (h : ∀ w, I w → P (f w)) :
    (ask f : Eval ε α).Keeps I E P :=
  fun w hw => .done (h w hw) hw

/-- A step keeps the invariant if what it does to the world does. -/
theorem keeps_step {f : World → World × α}
    (h : ∀ w, I w → P (f w).2 ∧ I (f w).1) : (step f : Eval ε α).Keeps I E P :=
  fun w hw => .done (h w hw).1 (h w hw).2

/-- What is done is as promised. -/
theorem Keeps.of_done {x : Eval ε α} (h : x.Keeps I E P) {w w' : World} {a : α}
    (hrun : x.run w = .done a w') (hw : I w) : P a ∧ I w' := by
  have hsat := h w hw
  rw [hrun] at hsat
  cases hsat with
  | done ha hw' => exact ⟨ha, hw'⟩

/-- The invariant is true of the world that the evaluation ends in. -/
theorem Keeps.of_world? {x : Eval ε α} (h : x.Keeps I E P) {w w' : World}
    (hrun : (x.run w).world? = some w') (hw : I w) : I w' := by
  have hsat := h w hw
  generalize x.run w = o at hrun hsat
  cases hsat with
  | done _ hw' | failed _ hw' =>
    cases hrun
    exact hw'
  | exhausted => cases hrun

/-- **Evaluations put after each other keep what each of them keeps.** -/
theorem Keeps.bind {x : Eval ε α} {f : α → Eval ε β} (hx : x.Keeps I E P)
    (hf : ∀ a, P a → (f a).Keeps I E Q) : (x >>= f).Keeps I E Q := by
  intro w hw
  have hsat := hx w hw
  cases hrun : x.run w with
  | done a w' =>
    obtain ⟨ha, hw'⟩ := hx.of_done hrun hw
    rw [run_bind_of_done hrun]
    exact hf a ha w' hw'
  | failed e w' =>
    rw [hrun] at hsat
    rw [run_bind_of_failed hrun]
    cases hsat with
    | failed he hw' => exact .failed he hw'
  | exhausted =>
    rw [run_bind_of_exhausted hrun]
    exact .exhausted

/-- Failures are as promised after they are turned into others. -/
theorem Keeps.mapError {x : Eval ε α} (h : x.Keeps I E P) {f : ε → ε'}
    (hf : ∀ e, E e → F (f e)) : (x.mapError f).Keeps I F P := by
  intro w hw
  have hsat := h w hw
  unfold Eval.run Eval.mapError at *
  generalize x w = o at hsat
  cases hsat with
  | done ha hw' => exact .done ha hw'
  | failed he hw' => exact .failed (hf _ he) hw'
  | exhausted => exact .exhausted

/-- An evaluation stays within a relation if it keeps what is related to any
given world. -/
theorem within_of_keeps {R : World → World → Prop} [IsPreorder World R]
    {x : Eval ε α} (h : ∀ w₀, x.Keeps (R w₀) E P) : x.Within R :=
  fun w _ hw => (h w).of_world? hw (refl_of R w)

/-- What stays within a relation keeps what is related to any given world. -/
theorem Within.keeps {R : World → World → Prop} [IsPreorder World R]
    {x : Eval ε α} (h : x.Within R) (w₀ : World) :
    x.Keeps (R w₀) (fun _ => True) (fun _ => True) := by
  intro w hw
  have hwithin (w' : World) (hw' : (x.run w).world? = some w') : R w₀ w' :=
    trans_of R hw (h w w' hw')
  generalize x.run w = o at hwithin
  cases o with
  | done a w' => exact .done trivial (hwithin w' rfl)
  | failed e w' => exact .failed trivial (hwithin w' rfl)
  | exhausted => exact .exhausted

end Eval

open Eval

theorem Operation.within_lift {α : Type} {R : World → World → Prop}
    {x : Operation α} (h : Eval.Within R x) : Eval.Within R x.lift :=
  h.mapError _

/-- A `return` that is caught leaves the world as it is. -/
theorem Evaluation.within_catchReturn {R : World → World → Prop}
    {x : Evaluation Value} (h : Eval.Within R x) :
    Eval.Within R x.catchReturn := by
  intro w w' hw
  refine h w w' ?_
  rw [← hw]
  unfold Eval.run Evaluation.catchReturn
  rcases x w with _ | ⟨_ | _, _⟩ | _ <;> rfl

/-! ## Operations touch no scope -/

/-- The scopes are the same. -/
def World.SameScopes (w w' : World) : Prop :=
  w'.scopes = w.scopes

instance : IsPreorder World World.SameScopes where
  refl _ := rfl
  trans _ _ _ hv hw := hw.trans hv

/-- Making an object touches no scope. -/
theorem Eval.within_make {ε α : Type} (object : ObjectId → α) :
    (make object : Eval ε α).Within World.SameScopes :=
  within_step fun _ => rfl

theorem within_exactly (e : EvalError) (value : Option Int64) :
    (exactly e value).Within World.SameScopes := by
  cases value with
  | some value => exact within_make (Value.int · value)
  | none => exact within_fail _

theorem Value.within_asKey (v : Value) : v.asKey.Within World.SameScopes := by
  unfold Value.asKey
  split
  · exact within_done _
  · exact within_fail _

theorem UnaryOp.within_apply (op : UnaryOp) (v : Value) :
    (op.apply v).Within World.SameScopes := by
  unfold UnaryOp.apply
  split
  · exact within_done _
  · exact within_exactly _ _
  · exact within_fail _

/-- **Operators touch no scope.** -/
theorem BinaryOp.within_apply (op : BinaryOp) (v w : Value) :
    (op.apply v w).Within World.SameScopes := by
  unfold BinaryOp.apply
  split
  · cases op with
    | plus | minus | multiply => exact within_exactly _ _
    | divide =>
      unfold BinaryOp.onInts
      dsimp only
      split
      · exact within_fail _
      · exact within_exactly _ _
    | lessThan | greaterThan | equal | notEqual => exact within_done _
  · cases op with
    | plus => exact within_make (Value.str · _)
    | _ => exact within_fail _
  · cases op with
    | equal | notEqual => exact within_done _
    | _ =>
      unfold BinaryOp.onObjects
      dsimp only
      split <;> exact within_fail _

/-- **Indices touch no scope.** -/
theorem Value.within_at (v w : Value) :
    (v.at w).Within World.SameScopes := by
  unfold Value.at
  split
  · exact within_done _
  · refine (Value.within_asKey _).bind fun key => ?_
    split <;> exact within_done _
  · exact within_fail _

theorem Builtin.within_elementsOf (b : Builtin) (v : Value) :
    (b.elementsOf v).Within World.SameScopes := by
  unfold Builtin.elementsOf
  split
  · exact within_done _
  · exact within_fail _

/-- Writing touches no scope. -/
theorem World.sameScopes_writeValues (w : World) (vs : List Value) :
    w.SameScopes (w.writeValues vs) := by
  induction vs generalizing w with
  | nil => rfl
  | cons v vs ih => exact ih (w.writeValue v)

/-- **Builtins touch no scope.** -/
theorem Builtin.within_apply (b : Builtin) (args : List Value) :
    (b.apply args).Within World.SameScopes := by
  unfold Builtin.apply
  split
  · unfold Builtin.lengthOf
    split
    · exact within_make _
    · exact within_make _
    · exact within_fail _
  · exact (Builtin.within_elementsOf _ _).bind fun _ => within_done _
  · exact (Builtin.within_elementsOf _ _).bind fun _ => within_done _
  · refine (Builtin.within_elementsOf _ _).bind fun elements => ?_
    split
    · exact within_done _
    · exact within_make _
  · exact (Builtin.within_elementsOf _ _).bind fun _ => within_make _
  · exact (within_update fun w => w.sameScopes_writeValues args).bind fun _ =>
      within_done _
  · exact within_fail _
  · exact within_fail _

/-- Asking what a name means touches no scope. -/
theorem within_lookup (scope : ScopeId) (name : String) :
    (lookup scope name).Within World.SameScopes := by
  unfold lookup
  refine (within_ask _).bind fun value => ?_
  split
  · exact within_done _
  · split
    · exact within_make _
    · exact within_fail _

end Monkey
