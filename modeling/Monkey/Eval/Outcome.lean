import Monkey.World

/-!
# Outcomes of evaluations

An evaluation starts in a world and ends in one of three ways: it is done with
a result, it fails with a cause, or it needs deeper calls than it was allowed
and ends without an answer. The world is carried on in the first two cases:
what was bound and written before a failure stays bound and written.

`Eval ε α` are the evaluations with results in `α` and failures in `ε`, put
after each other by `bind`: the second starts in the world the first ended in,
and only if the first was done.
-/

namespace Monkey

/-- **How an evaluation ends.** -/
inductive Outcome (ε α : Type) where
  /-- With a result. -/
  | done (a : α) (w : World)
  /-- With a failure. -/
  | failed (e : ε) (w : World)
  /-- Without an answer, since calls were nested too deeply. -/
  | exhausted

/-- **An evaluation**, started in a world. -/
def Eval (ε α : Type) := World → Outcome ε α

namespace Eval

variable {ε ε' α β : Type}

/-- Runs an evaluation in a world. -/
def run (x : Eval ε α) (w : World) : Outcome ε α := x w

/-- Is done at once. -/
def done (a : α) : Eval ε α := fun w => .done a w

/-- Fails at once. -/
def fail (e : ε) : Eval ε α := fun w => .failed e w

/-- Gives up for want of depth. -/
def exhaust : Eval ε α := fun _ => .exhausted

/-- Goes on with `f` if `x` is done. -/
def bind (x : Eval ε α) (f : α → Eval ε β) : Eval ε β := fun w =>
  match x w with
  | .done a w' => f a w'
  | .failed e w' => .failed e w'
  | .exhausted => .exhausted

instance : Monad (Eval ε) where
  pure := done
  bind := bind

/-- Changes the world. -/
def update (f : World → World) : Eval ε Unit := fun w => .done () (f w)

/-- Does what `f` says with the world and is done with its result. -/
def step (f : World → World × α) : Eval ε α := fun w =>
  match f w with
  | (w', a) => .done a w'

/-- Asks a question about the world. -/
def ask (f : World → α) : Eval ε α := fun w => .done (f w) w

/-- Restates failures. -/
def mapError (f : ε → ε') (x : Eval ε α) : Eval ε' α := fun w =>
  match x w with
  | .done a w' => .done a w'
  | .failed e w' => .failed (f e) w'
  | .exhausted => .exhausted

/-- The object that an identity makes, with the next identity. -/
def make (object : ObjectId → α) : Eval ε α :=
  step fun w =>
    let (w', id) := w.addObject
    (w', object id)

/-! ## Running evaluations -/

@[simp] theorem run_pure (a : α) (w : World) :
    (pure a : Eval ε α).run w = .done a w := rfl

@[simp] theorem run_done (a : α) (w : World) :
    (done a : Eval ε α).run w = .done a w := rfl

@[simp] theorem run_fail (e : ε) (w : World) :
    (fail e : Eval ε α).run w = .failed e w := rfl

@[simp] theorem run_exhaust (w : World) :
    (exhaust : Eval ε α).run w = .exhausted := rfl

@[simp] theorem run_update (f : World → World) (w : World) :
    (update f : Eval ε Unit).run w = .done () (f w) := rfl

@[simp] theorem run_ask (f : World → α) (w : World) :
    (ask f : Eval ε α).run w = .done (f w) w := rfl

/-- After an evaluation that is done, the next one runs. -/
theorem run_bind_of_done {x : Eval ε α} {w w' : World} {a : α}
    (h : x.run w = .done a w') (f : α → Eval ε β) :
    (x >>= f).run w = (f a).run w' := by
  show (match x w with
    | .done a w' => _ | .failed e w' => _ | .exhausted => _) = _
  rw [show x w = .done a w' from h]
  rfl

/-- **A failure cuts an evaluation short.** -/
theorem run_bind_of_failed {x : Eval ε α} {w w' : World} {e : ε}
    (h : x.run w = .failed e w') (f : α → Eval ε β) :
    (x >>= f).run w = .failed e w' := by
  show (match x w with
    | .done a w' => _ | .failed e w' => _ | .exhausted => _) = _
  rw [show x w = .failed e w' from h]

/-- An evaluation without an answer leaves none to what comes after it. -/
theorem run_bind_of_exhausted {x : Eval ε α} {w : World}
    (h : x.run w = .exhausted) (f : α → Eval ε β) :
    (x >>= f).run w = .exhausted := by
  show (match x w with
    | .done a w' => _ | .failed e w' => _ | .exhausted => _) = _
  rw [show x w = .exhausted from h]

/-- **Evaluations can be put after each other in any grouping**, and to be done
with the result is to do nothing. -/
instance : LawfulMonad (Eval ε) := by
  refine LawfulMonad.mk' (Eval ε) (fun x => ?_) (fun _ _ => rfl)
    fun x f g => ?_
  · funext w
    show (x >>= pure).run w = x.run w
    cases hx : x.run w with
    | done a w' => exact run_bind_of_done hx pure
    | failed e w' => exact run_bind_of_failed hx pure
    | exhausted => exact run_bind_of_exhausted hx pure
  · funext w
    show (x >>= f >>= g).run w = (x >>= fun a => f a >>= g).run w
    cases hx : x.run w with
    | done a w' =>
      have hxf := run_bind_of_done hx f
      rw [run_bind_of_done hx]
      cases hf : (f a).run w' with
      | done b w'' =>
        rw [run_bind_of_done (hxf.trans hf), run_bind_of_done hf]
      | failed e w'' =>
        rw [run_bind_of_failed (hxf.trans hf), run_bind_of_failed hf]
      | exhausted =>
        rw [run_bind_of_exhausted (hxf.trans hf), run_bind_of_exhausted hf]
    | failed e w' =>
      rw [run_bind_of_failed (run_bind_of_failed hx f), run_bind_of_failed hx]
    | exhausted =>
      rw [run_bind_of_exhausted (run_bind_of_exhausted hx f),
        run_bind_of_exhausted hx]

end Eval

end Monkey
