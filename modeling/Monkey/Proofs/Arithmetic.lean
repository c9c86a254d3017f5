import Monkey.Proofs.Naming

/-!
# Arithmetic is exact, or it fails where it first cannot be

An arithmetic expression is made of integers, the minus sign and the four
operators of arithmetic. In the unbounded integers it has a value, with
quotients rounded toward zero, and so does each of its parts. Evaluation computes
with integers of sixty-four bits, and still its results are these values, or
there is none.

A part is *faulty* if it divides by zero or if its value is out of range. The
parts of an expression are evaluated in a fixed order, from left to right and
operands before operators (`Arith.nodes`). If no part is faulty, evaluation
gives the value. Otherwise it fails at the first part that is, and the error
tells the values of the operands there (`Arith.eval_exact_or_fails`).
-/

namespace Monkey

open Eval

/-- The operators of arithmetic. -/
inductive ArithOp where
  | plus
  | minus
  | multiply
  | divide
  deriving DecidableEq

namespace ArithOp

/-- The operator of the language. -/
def binary : ArithOp → BinaryOp
  | plus => .plus
  | minus => .minus
  | multiply => .multiply
  | divide => .divide

/-- The operation on the unbounded integers. A quotient is rounded toward
zero. -/
def onIntegers : ArithOp → Int → Int → Int
  | plus, m, n => m + n
  | minus, m, n => m - n
  | multiply, m, n => m * n
  | divide, m, n => m.tdiv n

end ArithOp

/-- **An arithmetic expression.** -/
inductive Arith where
  /-- An integer. -/
  | int (value : Int64)
  /-- A minus sign before an operand. -/
  | neg (operand : Arith)
  /-- An operator between operands. -/
  | binary (op : ArithOp) (left right : Arith)

namespace Arith

/-- The expression of the language. -/
def expr : Arith → Expr
  | int value => .int value
  | neg a => .unary .minus a.expr
  | binary op a b => .binary op.binary a.expr b.expr

/-- **The value in the unbounded integers.** -/
def exact : Arith → Int
  | int value => value.toInt
  | neg a => -a.exact
  | binary op a b => op.onIntegers a.exact b.exact

/-- **The parts of an expression** in the order in which they are evaluated: the
operands from left to right, then the whole. -/
def nodes : Arith → List Arith
  | int value => [int value]
  | neg a => a.nodes ++ [neg a]
  | binary op a b => a.nodes ++ b.nodes ++ [binary op a b]

/-- The expression is a division by zero. -/
def DividesByZero : Arith → Prop
  | binary .divide _ b => b.exact = 0
  | _ => False

/-- The value of the expression is in the range of the language: from
`-2 ^ 63` to `2 ^ 63 - 1`. -/
def InRange (t : Arith) : Prop :=
  -9223372036854775808 ≤ t.exact ∧ t.exact ≤ 9223372036854775807

/-- **The expression is faulty** on its own account. -/
def Faulty (t : Arith) : Prop := t.DividesByZero ∨ ¬ t.InRange

/-- **The error that a faulty expression is reported with**: a division by zero
as such, and otherwise an overflow, with the values of the operands. -/
inductive Reported : Arith → EvalError → Prop where
  | division {a b : Arith} : b.exact = 0 →
      Reported (binary .divide a b) .divisionByZero
  | negation {a : Arith} {m : Int64} : m.toInt = a.exact →
      Reported (neg a) (.negationOverflow m)
  | overflow {op : ArithOp} {a b : Arith} {m n : Int64} :
      ¬ (binary op a b).DividesByZero → m.toInt = a.exact →
      n.toInt = b.exact → Reported (binary op a b) (.overflow m op.binary n)

end Arith

/-! ## One operator -/

/-- **A result is exact**: it is made if it is in range, and is an overflow
otherwise. -/
theorem run_exactly_ofInt? (error : EvalError) (n : Int) (w : World) :
    (∃ v : Int64, v.toInt = n
      ∧ (exactly error (Integer.ofInt? n)).run w
        = .done (.int w.nextObject v) w.addObject.1)
    ∨ (¬ (-9223372036854775808 ≤ n ∧ n ≤ 9223372036854775807)
      ∧ (exactly error (Integer.ofInt? n)).run w = .failed error w) := by
  cases hn : Integer.ofInt? n with
  | some v => exact .inl ⟨v, Integer.ofInt?_eq_some_iff.1 hn, rfl⟩
  | none =>
    refine .inr ⟨?_, rfl⟩
    have hout := Integer.ofInt?_eq_none_iff.1 hn
    omega

/-- **The operators of arithmetic** fail on a division by zero, and otherwise
have the exact result. -/
theorem ArithOp.onInts_eq (op : ArithOp) (m n : Int64) :
    op.binary.onInts m n
      = if op = .divide ∧ n.toInt = 0 then .fail .divisionByZero
        else exactly (.overflow m op.binary n)
          (Integer.ofInt? (op.onIntegers m.toInt n.toInt)) := by
  have hzero : n.toInt = 0 ↔ n = 0 := by
    rw [← Int64.toInt_zero, Int64.toInt_inj]
  cases op with
  | divide => simp only [true_and, hzero]; rfl
  | plus | minus | multiply => rw [if_neg (by simp)]; rfl

namespace Arith

/-! ## Evaluation -/

/-- **How the evaluation of an expression ends**: exactly, if no part is faulty,
and otherwise with the error of the first part that is. -/
inductive Ends (t : Arith) (w : World) : Outcome Interrupt Value → Prop where
  | gives {id : ObjectId} {v : Int64} {w' : World} :
      (∀ s ∈ t.nodes, ¬ s.Faulty) → v.toInt = t.exact → w.AsBefore w' →
      Ends t w (.done (.int id v) w')
  | fails {before after : List Arith} {s : Arith} {e : EvalError}
      {w' : World} :
      t.nodes = before ++ s :: after → (∀ r ∈ before, ¬ r.Faulty) →
      s.Faulty → s.Reported e → w.AsBefore w' →
      Ends t w (.failed (.failed e) w')

section

variable {t a b : Arith} {u w w' : World}

theorem not_faulty {v : Int64} (hzero : ¬ t.DividesByZero)
    (hv : v.toInt = t.exact) : ¬ t.Faulty := by
  have hle := Int64.le_toInt v
  have hlt := Int64.toInt_lt v
  rintro (h | h)
  · exact hzero h
  · unfold InRange at h
    omega

/-- **A part that fails** makes the whole fail, if the parts before it are not
faulty. -/
theorem Ends.fails_of_part {i : Interrupt} (h : a.Ends u (.failed i w'))
    (hwu : w.AsBefore u) {before after : List Arith}
    (hnodes : t.nodes = before ++ a.nodes ++ after)
    (hbefore : ∀ r ∈ before, ¬ r.Faulty) : t.Ends w (.failed i w') := by
  cases h with
  | @fails before' after' s e _ ha hbefore' hfaulty hreported huw' =>
    have hsplit : t.nodes = (before ++ before') ++ s :: (after' ++ after) := by
      rw [hnodes, ha]
      simp
    exact .fails hsplit (List.forall_mem_append.2 ⟨hbefore, hbefore'⟩) hfaulty
      hreported (hwu.trans huw')

/-- **The last part**: if the parts before it are not faulty, the outcome is
that of the last operation. -/
theorem Ends.of_exactly {before : List Arith} {error : EvalError}
    (hnodes : t.nodes = before ++ [t]) (hbefore : ∀ r ∈ before, ¬ r.Faulty)
    (hzero : ¬ t.DividesByZero) (hreported : t.Reported error)
    (hwu : w.AsBefore u) :
    t.Ends w (Operation.lift (exactly error (Integer.ofInt? t.exact)) |>.run u)
    := by
  obtain ⟨v, hv, hrun⟩ | ⟨hout, hrun⟩ := run_exactly_ofInt? error t.exact u
  · rw [Operation.run_lift_of_done hrun]
    refine .gives ?_ hv (hwu.trans u.asBefore_addObject)
    rw [hnodes]
    exact List.forall_mem_append.2
      ⟨hbefore, List.forall_mem_singleton.2 (not_faulty hzero hv)⟩
  · rw [Operation.run_lift_of_failed hrun]
    exact .fails hnodes hbefore (.inr hout) hreported hwu

/-- **An operator between integers**, these being the values of its operands. -/
theorem ends_binary (op : ArithOp) {m n : Int64} (hm : m.toInt = a.exact)
    (hn : n.toInt = b.exact) (ha : ∀ s ∈ a.nodes, ¬ s.Faulty)
    (hb : ∀ s ∈ b.nodes, ¬ s.Faulty) (hwu : w.AsBefore u) :
    (binary op a b).Ends w (Operation.lift (op.binary.onInts m n) |>.run u) := by
  have hbefore := List.forall_mem_append.2 ⟨ha, hb⟩
  rw [ArithOp.onInts_eq]
  split
  · rename_i hzero
    obtain ⟨rfl, hzero⟩ := hzero
    rw [hn] at hzero
    exact .fails rfl hbefore (.inl hzero) (.division hzero) hwu
  · rename_i hzero
    have hdefined : ¬ (binary op a b).DividesByZero := by
      rw [hn] at hzero
      cases op with
      | divide => exact fun h => hzero ⟨rfl, h⟩
      | plus | minus | multiply => exact not_false
    rw [hm, hn]
    exact .of_exactly rfl hbefore hdefined (.overflow hdefined hm hn) hwu

end

/-- **Evaluation is exact or fails at the first faulty part.** -/
theorem ends_eval (call : Closure → List Value → Operation Value)
    (scope : ScopeId) (t : Arith) (w : World) :
    t.Ends w ((t.expr.eval call scope).run w) := by
  induction t generalizing w with
  | int n =>
    rw [expr, Expr.eval]
    exact .gives (List.forall_mem_singleton.2 (not_faulty not_false rfl)) rfl
      w.asBefore_addObject
  | neg a iha =>
    have ha := iha w
    rw [expr, Expr.eval]
    cases hrun : (a.expr.eval call scope).run w with
    | done x u =>
      rw [hrun] at ha
      cases ha with
      | @gives id v _ hsound hv hwu =>
        rw [run_bind_of_done hrun]
        have hends : (neg a).Ends w (Operation.lift (exactly
            (.negationOverflow v) (Integer.ofInt? (-a.exact))) |>.run u) :=
          .of_exactly rfl hsound not_false (.negation hv) hwu
        rw [← hv] at hends
        exact hends
    | failed i u =>
      rw [hrun] at ha
      rw [run_bind_of_failed hrun]
      have hnodes : (neg a).nodes = [] ++ a.nodes ++ [neg a] := rfl
      exact ha.fails_of_part (.refl w) hnodes (by simp)
    | exhausted =>
      rw [hrun] at ha
      cases ha
  | binary op a b iha ihb =>
    have ha := iha w
    rw [expr, Expr.eval]
    cases hrun : (a.expr.eval call scope).run w with
    | done x u =>
      rw [hrun] at ha
      cases ha with
      | @gives id m _ hsound hm hwu =>
        rw [run_bind_of_done hrun]
        have hb := ihb u
        cases hrun' : (b.expr.eval call scope).run u with
        | done y u' =>
          rw [hrun'] at hb
          cases hb with
          | @gives id' n _ hsound' hn huu' =>
            rw [run_bind_of_done hrun']
            exact ends_binary op hm hn hsound hsound' (hwu.trans huu')
        | failed i u' =>
          rw [hrun'] at hb
          rw [run_bind_of_failed hrun']
          exact hb.fails_of_part hwu rfl hsound
        | exhausted =>
          rw [hrun'] at hb
          cases hb
    | failed i u =>
      rw [hrun] at ha
      rw [run_bind_of_failed hrun]
      have hnodes : (binary op a b).nodes
          = [] ++ a.nodes ++ (b.nodes ++ [binary op a b]) := by
        simp [nodes]
      exact ha.fails_of_part (.refl w) hnodes (by simp)
    | exhausted =>
      rw [hrun] at ha
      cases ha

/-- **Arithmetic is exact or fails.** An arithmetic expression is evaluated to
an integer exactly if that is its value in the unbounded integers and none of
its parts is faulty: none divides by zero, and none has a value out of range.
Otherwise it fails, with the error of the first part that is faulty, in the order
of evaluation: a division by zero, or else an overflow that tells the values of
the operands. In either case no scope is touched and nothing is written. -/
theorem eval_exact_or_fails (t : Arith) (depth : Nat) (scope : ScopeId)
    (w : World) :
    (∀ v : Int64,
      (∃ id w', (t.expr.eval (Closure.call depth) scope).run w
        = .done (.int id v) w')
      ↔ v.toInt = t.exact ∧ ∀ s ∈ t.nodes, ¬ s.Faulty)
    ∧ ((∀ s ∈ t.nodes, ¬ s.Faulty)
      ∨ ∃ before s after e w', t.nodes = before ++ s :: after
        ∧ (∀ r ∈ before, ¬ r.Faulty) ∧ s.Faulty ∧ s.Reported e
        ∧ (t.expr.eval (Closure.call depth) scope).run w
          = .failed (.failed e) w')
    ∧ ∃ w', ((t.expr.eval (Closure.call depth) scope).run w).world? = some w'
      ∧ w'.scopes = w.scopes ∧ w'.output = w.output := by
  have hends := t.ends_eval (Closure.call depth) scope w
  generalize (t.expr.eval (Closure.call depth) scope).run w = o at hends
  cases hends with
  | @gives id n w' hsound hn hw =>
    refine ⟨fun v => ⟨?_, ?_⟩, .inl hsound, w', rfl, hw.scopes, hw.output⟩
    · rintro ⟨_, _, ⟨⟩⟩
      exact ⟨hn, hsound⟩
    · rintro ⟨hv, -⟩
      rw [Int64.toInt_inj.1 (hv.trans hn.symm)]
      exact ⟨id, w', rfl⟩
  | @fails before after s e w' hnodes hbefore hfaulty hreported hw =>
    refine ⟨fun v => ⟨?_, ?_⟩, .inr ?_, w', rfl, hw.scopes, hw.output⟩
    · rintro ⟨_, _, ⟨⟩⟩
    · rintro ⟨-, hsound⟩
      have hmem : s ∈ t.nodes := by
        rw [hnodes]
        exact List.mem_append_right _ List.mem_cons_self
      exact absurd hfaulty (hsound s hmem)
    · exact ⟨before, s, after, e, w', hnodes, hbefore, hfaulty, hreported, rfl⟩

end Arith

/-- The sum is out of range before the division by zero is reached. -/
example : ((Expr.binary .divide
      (.binary .plus (.int Int64.maxValue) (.int 1)) (.int 0)).eval
        (Closure.call 0) 0).run (World.empty .ascending)
    = .failed (.failed (.overflow Int64.maxValue .plus 1))
      ⟨#[], 2, "", .ascending⟩ := by
  rfl

end Monkey
