import Monkey.Proofs.Moment
import Monkey.Proofs.Naming
import Monkey.Value.Equality

/-!
# What `==` says about two values

Two integers are compared by number, two strings not at all, and everything else
by identity. So `==` answers no more than whether its operands are one object.
Nothing in `BinaryOp.apply` keeps it from calling two values the same that are
not, or from telling apart two truth values that are both `true`. That it does
neither is because no identity is ever handed out twice, and because a truth
value or null that comes up is one of the three shared ones.

Both are facts about histories, and a history goes on through whatever is
evaluated (`Moment.exists_history`). So they hold of all values that an
evaluation meets (`Moment.Meets`), and for these `Moment.compared_soundly` says
what `==` and `!=` answer, and how the answer is related to having the same
contents.
-/

namespace Monkey

open Eval History

/-! ## Having the same contents -/

mutual

/-- **A value has the same contents as itself.** -/
@[simp] theorem Value.equal_self (v : Value) : v.equal v = true := by
  match v with
  | .int _ _ | .bool _ _ | .str _ _ | .fn _ _ | .builtin _ _ =>
    exact beq_self_eq_true _
  | .null _ => rfl
  | .array _ elements => exact equalValues_self elements
  | .hash _ entries => exact equalEntries_self entries

theorem equalValues_self (vs : List Value) : equalValues vs vs = true := by
  match vs with
  | [] => rfl
  | v :: vs =>
    rw [equalValues, v.equal_self, equalValues_self vs, Bool.and_self]

theorem equalEntries_self (es : List (HashKey × Value × Value)) :
    equalEntries es es = true := by
  match es with
  | [] => rfl
  | (k, key, value) :: es =>
    rw [equalEntries, beq_self_eq_true, key.equal_self, value.equal_self,
      equalEntries_self es]
    rfl

end

/-! ## The answer -/

namespace Value

variable {a b : Value}

theorem same_comm (a b : Value) : a.same b = b.same a := by
  have hids : a.identical b = b.identical a := Bool.beq_comm
  cases a <;> cases b <;> first | exact hids | exact Bool.beq_comm

/-- Values with the same contents have the same type. -/
theorem type_eq_of_equal (h : a.equal b = true) : a.type = b.type := by
  cases a <;> cases b <;> first | rfl | cases h

/-- **The answer is right** if the two are told apart by their identities. -/
theorem equal_of_same (hunique : a.identity = b.identity → a = b)
    (h : a.same b = true) : a.equal b = true := by
  have hids (hsame : a.same b = a.identical b) : a.equal b = true := by
    have hab : a = b := hunique (eq_of_beq (hsame.symm.trans h))
    rw [hab, equal_self]
  cases a <;> cases b <;> first | exact h | exact hids rfl

/-- Shared values with the same contents are the same. -/
theorem eq_of_equal_of_mem_shared (ha : a ∈ shared) (hb : b ∈ shared)
    (h : a.equal b = true) : a = b := by
  simp only [shared, List.mem_cons, List.not_mem_nil, or_false] at ha hb
  obtain rfl | rfl | rfl := ha <;> obtain rfl | rfl | rfl := hb <;>
    first | rfl | cases h

/-- **Nothing is missed** among integers, and among truth values and null if
they are shared. -/
theorem same_of_equal (ha : a.type ∈ ValueType.shared → a ∈ shared)
    (hb : b.type ∈ ValueType.shared → b ∈ shared)
    (htype : a.type ∈ [.integer, .boolean, .null]) (h : a.equal b = true) :
    a.same b = true := by
  obtain hint | hshared := List.mem_cons.1 htype
  · cases a <;> cases hint
    cases b <;> first | exact h | cases h
  · have hb := hb (type_eq_of_equal h ▸ hshared)
    rw [eq_of_equal_of_mem_shared (ha hshared) hb h, same_self]

end Value

/-- Two strings cannot be compared. -/
theorem BinaryOp.run_compare_strings {a b : Value} (ha : a.type = .string)
    (hb : b.type = .string) {op : BinaryOp} (hop : op ≠ .plus) (w : World) :
    (op.apply a b).run w = .failed (.unknownBinary .string op .string) w := by
  cases a <;> cases ha
  cases b <;> cases hb
  cases op <;> first | rfl | exact absurd rfl hop

/-! ## In every evaluation -/

/-- **The evaluation meets the value**: it has been when the evaluation starts
or is brought by it, or is held by such a value. -/
def Moment.Meets (m : Moment) (h : History) (v : Value) : Prop :=
  ∃ u, (u ∈ h.values ∨ m.Brings u) ∧ u.Holds v

/-- **Comparison is sound.** Let there be a history from the start, and an
evaluation that begins where it ends. (The values to begin with may have been
built from data, since building goes on with the history.) A truth value or null
that the evaluation meets is one of the three that are shared, and the values
that it meets are told by their identities. Of any two of them, `==` and `!=`
fail if both are strings. Otherwise they answer, and their answers are opposite;
the answer does not depend on the order of the two; it is `false` if their types
differ; if it is `true`, the two have the same contents, and among integers,
truth values and null the converse is so as well. -/
theorem Moment.compared_soundly {order : Arrangement} {h : History}
    (hsteps : Steps (start order) h) {m : Moment} (hworld : m.world = h.world)
    (hinputs : m.job.inputs ⊆ h.values) {a b : Value} (ha : m.Meets h a)
    (hb : m.Meets h b) (w : World) :
    (∀ (d : Datum) depth scope, ∃ k, Steps h k
        ∧ k.Ends Anything Has ((d.build depth scope).run h.world))
      ∧ (a.type = .boolean ∨ a.type = .null →
        a ∈ [Value.nothing, .truth true, .truth false])
      ∧ (a.identical b = true ↔ a = b)
      ∧ ((a.type = .string ∧ b.type = .string)
          ∧ (∀ op ∈ [BinaryOp.equal, .notEqual],
            (op.apply a b).run w
              = .failed (.unknownBinary .string op .string) w)
        ∨ ¬ (a.type = .string ∧ b.type = .string)
          ∧ ∃ r, (BinaryOp.equal.apply a b).run w = .done (.truth r) w
            ∧ (BinaryOp.notEqual.apply a b).run w = .done (.truth (!r)) w
            ∧ (BinaryOp.equal.apply b a).run w = .done (.truth r) w
            ∧ (a.type ≠ b.type → r = false)
            ∧ (r = true → a.equal b = true)
            ∧ (a.type = b.type → a.type ∈ [.integer, .boolean, .null] →
              (r = true ↔ a.equal b = true))) := by
  -- both values are in the history that the evaluation goes on to
  obtain ⟨h', hsteps', hbrings⟩ :=
    m.exists_history (hsteps.closed closed_start) hworld hinputs
  have hall : Steps (start order) h' := hsteps.trans hsteps'
  have hmet {v : Value} (hv : m.Meets h v) : v ∈ h'.values := by
    obtain ⟨u, hu, hholds⟩ := hv
    refine (hall.closed closed_start).holds ?_ hholds
    exact hu.elim (fun hu => hsteps'.values_subset hu) (hbrings u)
  have hshared {v : Value} (hv : m.Meets h v) :
      v.type ∈ ValueType.shared → v ∈ Value.shared :=
    hall.shared (hmet hv)
  have hunique : a.identity = b.identity → a = b :=
    hall.coherent.unique (hmet ha) (hmet hb)
  refine ⟨?_, ?_, ?_, ?_⟩
  · intro d depth scope
    obtain ⟨k, hk, -, hends⟩ := d.recorded_build h.values h
      (hsteps.closed closed_start) (List.Subset.refl _)
    exact ⟨k, hk, hends⟩
  · intro htype
    exact hshared ha (by simpa [ValueType.shared] using htype)
  · refine ⟨fun hab => hunique (eq_of_beq hab), fun hab => ?_⟩
    rw [hab]
    exact beq_self_eq_true _
  by_cases hstr : a.type = .string ∧ b.type = .string
  · refine .inl ⟨hstr, fun op hop => ?_⟩
    refine BinaryOp.run_compare_strings hstr.1 hstr.2 ?_ w
    rintro rfl
    simp at hop
  · have hequal := Value.equal_of_same hunique
    obtain ⟨hrun, hrun'⟩ := BinaryOp.run_compare hstr w
    obtain ⟨hswapped, -⟩ := BinaryOp.run_compare (fun h => hstr h.symm) w
    rw [b.same_comm a] at hswapped
    refine .inr ⟨hstr, a.same b, hrun, hrun', hswapped, ?_, hequal, ?_⟩
    · intro htype
      rw [← Bool.not_eq_true]
      exact fun hsame => htype (Value.type_eq_of_equal (hequal hsame))
    · intro _ htype
      exact ⟨hequal, Value.same_of_equal (hshared ha) (hshared hb) htype⟩

/-- The elements of `[!false, 1 == 1]`: whichever way `true` is come to, it is
the same. -/
theorem Moment.compared_soundly_truths :
    let w := World.empty .ascending
    let m : Moment := ⟨.expr (.array
      [.unary .bang (.bool false), .binary .equal (.int 1) (.int 1)]), 0, 0, w⟩
    m.Meets (start .ascending) (.truth true)
      ∧ ∃ r, (BinaryOp.equal.apply (.truth true) (.truth true)).run w
          = .done (.truth r) w
        ∧ (r = true ↔ (Value.truth true).equal (.truth true) = true) := by
  intro w m
  have hcomes : m.ComesTo (.array 2 [.truth true, .truth true]) := .expr rfl
  have hmeets : m.Meets (start .ascending) (.truth true) :=
    ⟨_, .inr ⟨m, .refl, .result hcomes⟩, .element List.mem_cons_self .self⟩
  obtain ⟨-, -, -, ⟨⟨hstr, -⟩, -⟩ | ⟨-, r, hr, -, -, -, -, hiff⟩⟩ :=
    Moment.compared_soundly .refl rfl (List.nil_subset _) hmeets hmeets w
  · cases hstr
  · exact ⟨hmeets, r, hr, hiff rfl (by decide)⟩

/-- The operator does not see to this: a `true` that had been made would not be
`==` to the shared one. -/
example (id : ObjectId) (w : World) :
    (BinaryOp.equal.apply (.bool (.object id) true) (.truth true)).run w
      = .done (.truth false) w := rfl

end Monkey
