import Monkey.Proofs.Confinement
import Monkey.Proofs.Interruption
import Monkey.Proofs.Order

/-!
# Programs without functions

Only calls of functions can go on for ever: everything else follows the tree of
the program, and what operators, indices and builtins do has an answer in every
world (`Eval.Answers`). A program without function literals calls none. A
function would have to come from somewhere, and the scopes that the program runs
in bind only what its own code has made.

So let the code be without function literals, and let a correspondence between a
run and itself say what is come across. Evaluations then *settle*: they have an
answer, the number of scopes stays the same, and no function is come across
(`Correspondence.Settles`). What the calls of functions mean is of no
consequence, since there are none. The same goes for all moments of such an
evaluation (`Moment.Visits.calm`): none of them is a call of a function, and
none of them finds a new scope.
-/

namespace Monkey

open Eval

/-! ## Operations have answers -/

namespace Eval

variable {ε α β : Type}

/-- **The evaluation has an answer**, in every world. -/
def Answers (x : Eval ε α) : Prop :=
  ∀ w, x.run w ≠ .exhausted

theorem answers_done (a : α) : (done a : Eval ε α).Answers := nofun

theorem answers_fail (e : ε) : (fail e : Eval ε α).Answers := nofun

theorem answers_update (f : World → World) :
    (update f : Eval ε Unit).Answers := nofun

theorem answers_make (object : ObjectId → α) :
    (make object : Eval ε α).Answers := nofun

theorem Answers.bind {x : Eval ε α} {f : α → Eval ε β} (hx : x.Answers)
    (hf : ∀ a, (f a).Answers) : (x >>= f).Answers := by
  intro w
  cases hrun : x.run w with
  | done a w' =>
    rw [run_bind_of_done hrun]
    exact hf a w'
  | failed e w' =>
    rw [run_bind_of_failed hrun]
    nofun
  | exhausted => exact absurd hrun (hx w)

end Eval

theorem answers_exactly (e : EvalError) (value : Option Int64) :
    (exactly e value).Answers := by
  cases value with
  | some value => exact answers_make (Value.int · value)
  | none => exact answers_fail e

theorem Value.answers_asKey (v : Value) : v.asKey.Answers := by
  unfold Value.asKey
  split
  · exact answers_done _
  · exact answers_fail _

theorem UnaryOp.answers_apply (op : UnaryOp) (v : Value) :
    (op.apply v).Answers := by
  unfold UnaryOp.apply
  split
  · exact answers_done _
  · exact answers_exactly _ _
  · exact answers_fail _

/-- **Operators have answers.** -/
theorem BinaryOp.answers_apply (op : BinaryOp) (v w : Value) :
    (op.apply v w).Answers := by
  unfold BinaryOp.apply
  split
  · cases op with
    | plus | minus | multiply => exact answers_exactly _ _
    | divide =>
      unfold BinaryOp.onInts
      dsimp only
      split
      · exact answers_fail _
      · exact answers_exactly _ _
    | lessThan | greaterThan | equal | notEqual => exact answers_done _
  · cases op with
    | plus => exact answers_make (Value.str · _)
    | _ => exact answers_fail _
  · cases op with
    | equal | notEqual => exact answers_done _
    | _ =>
      unfold BinaryOp.onObjects
      dsimp only
      split <;> exact answers_fail _

/-- **Indices have answers.** -/
theorem Value.answers_at (v w : Value) : (v.at w).Answers := by
  unfold Value.at
  split
  · exact answers_done _
  · refine (Value.answers_asKey _).bind fun key => ?_
    split <;> exact answers_done _
  · exact answers_fail _

theorem Builtin.answers_elementsOf (b : Builtin) (v : Value) :
    (b.elementsOf v).Answers := by
  unfold Builtin.elementsOf
  split
  · exact answers_done _
  · exact answers_fail _

/-- **Builtins have answers.** -/
theorem Builtin.answers_apply (b : Builtin) (args : List Value) :
    (b.apply args).Answers := by
  unfold Builtin.apply
  split
  · unfold Builtin.lengthOf
    split
    · exact answers_make _
    · exact answers_make _
    · exact answers_fail _
  · exact (Builtin.answers_elementsOf _ _).bind fun _ => answers_done _
  · exact (Builtin.answers_elementsOf _ _).bind fun _ => answers_done _
  · refine (Builtin.answers_elementsOf _ _).bind fun elements => ?_
    split
    · exact answers_done _
    · exact answers_make _
  · exact (Builtin.answers_elementsOf _ _).bind fun _ => answers_make _
  · exact (answers_update _).bind fun _ => answers_done _
  · exact answers_fail _
  · exact answers_fail _

theorem answers_lookup (scope : ScopeId) (name : String) :
    (lookup scope name).Answers := by
  have hask : (Eval.ask (·.get? scope name) :
    Operation (Option Value)).Answers := nofun
  refine hask.bind fun value => ?_
  split
  · exact answers_done _
  · split
    · exact answers_make _
    · exact answers_fail _

/-! ## Evaluations that settle -/

namespace Eval

variable {ε ε' α β : Type} {I : World → Prop} {E : ε → Prop} {F : ε' → Prop}
  {P : α → Prop} {Q : β → Prop}

/-- **The evaluation keeps the invariant and has an answer** where it holds. -/
def Settles (I : World → Prop) (E : ε → Prop) (P : α → Prop) (x : Eval ε α) :
    Prop :=
  x.Keeps I E P ∧ ∀ w, I w → x.run w ≠ .exhausted

theorem settles_done {a : α} (h : P a) : (done a : Eval ε α).Settles I E P :=
  ⟨keeps_done h, fun w _ => answers_done a w⟩

theorem settles_fail {e : ε} (h : E e) : (fail e : Eval ε α).Settles I E P :=
  ⟨keeps_fail h, fun w _ => answers_fail e w⟩

/-- **Evaluations put after each other settle** if each of them does. -/
theorem Settles.bind {x : Eval ε α} {f : α → Eval ε β} (hx : x.Settles I E P)
    (hf : ∀ a, P a → (f a).Settles I E Q) : (x >>= f).Settles I E Q := by
  refine ⟨hx.1.bind fun a ha => (hf a ha).1, fun w hw => ?_⟩
  cases hrun : x.run w with
  | done a w' =>
    obtain ⟨ha, hw'⟩ := hx.1.of_done hrun hw
    rw [run_bind_of_done hrun]
    exact (hf a ha).2 w' hw'
  | failed e w' =>
    rw [run_bind_of_failed hrun]
    nofun
  | exhausted => exact absurd hrun (hx.2 w hw)

theorem Settles.mapError {x : Eval ε α} (h : x.Settles I E P) {f : ε → ε'}
    (hf : ∀ e, E e → F (f e)) : (x.mapError f).Settles I F P := by
  refine ⟨h.1.mapError hf, fun w hw => ?_⟩
  have hanswer := h.2 w hw
  unfold Eval.run Eval.mapError at *
  cases hx : x w with
  | done a w' => nofun
  | failed e w' => nofun
  | exhausted => exact absurd hx hanswer

/-- **What settles is done or fails.** -/
theorem Settles.done_or_failed {x : Eval ε α} (h : x.Settles I E P) {w : World}
    (hw : I w) : ∃ w', I w'
      ∧ ((∃ a, x.run w = .done a w') ∨ ∃ e, x.run w = .failed e w') := by
  have hsat := h.1 w hw
  have hanswer := h.2 w hw
  generalize x.run w = o at hsat hanswer
  cases hsat with
  | done _ hw' => exact ⟨_, hw', .inl ⟨_, rfl⟩⟩
  | failed _ hw' => exact ⟨_, hw', .inr ⟨_, rfl⟩⟩
  | exhausted => exact absurd rfl hanswer

end Eval

namespace Correspondence

variable {C : Correspondence} {n : Nat} {ε α : Type}
  {E : Nat → ε → ε → Prop} {P : Nat → α → α → Prop}

/-- **The world stays as it is**, so far as the correspondence goes: it
corresponds to itself, and `n` scopes have been made. -/
def Stays (C : Correspondence) (n : Nat) (w : World) : Prop :=
  C.Worlds w w ∧ w.scopes.size = n

/-- **The evaluation settles**: it has an answer, which is the same in both
runs, and it makes no scope. -/
abbrev Settles (C : Correspondence) (n : Nat) (E : Nat → ε → ε → Prop)
    (P : Nat → α → α → Prop) (x : Eval ε α) : Prop :=
  Eval.Settles (C.Stays n) (fun e => E n e e) (fun a => P n a a) x

/-- What goes together with itself, touches no scope and has an answer
settles. -/
theorem Together.settles {x : Eval ε α} (h : C.Together n E P x x)
    (hwithin : x.Within World.SameScopes) (hanswers : x.Answers) :
    C.Settles n E P x := by
  refine ⟨?_, fun w _ => hanswers w⟩
  rintro w ⟨hworlds, rfl⟩
  have houtcomes := h w w (Nat.le_refl _) hworlds
  have hsize {w' : World} (hw' : (x.run w).world? = some w') :
      w'.scopes.size = w.scopes.size := congrArg Array.size (hwithin w w' hw')
  generalize x.run w = o at houtcomes hsize
  cases houtcomes with
  | done hP hsteps =>
    rw [hsize rfl] at hP
    exact .done hP ⟨hsteps.worlds, hsize rfl⟩
  | failed hE hsteps =>
    rw [hsize rfl] at hE
    exact .failed hE ⟨hsteps.worlds, hsize rfl⟩
  | exhausted => exact .exhausted

theorem settles_lift {x : Operation α} (h : C.Settles n C.Errors P x) :
    C.Settles n C.Interrupts P x.lift :=
  h.mapError fun _ he => .failed he

theorem settles_catchReturn {x : Evaluation Value}
    (h : C.Settles n C.Interrupts C.Values x) :
    C.Settles n C.Errors C.Values x.catchReturn := by
  have hcatch (w : World) (hw : C.Stays n w) :
      x.catchReturn.run w ≠ .exhausted
        ∧ (x.catchReturn.run w).Satisfies (C.Stays n) (fun e => C.Errors n e e)
          (fun v => C.Values n v v) := by
    have hsat := h.1 w hw
    have hanswer := h.2 w hw
    unfold Eval.run Evaluation.catchReturn at *
    generalize x w = o at hsat hanswer
    cases hsat with
    | done hv hw' => exact ⟨nofun, .done hv hw'⟩
    | failed hi hw' =>
      cases hi with
      | returned hv => exact ⟨nofun, .done hv hw'⟩
      | failed he => exact ⟨nofun, .failed he hw'⟩
    | exhausted => exact absurd rfl hanswer
  exact ⟨fun w hw => (hcatch w hw).2, fun w hw => (hcatch w hw).1⟩

/-! ## Code without functions -/

section

variable (hself : ∀ s, C.rescope s = s)
  (hcode : ∀ params body, ¬ C.code.node (.expr (.fn params body)))
  {call : Closure → List Value → Operation Value} {s : ScopeId}

include hcode in
/-- **No function is come across.** -/
theorem not_values_fn {id : ObjectId} {f : Closure} {w : Value} :
    ¬ C.Values n (.fn id f) w :=
  fun h => hcode _ _ (covers_fn_iff.1 h.2).2.2

include hcode in
/-- **What is called is a builtin**, or it cannot be called. -/
theorem settles_callWith {f : Value} (hf : C.Values n f f) {vs : List Value}
    (hvs : C.Lists n vs vs) :
    C.Settles n C.Errors C.Values (f.callWith call vs) := by
  cases f with
  | fn id closure => exact absurd hf (not_values_fn hcode)
  | builtin id b =>
    exact (hvs.together_builtin b).settles (b.within_apply vs)
      (b.answers_apply vs)
  | _ => exact settles_fail ⟨rfl, nofun⟩

/-- Values that are the same in both runs make a list that is. -/
theorem lists_self {vs : List Value} (h : ∀ v ∈ vs, C.Values n v v) :
    C.Lists n vs vs := by
  induction vs with
  | nil => exact lists_nil
  | cons v vs ih =>
    obtain ⟨hv, hvs⟩ := List.forall_mem_cons.1 h
    exact hv.cons (ih hvs)

/-- **What it is to settle**: evaluations do, and values and tables are the same
in both runs. -/
def settling (C : Correspondence) (n : Nat) : Conduct where
  node := C.code.node
  Values v := C.Values n v v
  Tables t := C.Tables n t t
  Evals P x := Eval.Settles (C.Stays n) (fun i => C.Interrupts n i i) P x

include hself hcode

/-- **Whatever is evaluated settles**, whatever the calls of functions mean. -/
theorem settling_holds (hscope : C.Available n s) :
    (C.settling n).Holds call s where
  operands := Code.operands
  done h := settles_done h
  bind hx hf := Eval.Settles.bind hx hf
  truth := values_truth
  nothing := values_nothing
  tables_nil := tables_nil
  tables_insert key ht hk hv := ht.insert hk hv key
  lookup {name} hname := by
    have htogether := together_lookup (n := n) hscope.1 hname
    rw [hself] at htogether
    exact settles_lift
      (htogether.settles (within_lookup s name) (answers_lookup s name))
  int value := (together_newInt value).settles (within_make _) (answers_make _)
  str text := (together_newStr text).settles (within_make _) (answers_make _)
  fn hnode := absurd hnode (hcode _ _)
  array hvs :=
    (together_newArray (lists_self hvs)).settles (within_make _) (answers_make _)
  hash ht := (together_newHash ht).settles (within_make _) (answers_make _)
  unary {v} op hv := settles_lift ((hv.together_unary op).settles
    (op.within_apply v) (op.answers_apply v))
  binary {v w} op hv hw := settles_lift ((hv.together_binary hw op).settles
    (op.within_apply v w) (op.answers_apply v w))
  key {v} hv := by
    have hkey := settles_lift (hv.together_asKey.settles v.within_asKey
      v.answers_asKey)
    simpa only [Settles, settling, eq_self] using hkey
  index {v w} hv hw := settles_lift ((hv.together_at hw).settles
    (v.within_at w) (v.answers_at w))
  call hf hvs := settles_lift (settles_callWith hcode hf (lists_self hvs))
  set {v name e} _ hv := by
    -- a `let` binds a value that is no function
    refine ⟨?_, nofun⟩
    rintro w ⟨hworlds, rfl⟩
    have hworlds := hworlds.set hscope.1 name hv
    rw [hself] at hworlds
    exact .done trivial ⟨hworlds, w.size_scopes_set s name v⟩
  ret hv := settles_fail (.returned hv)

/-- **Programs settle**, however deeply calls may be nested. -/
theorem settles_program (hscope : C.Available n s) {program : Program}
    (hprogram : ∀ st ∈ program.statements, C.code.node (.stmt st))
    (depth : Nat) : C.Settles n C.Errors C.Values (program.eval depth s) :=
  settles_catchReturn
    ((settling_holds hself hcode hscope).evalStmts values_nothing hprogram)

end

end Correspondence

/-! ## In every moment -/

/-- **What is to be evaluated is code**, and what is given is the same in both
runs. -/
def Job.Calm (C : Correspondence) (n : Nat) : Job → Prop
  | .expr e => C.code.node (.expr e)
  | .exprs es => ∀ e ∈ es, C.code.node (.expr e)
  | .pairs t ps => C.Tables n t t
      ∧ ∀ p ∈ ps, C.code.node (.expr p.1) ∧ C.code.node (.expr p.2)
  | .stmt st => C.code.node (.stmt st)
  | .stmts last ss => C.Values n last last ∧ ∀ st ∈ ss, C.code.node (.stmt st)
  | .call f args => C.Values n f f ∧ ∀ v ∈ args, C.Values n v v

namespace Moment

variable {C : Correspondence} {n : Nat} {m p : Moment}

/-- **The moment is calm**: code is to be evaluated, in a scope that code may
run in, and `n` scopes have been made. -/
structure Calm (C : Correspondence) (n : Nat) (m : Moment) : Prop where
  world : C.Stays n m.world
  scope : C.Available n m.scope
  job : m.job.Calm C n

section

variable (hself : ∀ s, C.rescope s = s)
  (hcode : ∀ params body, ¬ C.code.node (.expr (.fn params body)))

include hself hcode

/-- **The parts of a calm evaluation are calm.** -/
theorem Part.calm (hpart : m.Part p) (hm : m.Calm C n) : p.Calm C n := by
  obtain ⟨hworld, hscope, hjob⟩ := hm
  have hholds {d s} (hs : C.Available n s) :
      (C.settling n).Holds (Closure.call d) s :=
    Correspondence.settling_holds hself hcode hs
  have hexpr {d s e w v w'} (hs : C.Available n s) (he : C.code.node (.expr e))
      (hw : C.Stays n w)
      (hrun : (Expr.eval (Closure.call d) s e).run w = .done v w') :=
    ((hholds hs).expr he).1.of_done hrun hw
  cases hpart with
  | elements =>
    exact ⟨hworld, hscope, Node.allOperands_array.1 (Code.operands hjob)⟩
  | entries =>
    exact ⟨hworld, hscope, Correspondence.tables_nil,
      Node.allOperands_hash.1 (Code.operands hjob)⟩
  | operand =>
    exact ⟨hworld, hscope, Node.allOperands_unary.1 (Code.operands hjob)⟩
  | left =>
    exact ⟨hworld, hscope, (Node.allOperands_binary.1 (Code.operands hjob)).1⟩
  | right hrun =>
    obtain ⟨hleft, hright⟩ := Node.allOperands_binary.1 (Code.operands hjob)
    exact ⟨(hexpr hscope hleft hworld hrun).2, hscope, hright⟩
  | condition =>
    exact ⟨hworld, hscope, (Node.allOperands_cond.1 (Code.operands hjob)).1⟩
  | consequence hrun _ =>
    obtain ⟨hcondition, hss, -⟩ :=
      Node.allOperands_cond.1 (Code.operands hjob)
    exact ⟨(hexpr hscope hcondition hworld hrun).2, hscope,
      Correspondence.values_nothing, hss⟩
  | alternative hrun _ =>
    obtain ⟨hcondition, -, hrs⟩ := Node.allOperands_cond.1 (Code.operands hjob)
    exact ⟨(hexpr hscope hcondition hworld hrun).2, hscope,
      Correspondence.values_nothing, hrs _ rfl⟩
  | callee =>
    exact ⟨hworld, hscope, (Node.allOperands_call.1 (Code.operands hjob)).1⟩
  | arguments hrun =>
    obtain ⟨hcallee, hargs⟩ := Node.allOperands_call.1 (Code.operands hjob)
    exact ⟨(hexpr hscope hcallee hworld hrun).2, hscope, hargs⟩
  | called hrun hrun' =>
    obtain ⟨hcallee, hargs⟩ := Node.allOperands_call.1 (Code.operands hjob)
    obtain ⟨hf, hw⟩ := hexpr hscope hcallee hworld hrun
    obtain ⟨hvs, hw'⟩ := ((hholds hscope).evalExprs hargs).1.of_done hrun' hw
    exact ⟨hw', hscope, hf, hvs⟩
  | collection =>
    exact ⟨hworld, hscope, (Node.allOperands_index.1 (Code.operands hjob)).1⟩
  | position hrun =>
    obtain ⟨hcollection, hposition⟩ :=
      Node.allOperands_index.1 (Code.operands hjob)
    exact ⟨(hexpr hscope hcollection hworld hrun).2, hscope, hposition⟩
  | first => exact ⟨hworld, hscope, (List.forall_mem_cons.1 hjob).1⟩
  | others hrun =>
    obtain ⟨he, hes⟩ := List.forall_mem_cons.1 hjob
    exact ⟨(hexpr hscope he hworld hrun).2, hscope, hes⟩
  | key => exact ⟨hworld, hscope, (List.forall_mem_cons.1 hjob.2).1.1⟩
  | value hrun _ =>
    obtain ⟨⟨hkey, hvalue⟩, -⟩ := List.forall_mem_cons.1 hjob.2
    exact ⟨(hexpr hscope hkey hworld hrun).2, hscope, hvalue⟩
  | furtherPairs hrun _ hrun' =>
    obtain ⟨⟨hkey, hvalue⟩, hps⟩ := List.forall_mem_cons.1 hjob.2
    obtain ⟨hk, hw⟩ := hexpr hscope hkey hworld hrun
    obtain ⟨hv, hw'⟩ := hexpr hscope hvalue hw hrun'
    exact ⟨hw', hscope, hjob.1.insert hk hv _, hps⟩
  | statement => exact ⟨hworld, hscope, (List.forall_mem_cons.1 hjob.2).1⟩
  | furtherStmts hrun =>
    obtain ⟨hst, hss⟩ := List.forall_mem_cons.1 hjob.2
    obtain ⟨hv, hw⟩ := ((hholds hscope).stmt hst).1.of_done hrun hworld
    exact ⟨hw, hscope, hv, hss⟩
  | bound =>
    exact ⟨hworld, hscope, Node.allOperands_bind.1 (Code.operands hjob)⟩
  | returned =>
    exact ⟨hworld, hscope, Node.allOperands_ret.1 (Code.operands hjob)⟩
  | alone =>
    exact ⟨hworld, hscope, Node.allOperands_expr.1 (Code.operands hjob)⟩
  | body => exact absurd hjob.1 (Correspondence.not_values_fn hcode)

/-- **All moments of a calm evaluation are calm.** -/
theorem Visits.calm (hvisits : m.Visits p) (hm : m.Calm C n) : p.Calm C n := by
  induction hvisits with
  | refl => exact hm
  | tail _ hpart ih => exact hpart.calm hself hcode ih

end

/-- A calm moment is no call of a function. -/
theorem Calm.job_ne_call
    (hcode : ∀ params body, ¬ C.code.node (.expr (.fn params body)))
    (hm : m.Calm C n) (id : ObjectId) (f : Closure) (args : List Value) :
    m.job ≠ .call (.fn id f) args := by
  intro hjob
  have hcalm := hm.job
  rw [hjob] at hcalm
  exact Correspondence.not_values_fn hcode hcalm.1

end Moment

/-! ## In a new scope -/

/-- A new scope around which there is none is confined to whatever code. -/
theorem World.confined_new {w w₀ : World} {scope : ScopeId}
    (hnew : w.addScope none = (w₀, scope)) (c : Code) :
    w₀.Confined c scope ∧ scope < w₀.scopes.size := by
  obtain ⟨rfl, rfl⟩ := Prod.mk.inj hnew
  refine ⟨World.Confined.addScope ⟨Nat.le_refl _, ?_, ?_⟩ nofun, ?_⟩
  · intro s o hs ho
    rw [outer?_of_size_le hs] at ho
    cases ho
  · intro s x v hs hv
    rw [getLocal?_of_size_le hs] at hv
    cases hv
  · show w.scopes.size < (w.addScope none).1.scopes.size
    rw [size_addScope]
    exact Nat.lt_succ_self _

/-- **Programs without functions have an answer.** In a new scope, whatever else
there is in the world, a program without function literals is done or fails, in
the same way however deeply calls may be nested, and no scope has been made. At
no moment on the way is a function called or has a scope been made. -/
theorem Program.eval_functionless {program : Program}
    (hprogram : ∀ params body, .expr (.fn params body) ∉ program.nodes)
    {w w₀ : World} {scope : ScopeId} (hnew : w.addScope none = (w₀, scope)) :
    (∃ w', w'.scopes.size = w₀.scopes.size
        ∧ ((∃ v, ∀ depth, (program.eval depth scope).run w₀ = .done v w')
          ∨ ∃ e, ∀ depth, (program.eval depth scope).run w₀ = .failed e w'))
      ∧ ∀ depth m, (Moment.mk (.stmts .nothing program.statements) depth scope
          w₀).Visits m →
        (∀ id f args, m.job ≠ .call (.fn id f) args)
          ∧ m.world.scopes.size = w₀.scopes.size := by
  obtain ⟨hconfined, hlt⟩ := World.confined_new hnew program.code
  have hworld : (program.code.selfCorrespondence scope).Stays w₀.scopes.size
      w₀ := ⟨World.confined_iff.2 hconfined, rfl⟩
  have hscope : (program.code.selfCorrespondence scope).Available
      w₀.scopes.size scope := ⟨Nat.le_refl _, fun _ => hlt⟩
  constructor
  · have hsettles := Correspondence.settles_program (fun _ => rfl) hprogram
      hscope program.stmts_code 0
    have hdepth (depth : Nat) :=
      (program.eval_approximates (Nat.zero_le depth) scope).run_eq
        (hsettles.2 w₀ hworld)
    obtain ⟨w', ⟨-, hsize⟩, ⟨v, hv⟩ | ⟨e, he⟩⟩ := hsettles.done_or_failed hworld
    · exact ⟨w', hsize, .inl ⟨v, fun depth => (hdepth depth).trans hv⟩⟩
    · exact ⟨w', hsize, .inr ⟨e, fun depth => (hdepth depth).trans he⟩⟩
  · intro depth m hvisits
    have hcalm := hvisits.calm (fun _ => rfl) hprogram
      ⟨hworld, hscope, Correspondence.values_nothing, program.stmts_code⟩
    exact ⟨hcalm.job_ne_call hprogram, hcalm.world.2⟩

/-- In `let a = [len("ab"), {"k": first}]; if (a[0]) { a[1]["k"](a)(0) }` a
builtin is taken out of an array and a hash and called, and then a number is;
there is a function in the world, but in another scope. -/
theorem Program.eval_functionless_builtins :
    let a : Expr := .ident "a"
    let program : Program := ⟨[
      .bind "a" (.array [.call (.ident "len") [.str "ab"],
        .hash [(.str "k", .ident "first")]]),
      .expr (.cond (.index a (.int 0)) [.expr (.call (.call
        (.index (.index a (.int 1)) (.str "k")) [a]) [.int 0])] none)]⟩
    let w := ((World.empty .ascending).addScope none).1.set 0 "a"
      (.fn 0 ⟨[], [], 0⟩)
    let w₀ := (w.addScope none).1
    (∀ params body, .expr (.fn params body) ∉ program.nodes)
      ∧ w.addScope none = (w₀, 1)
      ∧ (∃ w', w'.scopes.size = w₀.scopes.size
        ∧ ((∃ v, ∀ depth, (program.eval depth 1).run w₀ = .done v w')
          ∨ ∃ e, ∀ depth, (program.eval depth 1).run w₀ = .failed e w'))
      ∧ ∀ depth m, (Moment.mk (.stmts .nothing program.statements) depth 1
          w₀).Visits m →
        (∀ id f args, m.job ≠ .call (.fn id f) args)
          ∧ m.world.scopes.size = w₀.scopes.size := by
  intro a program w w₀
  have hprogram : ∀ params body, .expr (.fn params body) ∉ program.nodes := by
    intro params body
    simp [a, program, Program.nodes, partsStmts, partsExprs, partsPairs,
      Stmt.parts, Expr.parts]
  have hnew : w.addScope none = (w₀, 1) := rfl
  exact ⟨hprogram, hnew, program.eval_functionless hprogram hnew⟩

end Monkey
