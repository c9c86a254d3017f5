import Monkey.Datum
import Monkey.Proofs.Effect
import Monkey.Proofs.History

/-!
# What comes up in an evaluation

Evaluating an expression evaluates others: its operands, the statements of the
branch that is taken, the body of the function that is called, and so on. Each
of these is a `Moment` of the evaluation: something to be evaluated, in a scope
and a world, with calls nested up to a depth. `Moment.Part` says which moments
an evaluation consists of directly, and when: what comes later is a part only if
what comes before it is done, and in the world that this has left. Nothing is
asked about how the evaluation ends, or that it does.

The values that come up in an evaluation are those that are bound or given at
one of its moments, and the values that expressions and calls come to
(`Moment.Brings`). They all are in the history of the evaluation
(`Moment.exists_history`). So is a value that a host builds from data in the
history of the building (`Datum.recorded_build`).
-/

namespace Monkey

open Eval History

/-- **Something to be evaluated.** -/
inductive Job where
  /-- An expression. -/
  | expr (e : Expr)
  /-- Expressions from left to right. -/
  | exprs (es : List Expr)
  /-- The pairs of a hash that are still to be entered into a table. -/
  | pairs (entries : Table HashKey (Value × Value)) (ps : List (Expr × Expr))
  /-- A statement. -/
  | stmt (s : Stmt)
  /-- The statements of a block that are still to be evaluated, behind one that
  has come to `last`. -/
  | stmts (last : Value) (ss : List Stmt)
  /-- A call of a value. -/
  | call (f : Value) (args : List Value)

/-- The values that are given with what is to be evaluated. -/
def Job.inputs : Job → List Value
  | expr _ | exprs _ | stmt _ => []
  | pairs entries _ => Table.contents entries
  | stmts last _ => [last]
  | call f args => f :: args

/-- **A moment of an evaluation.** -/
structure Moment where
  /-- What is to be evaluated. -/
  job : Job
  /-- How deeply calls may be nested. -/
  depth : Nat
  /-- The scope. -/
  scope : ScopeId
  /-- The world. -/
  world : World

namespace Moment

/-- **The parts of an evaluation**, each in the world in which its turn comes. -/
inductive Part : Moment → Moment → Prop where
  | elements {d s w es} : Part ⟨.expr (.array es), d, s, w⟩ ⟨.exprs es, d, s, w⟩
  | entries {d s w ps} :
      Part ⟨.expr (.hash ps), d, s, w⟩ ⟨.pairs [] ps, d, s, w⟩
  | operand {d s w op e} :
      Part ⟨.expr (.unary op e), d, s, w⟩ ⟨.expr e, d, s, w⟩
  | left {d s w op l r} :
      Part ⟨.expr (.binary op l r), d, s, w⟩ ⟨.expr l, d, s, w⟩
  | right {d s w op l r v w'} :
      (l.eval (Closure.call d) s).run w = .done v w' →
      Part ⟨.expr (.binary op l r), d, s, w⟩ ⟨.expr r, d, s, w'⟩
  | condition {d s w c ss rs?} :
      Part ⟨.expr (.cond c ss rs?), d, s, w⟩ ⟨.expr c, d, s, w⟩
  | consequence {d s w c ss rs? v w'} :
      (c.eval (Closure.call d) s).run w = .done v w' → v.truthy →
      Part ⟨.expr (.cond c ss rs?), d, s, w⟩ ⟨.stmts .nothing ss, d, s, w'⟩
  | alternative {d s w c ss rs v w'} :
      (c.eval (Closure.call d) s).run w = .done v w' → ¬ v.truthy →
      Part ⟨.expr (.cond c ss (some rs)), d, s, w⟩
        ⟨.stmts .nothing rs, d, s, w'⟩
  | callee {d s w f args} :
      Part ⟨.expr (.call f args), d, s, w⟩ ⟨.expr f, d, s, w⟩
  | arguments {d s w f args g w'} :
      (f.eval (Closure.call d) s).run w = .done g w' →
      Part ⟨.expr (.call f args), d, s, w⟩ ⟨.exprs args, d, s, w'⟩
  | called {d s w f args g w' vs w''} :
      (f.eval (Closure.call d) s).run w = .done g w' →
      (evalExprs (Closure.call d) s args).run w' = .done vs w'' →
      Part ⟨.expr (.call f args), d, s, w⟩ ⟨.call g vs, d, s, w''⟩
  | collection {d s w c p} :
      Part ⟨.expr (.index c p), d, s, w⟩ ⟨.expr c, d, s, w⟩
  | position {d s w c p v w'} :
      (c.eval (Closure.call d) s).run w = .done v w' →
      Part ⟨.expr (.index c p), d, s, w⟩ ⟨.expr p, d, s, w'⟩
  | first {d s w e es} :
      Part ⟨.exprs (e :: es), d, s, w⟩ ⟨.expr e, d, s, w⟩
  | others {d s w e es v w'} :
      (e.eval (Closure.call d) s).run w = .done v w' →
      Part ⟨.exprs (e :: es), d, s, w⟩ ⟨.exprs es, d, s, w'⟩
  | key {d s w t k v ps} :
      Part ⟨.pairs t ((k, v) :: ps), d, s, w⟩ ⟨.expr k, d, s, w⟩
  | value {d s w t k v ps key w' hashKey} :
      (k.eval (Closure.call d) s).run w = .done key w' →
      key.key? = some hashKey →
      Part ⟨.pairs t ((k, v) :: ps), d, s, w⟩ ⟨.expr v, d, s, w'⟩
  | furtherPairs {d s w t k v ps key w' hashKey value w''} :
      (k.eval (Closure.call d) s).run w = .done key w' →
      key.key? = some hashKey →
      (v.eval (Closure.call d) s).run w' = .done value w'' →
      Part ⟨.pairs t ((k, v) :: ps), d, s, w⟩
        ⟨.pairs (Table.insert hashKey (key, value) t) ps, d, s, w''⟩
  | statement {d s w last st ss} :
      Part ⟨.stmts last (st :: ss), d, s, w⟩ ⟨.stmt st, d, s, w⟩
  | furtherStmts {d s w last st ss v w'} :
      (st.eval (Closure.call d) s).run w = .done v w' →
      Part ⟨.stmts last (st :: ss), d, s, w⟩ ⟨.stmts v ss, d, s, w'⟩
  | bound {d s w x e} :
      Part ⟨.stmt (.bind x e), d, s, w⟩ ⟨.expr e, d, s, w⟩
  | returned {d s w e} : Part ⟨.stmt (.ret e), d, s, w⟩ ⟨.expr e, d, s, w⟩
  | alone {d s w e} : Part ⟨.stmt (.expr e), d, s, w⟩ ⟨.expr e, d, s, w⟩
  /-- The body of a function, in the scope that is made for the call. -/
  | body {d s w id} {f : Closure} {args scope w'} :
      f.params.length = args.length → (f.enter args).run w = .done scope w' →
      Part ⟨.call (.fn id f) args, d + 1, s, w⟩
        ⟨.stmts .nothing f.body, d, scope, w'⟩

/-- **The moments of an evaluation**: itself, its parts, their parts, and so
on. -/
abbrev Visits : Moment → Moment → Prop := Relation.ReflTransGen Part

/-- **What is evaluated comes to the value**, as an expression or a call. -/
inductive ComesTo : Moment → Value → Prop where
  | expr {d s w e v w'} :
      (e.eval (Closure.call d) s).run w = .done v w' →
      ComesTo ⟨.expr e, d, s, w⟩ v
  | call {d s w f args v w'} :
      (Value.call d f args).run w = .done v w' →
      ComesTo ⟨.call f args, d, s, w⟩ v

/-- **The value shows at the moment**: some scope binds it, it is given with what
is to be evaluated, or what is evaluated comes to it. -/
inductive Shows (m : Moment) (v : Value) : Prop where
  | bound {s : ScopeId} {x : String} :
      m.world.getLocal? s x = some v → Shows m v
  | given : v ∈ m.job.inputs → Shows m v
  | result : m.ComesTo v → Shows m v

/-- **The evaluation brings the value**: it shows at one of its moments. -/
def Brings (m : Moment) (v : Value) : Prop :=
  ∃ m', m.Visits m' ∧ m'.Shows v

/-- What an evaluation brings shows at once, or is brought by a part. -/
theorem brings_iff {m : Moment} {v : Value} :
    m.Brings v ↔ m.Shows v ∨ ∃ p, Part m p ∧ p.Brings v := by
  constructor
  · rintro ⟨m', hvisits, hshows⟩
    obtain rfl | ⟨p, hpart, hvisits⟩ := hvisits.cases_head
    · exact .inl hshows
    · exact .inr ⟨p, hpart, m', hvisits, hshows⟩
  · rintro (hshows | ⟨p, hpart, m', hvisits, hshows⟩)
    · exact ⟨m, .refl, hshows⟩
    · exact ⟨m', .head hpart hvisits, hshows⟩

end Moment

/-! ## What comes up is recorded -/

section

variable {d : Nat} {s : ScopeId} {known : List Value}

/-- **The whole**: what an evaluation brings is recorded if what its parts bring
is, and if what is given is known. -/
theorem Eval.Recorded.whole {ε α : Type} {R : World → Value → Prop}
    {E : List Value → ε → Prop} {P : List Value → α → Prop} {x : Eval ε α}
    {j : Job} (hx : x.Recorded R E P known) (hinputs : j.inputs ⊆ known)
    (hresult : ∀ w v, (Moment.mk j d s w).ComesTo v →
      ∀ h, Ends h E P (x.run w) → v ∈ h.values)
    (hparts : ∀ w p v, (Moment.mk j d s w).Part p → p.Brings v → R w v) :
    x.Recorded (fun w => (Moment.mk j d s w).Brings) E P known := by
  intro h hclosed hknown
  obtain ⟨h', hsteps, hR, hends⟩ := hx h hclosed hknown
  refine ⟨h', hsteps, fun v hv => ?_, hends⟩
  obtain hshows | ⟨p, hpart, hp⟩ := Moment.brings_iff.1 hv
  · cases hshows with
    | bound hbound => exact hsteps.values_subset (hclosed.bound hbound)
    | given hgiven => exact hsteps.values_subset (hknown (hinputs hgiven))
    | result hcomes => exact hresult _ v hcomes h' hends
  · exact hR v (hparts _ p v hpart hp)

/-- The whole, for an expression that is evaluated as `x` says. -/
theorem Eval.Recorded.expr {R : World → Value → Prop} {x : Evaluation Value}
    {e : Expr} (hx : Eval.Recorded R HasReturned Has known x)
    (heval : e.eval (Closure.call d) s = x)
    (hparts : ∀ w p v, (Moment.mk (.expr e) d s w).Part p → p.Brings v →
      R w v) :
    (e.eval (Closure.call d) s).Recorded
      (fun w => (Moment.mk (.expr e) d s w).Brings) HasReturned Has known := by
  rw [← heval] at hx
  refine hx.whole (List.nil_subset _) ?_ hparts
  rintro w v ⟨hrun⟩ h hends
  rw [hrun] at hends
  cases hends with
  | done hv => exact hv

/-- Entering a pair whose parts are known. -/
theorem History.HasTable.insert {t : Table HashKey (Value × Value)}
    (ht : HasTable known t) {k v : Value} (hk : k ∈ known) (hv : v ∈ known)
    (key : HashKey) : HasTable known (Table.insert key (k, v) t) := by
  intro u hu
  obtain ⟨e, he, hu⟩ := List.mem_flatMap.1 hu
  obtain rfl | he := Table.eq_or_mem_of_mem_insert he
  · simp only [List.mem_cons, List.not_mem_nil, or_false] at hu
    obtain rfl | rfl := hu
    · exact hk
    · exact hv
  · exact ht (List.mem_flatMap.2 ⟨e, he, hu⟩)

theorem Value.run_lift_asKey {v : Value} {key : HashKey}
    (h : v.key? = some key) (w : World) :
    v.asKey.lift.run w = .done key w := by
  unfold Value.asKey
  rw [h]
  rfl

end

/-! ### Lists -/

/-- **What a node brings is recorded**, whatever is known. -/
def Node.Recorded (d : Nat) (s : ScopeId) : Node → Prop
  | .expr e => ∀ known, (e.eval (Closure.call d) s).Recorded
    (fun w => (Moment.mk (.expr e) d s w).Brings) HasReturned Has known
  | .stmt st => ∀ known, (st.eval (Closure.call d) s).Recorded
    (fun w => (Moment.mk (.stmt st) d s w).Brings) HasReturned Has known

section

variable {d : Nat} {s : ScopeId}

theorem recorded_evalExprs {es : List Expr}
    (hes : ∀ e ∈ es, (Node.expr e).Recorded d s) (known : List Value) :
    (evalExprs (Closure.call d) s es).Recorded
      (fun w => (Moment.mk (.exprs es) d s w).Brings) HasReturned HasAll
      known := by
  induction es generalizing known with
  | nil =>
    rw [evalExprs]
    exact (recorded_done fun h _ _ => List.nil_subset _).whole
      (List.nil_subset _) (by rintro w v ⟨⟩) (by rintro w p v ⟨⟩)
  | cons e es ih =>
    obtain ⟨he, hes⟩ := List.forall_mem_cons.1 hes
    rw [evalExprs]
    refine ((he known).bind fun v known' _ hv =>
      (ih hes known').bind fun vs known'' hsub hvs =>
        recorded_done fun h _ hknown => List.cons_subset.2
          ⟨hknown (hsub hv), List.Subset.trans hvs hknown⟩).whole
      (List.nil_subset _) (by rintro w v ⟨⟩) ?_
    intro w p v hpart hp
    cases hpart with
    | first => exact .inl hp
    | others hrun => exact .inr ⟨_, _, hrun, .inl hp⟩

theorem recorded_evalPairs {ps : List (Expr × Expr)}
    (hps : ∀ p ∈ ps,
      (Node.expr p.1).Recorded d s ∧ (Node.expr p.2).Recorded d s)
    {known : List Value} {t : Table HashKey (Value × Value)}
    (ht : HasTable known t) :
    (evalPairs (Closure.call d) s t ps).Recorded
      (fun w => (Moment.mk (.pairs t ps) d s w).Brings) HasReturned HasTable
      known := by
  induction ps generalizing known t with
  | nil =>
    have hinputs : (Job.pairs t []).inputs ⊆ known := ht
    have hdone : (done t : Evaluation _).Recorded Nothing HasReturned HasTable
        known := recorded_done fun h _ hknown => List.Subset.trans ht hknown
    rw [evalPairs]
    exact hdone.whole hinputs (by rintro w v ⟨⟩) (by rintro w p v ⟨⟩)
  | cons p ps ih =>
    obtain ⟨key, value⟩ := p
    obtain ⟨⟨hkey, hvalue⟩, hps⟩ := List.forall_mem_cons.1 hps
    have hinputs : (Job.pairs t ((key, value) :: ps)).inputs ⊆ known := ht
    rw [evalPairs]
    refine ((hkey known).bind fun k known₁ hsub₁ hk =>
      (Operation.recorded_lift k.recorded_asKey).bind
        fun hashKey known₂ hsub₂ _ =>
        (hvalue known₂).bind fun v known₃ hsub₃ hv =>
          ih hps (HasTable.insert
            (List.Subset.trans ht (List.Subset.trans hsub₁
              (List.Subset.trans hsub₂ hsub₃)))
            (hsub₃ (hsub₂ hk)) hv hashKey)).whole
      hinputs (by rintro w v ⟨⟩) ?_
    intro w p v hpart hp
    cases hpart with
    | key => exact .inl hp
    | value hrun hkey =>
      exact .inr ⟨_, _, hrun, .inr ⟨_, _, Value.run_lift_asKey hkey _, .inl hp⟩⟩
    | furtherPairs hrun hkey hrun' =>
      exact .inr ⟨_, _, hrun, .inr ⟨_, _, Value.run_lift_asKey hkey _,
        .inr ⟨_, _, hrun', hp⟩⟩⟩

theorem recorded_evalStmts {ss : List Stmt}
    (hss : ∀ st ∈ ss, (Node.stmt st).Recorded d s) {known : List Value}
    {last : Value} (hlast : last ∈ known) :
    (evalStmts (Closure.call d) s last ss).Recorded
      (fun w => (Moment.mk (.stmts last ss) d s w).Brings) HasReturned Has
      known := by
  induction ss generalizing known last with
  | nil =>
    rw [evalStmts]
    exact (recorded_done fun h _ hknown => hknown hlast).whole
      (List.cons_subset.2 ⟨hlast, List.nil_subset _⟩)
      (by rintro w v ⟨⟩) (by rintro w p v ⟨⟩)
  | cons st ss ih =>
    obtain ⟨hst, hss⟩ := List.forall_mem_cons.1 hss
    rw [evalStmts]
    refine ((hst known).bind fun v known' _ hv => ih hss hv).whole
      (List.cons_subset.2 ⟨hlast, List.nil_subset _⟩) (by rintro w v ⟨⟩) ?_
    intro w p v hpart hp
    cases hpart with
    | statement => exact .inl hp
    | furtherStmts hrun => exact .inr ⟨_, _, hrun, hp⟩

/-- A branch of a conditional. -/
theorem recorded_branch {ss : List Stmt}
    (hss : ∀ st ∈ ss, (Node.stmt st).Recorded d s) (known : List Value) :
    (evalStmts (Closure.call d) s .nothing ss).Recorded
      (fun w => (Moment.mk (.stmts .nothing ss) d s w).Brings) HasReturned Has
      known :=
  .of_nothing (recorded_evalStmts hss List.mem_cons_self)

/-! ### Nodes -/

/-- **What an expression brings is recorded** if what its operands bring is. -/
theorem Expr.recorded_eval
    (hcall : ∀ (s : ScopeId) (f : Value) (args known : List Value),
      f :: args ⊆ known → (Value.call d f args).Recorded
        (fun w => (Moment.mk (.call f args) d s w).Brings) Anything Has known)
    {e : Expr} (hops : (Node.expr e).AllOperands (Node.Recorded d s)) :
    (Node.expr e).Recorded d s := by
  intro known
  match e with
  | .ident x =>
    exact (Operation.recorded_lift (recorded_lookup s x)).expr
      (by rw [Expr.eval]) (by rintro w p v ⟨⟩)
  | .int value =>
    exact (recorded_newInt value).expr (by rw [Expr.eval])
      (by rintro w p v ⟨⟩)
  | .str text =>
    exact (recorded_newStr text).expr (by rw [Expr.eval])
      (by rintro w p v ⟨⟩)
  | .bool value =>
    exact (recorded_done fun h hclosed _ => hclosed.truth value).expr
      (by rw [Expr.eval]) (by rintro w p v ⟨⟩)
  | .fn params body =>
    have hmake : (make (.fn · ⟨params, body, s⟩) : Evaluation Value).Recorded
        Nothing HasReturned Has known :=
      recorded_make .function (by decide) (fun _ => rfl) (fun _ => rfl)
        fun _ => List.nil_subset _
    exact hmake.expr (by rw [Expr.eval]) (by rintro w p v ⟨⟩)
  | .array elements =>
    refine ((recorded_evalExprs (Node.allOperands_array.1 hops) known).bind
      fun vs known' _ hvs => recorded_newArray hvs).expr (by rw [Expr.eval]) ?_
    rintro w p v ⟨⟩ hp
    exact .inl hp
  | .hash pairs =>
    refine ((recorded_evalPairs (Node.allOperands_hash.1 hops)
      (List.nil_subset _)).bind fun t known' _ ht => recorded_newHash ht).expr
        (by rw [Expr.eval]) ?_
    rintro w p v ⟨⟩ hp
    exact .inl hp
  | .unary op operand =>
    refine ((Node.allOperands_unary.1 hops known).bind fun v known' _ hv =>
      Operation.recorded_lift (op.recorded_apply v)).expr
        (by rw [Expr.eval]) ?_
    rintro w p v ⟨⟩ hp
    exact .inl hp
  | .binary op left right =>
    obtain ⟨hleft, hright⟩ := Node.allOperands_binary.1 hops
    refine ((hleft known).bind fun v known' _ _ =>
      (hright known').bind fun u known'' _ _ =>
        Operation.recorded_lift (op.recorded_apply v u)).expr
        (by rw [Expr.eval]) ?_
    intro w p v hpart hp
    cases hpart with
    | left => exact .inl hp
    | right hrun => exact .inr ⟨_, _, hrun, .inl hp⟩
  | .cond condition consequence none =>
    obtain ⟨hcondition, hconsequence, -⟩ := Node.allOperands_cond.1 hops
    have hbranch (v : Value) (known' : List Value) :
        (if v.truthy then evalStmts (Closure.call d) s .nothing consequence
          else done .nothing).Recorded
          (fun w u => v.truthy
            ∧ (Moment.mk (.stmts .nothing consequence) d s w).Brings u)
          HasReturned Has known' := by
      split
      · exact (recorded_branch hconsequence known').mono fun w u hu => hu.2
      · rename_i hfalsy
        exact (recorded_done fun h hclosed _ => hclosed.nothing).mono
          fun w u hu => absurd hu.1 hfalsy
    refine ((hcondition known).bind fun v known' _ _ =>
      hbranch v known').expr (by rw [Expr.eval]) ?_
    intro w p v hpart hp
    cases hpart with
    | condition => exact .inl hp
    | consequence hrun htruthy => exact .inr ⟨_, _, hrun, htruthy, hp⟩
  | .cond condition consequence (some alternative) =>
    obtain ⟨hcondition, hconsequence, halternative⟩ :=
      Node.allOperands_cond.1 hops
    have hbranch (v : Value) (known' : List Value) :
        (if v.truthy then evalStmts (Closure.call d) s .nothing consequence
          else evalStmts (Closure.call d) s .nothing alternative).Recorded
          (fun w u => (v.truthy
              ∧ (Moment.mk (.stmts .nothing consequence) d s w).Brings u)
            ∨ (¬ v.truthy
              ∧ (Moment.mk (.stmts .nothing alternative) d s w).Brings u))
          HasReturned Has known' := by
      split
      · rename_i htruthy
        exact (recorded_branch hconsequence known').mono fun w u hu =>
          hu.elim And.right fun h => absurd htruthy h.1
      · rename_i hfalsy
        exact (recorded_branch (halternative alternative rfl) known').mono
          fun w u hu => hu.elim (fun h => absurd h.1 hfalsy) And.right
    refine ((hcondition known).bind fun v known' _ _ =>
      hbranch v known').expr (by rw [Expr.eval]) ?_
    intro w p v hpart hp
    cases hpart with
    | condition => exact .inl hp
    | consequence hrun htruthy =>
      exact .inr ⟨_, _, hrun, .inl ⟨htruthy, hp⟩⟩
    | alternative hrun hfalsy => exact .inr ⟨_, _, hrun, .inr ⟨hfalsy, hp⟩⟩
  | .call callee args =>
    obtain ⟨hcallee, hargs⟩ := Node.allOperands_call.1 hops
    refine ((hcallee known).bind fun f known' _ hf =>
      (recorded_evalExprs hargs known').bind fun vs known'' hsub hvs =>
        Operation.recorded_lift (hcall s f vs known''
          (List.cons_subset.2 ⟨hsub hf, hvs⟩))).expr (by rw [Expr.eval]; rfl) ?_
    intro w p v hpart hp
    cases hpart with
    | callee => exact .inl hp
    | arguments hrun => exact .inr ⟨_, _, hrun, .inl hp⟩
    | called hrun hrun' =>
      exact .inr ⟨_, _, hrun, .inr ⟨_, _, hrun', hp⟩⟩
  | .index collection position =>
    obtain ⟨hcollection, hposition⟩ := Node.allOperands_index.1 hops
    refine ((hcollection known).bind fun v known' _ hv =>
      (hposition known').bind fun u known'' hsub _ =>
        Operation.recorded_lift (Value.recorded_at (hsub hv) u)).expr
        (by rw [Expr.eval]) ?_
    intro w p v hpart hp
    cases hpart with
    | collection => exact .inl hp
    | position hrun => exact .inr ⟨_, _, hrun, .inl hp⟩

/-- **What a statement brings is recorded** if what its operand brings is. -/
theorem Stmt.recorded_eval {st : Stmt}
    (hops : (Node.stmt st).AllOperands (Node.Recorded d s)) :
    (Node.stmt st).Recorded d s := by
  intro known
  match st with
  | .bind x e =>
    have hset (v : Value) (known' : List Value) (hv : v ∈ known') :
        (Eval.update (·.set s x v) : Evaluation Unit).Recorded Nothing
          HasReturned Anything known' :=
      recorded_update fun h hknown => ⟨_, .single (.bind (hknown hv)), rfl⟩
    rw [Stmt.eval]
    refine ((Node.allOperands_bind.1 hops known).bind fun v known' _ hv =>
      (hset v known' hv).andThen fun _ known'' _ _ =>
        recorded_done fun h hclosed _ => hclosed.nothing).whole
      (List.nil_subset _) (by rintro w v ⟨⟩) ?_
    rintro w p v ⟨⟩ hp
    exact .inl hp
  | .ret e =>
    have hreturn (v : Value) (known' : List Value) (hv : v ∈ known') :
        (fail (.returned v) : Evaluation Value).Recorded Nothing HasReturned Has
          known' :=
      recorded_fail fun h _ hknown => hknown hv
    rw [Stmt.eval]
    refine ((Node.allOperands_ret.1 hops known).bind fun v known' _ hv =>
      hreturn v known' hv).whole
      (List.nil_subset _) (by rintro w v ⟨⟩) ?_
    rintro w p v ⟨⟩ hp
    exact .inl hp
  | .expr e =>
    rw [Stmt.eval]
    refine (Node.allOperands_expr.1 hops known).whole (List.nil_subset _)
      (by rintro w v ⟨⟩) ?_
    rintro w p v ⟨⟩ hp
    exact hp

/-- **What a node brings is recorded** if what calls bring is. -/
theorem Node.recorded
    (hcall : ∀ (s : ScopeId) (f : Value) (args known : List Value),
      f :: args ⊆ known → (Value.call d f args).Recorded
        (fun w => (Moment.mk (.call f args) d s w).Brings) Anything Has known)
    (n : Node) : n.Recorded d s := by
  induction n using Node.inductionOnChildren with
  | h n ih =>
    have hops : n.AllOperands (Node.Recorded d s) := fun m hm =>
      ih m (Node.mem_children_of_mem_operands hm)
    cases n with
    | expr e => exact Expr.recorded_eval hcall hops
    | stmt st => exact Stmt.recorded_eval hops

end

/-! ## Calls -/

/-- **Entering a function** makes a scope and binds the parameters in it. -/
theorem Closure.recorded_enter (f : Closure) {args known : List Value}
    (hargs : args ⊆ known) :
    (f.enter args).Recorded Nothing Anything Anything known := by
  have hparams (s : ScopeId) (ps : List String) (vs : List Value)
      (h : History) (hvs : vs ⊆ h.values) :
      Steps h ⟨bindParams h.world s ps vs, h.values⟩ := by
    induction ps generalizing vs h with
    | nil => exact .refl
    | cons p ps ih =>
      cases vs with
      | nil => exact .refl
      | cons v vs =>
        obtain ⟨hv, hvs⟩ := List.cons_subset.1 hvs
        exact .head (.bind hv) (ih vs ⟨h.world.set s p v, h.values⟩ hvs)
  refine recorded_step fun h hknown => ?_
  refine ⟨_, .head .scope (hparams h.world.scopes.size f.params args
    ⟨(h.world.addScope (some f.scope)).1, h.values⟩
    (List.Subset.trans hargs hknown)), rfl, trivial⟩

/-- The whole, for a call. -/
theorem Eval.Recorded.call {d : Nat} {s : ScopeId} {f : Value}
    {args known : List Value} {R : World → Value → Prop}
    (hx : (Value.call d f args).Recorded R Anything Has known)
    (hinputs : f :: args ⊆ known)
    (hparts : ∀ w p v, (Moment.mk (.call f args) d s w).Part p → p.Brings v →
      R w v) :
    (Value.call d f args).Recorded
      (fun w => (Moment.mk (.call f args) d s w).Brings) Anything Has
      known := by
  refine hx.whole hinputs ?_ hparts
  intro w v hcomes h hends
  cases hcomes with
  | call hrun =>
    rw [hrun] at hends
    cases hends with
    | done hv => exact hv

/-- What a call brings is recorded if what calls of functions bring is. -/
theorem Value.recorded_callWith {d : Nat} {s : ScopeId}
    {args known : List Value} (f : Value) (hinputs : f :: args ⊆ known)
    (hfn : ∀ id c, f = .fn id c → (Value.call d (.fn id c) args).Recorded
      (fun w => (Moment.mk (.call (.fn id c) args) d s w).Brings) Anything Has
      known) :
    (Value.call d f args).Recorded
      (fun w => (Moment.mk (.call f args) d s w).Brings) Anything Has
      known := by
  cases f with
  | fn id c => exact hfn id c rfl
  | builtin id b =>
    have happly := b.recorded_apply (List.cons_subset.1 hinputs).2
    exact Eval.Recorded.call happly hinputs (by rintro w p v ⟨⟩)
  | _ =>
    exact Eval.Recorded.call (recorded_fail fun _ _ _ => trivial) hinputs
      (by rintro w p v ⟨⟩)

/-- **What a call brings is recorded**, however deeply calls are nested. -/
theorem Value.recorded_call (d : Nat) (s : ScopeId) (f : Value)
    (args known : List Value) (hinputs : f :: args ⊆ known) :
    (Value.call d f args).Recorded
      (fun w => (Moment.mk (.call f args) d s w).Brings) Anything Has
      known := by
  induction d generalizing s f args known with
  | zero =>
    refine f.recorded_callWith hinputs ?_
    rintro id c rfl
    exact Eval.Recorded.call recorded_exhaust hinputs (by rintro w p v ⟨⟩)
  | succ d ih =>
    refine f.recorded_callWith hinputs ?_
    rintro id c rfl
    by_cases hlength : c.params.length = args.length
    · have hbody : (Value.call (d + 1) (.fn id c) args).Recorded
          (fun w v => Nothing w v ∨ ∃ scope w', (c.enter args).run w
            = .done scope w'
            ∧ (Moment.mk (.stmts .nothing c.body) d scope w').Brings v)
          Anything Has known := by
        show (Closure.call (d + 1) c args).Recorded _ _ _ _
        rw [Closure.call, Closure.enterAndRun, if_pos hlength]
        refine (c.recorded_enter (List.cons_subset.1 hinputs).2).bind
          fun scope known' _ _ => Evaluation.recorded_catchReturn ?_
        exact recorded_branch (fun st _ => Node.recorded ih (.stmt st)) known'
      refine hbody.call hinputs ?_
      intro w p v hpart hp
      cases hpart with
      | body _ henter => exact .inr ⟨_, _, henter, hp⟩
    · have hfail : (Value.call (d + 1) (.fn id c) args).Recorded Nothing
          Anything Has known := by
        show (Closure.call (d + 1) c args).Recorded _ _ _ _
        rw [Closure.call, Closure.enterAndRun, if_neg hlength]
        exact recorded_fail fun _ _ _ => trivial
      refine hfail.call hinputs ?_
      intro w p v hpart _
      cases hpart with
      | body hlength' => exact absurd hlength' hlength

/-- **What a call does to the world it does in steps.** -/
theorem Value.exists_steps_call {d : Nat} {f : Value} {args : List Value}
    {w w' : World} (h : ((Value.call d f args).run w).world? = some w') :
    ∃ k k', Steps k k' ∧ k.world = w ∧ k'.world = w' := by
  obtain ⟨k, hclosed, rfl, hknown⟩ := w.exists_closed (f :: args)
  obtain ⟨k', hsteps, -, hends⟩ :=
    Value.recorded_call d 0 f args k.values hknown k hclosed (List.Subset.refl _)
  refine ⟨k, k', hsteps, rfl, ?_⟩
  generalize (Value.call d f args).run k.world = o at h hends
  cases hends <;> cases h <;> rfl

/-! ## Histories of evaluations -/

/-- **All that an evaluation brings is in its history.** -/
theorem Moment.exists_history (m : Moment) {h : History} (hclosed : h.Closed)
    (hworld : m.world = h.world) (hinputs : m.job.inputs ⊆ h.values) :
    ∃ h', Steps h h' ∧ ∀ v, m.Brings v → v ∈ h'.values := by
  obtain ⟨job, d, s, w⟩ := m
  obtain rfl : w = h.world := hworld
  have hcall := Value.recorded_call d
  have hnode (n : Node) : n.Recorded d s := n.recorded hcall
  have hrefl : h.values ⊆ h.values := List.Subset.refl _
  cases job with
  | expr e =>
    obtain ⟨h', hsteps, hbrings, -⟩ :=
      hnode (.expr e) h.values h hclosed hrefl
    exact ⟨h', hsteps, hbrings⟩
  | exprs es =>
    obtain ⟨h', hsteps, hbrings, -⟩ :=
      recorded_evalExprs (fun e (_ : e ∈ es) => hnode (.expr e)) h.values h
        hclosed hrefl
    exact ⟨h', hsteps, hbrings⟩
  | pairs t ps =>
    obtain ⟨h', hsteps, hbrings, -⟩ :=
      recorded_evalPairs (fun p (_ : p ∈ ps) =>
        ⟨hnode (.expr p.1), hnode (.expr p.2)⟩) hinputs h hclosed hrefl
    exact ⟨h', hsteps, hbrings⟩
  | stmt st =>
    obtain ⟨h', hsteps, hbrings, -⟩ :=
      hnode (.stmt st) h.values h hclosed hrefl
    exact ⟨h', hsteps, hbrings⟩
  | stmts last ss =>
    obtain ⟨h', hsteps, hbrings, -⟩ :=
      recorded_evalStmts (fun st (_ : st ∈ ss) => hnode (.stmt st))
        (hinputs List.mem_cons_self) h hclosed hrefl
    exact ⟨h', hsteps, hbrings⟩
  | call f args =>
    obtain ⟨h', hsteps, hbrings, -⟩ :=
      hcall s f args h.values hinputs h hclosed hrefl
    exact ⟨h', hsteps, hbrings⟩

/-- **Evaluating a program goes on with the history**: what it brings and what
it comes to is there at its end. -/
theorem Program.exists_history (program : Program) (depth : Nat)
    (scope : ScopeId) {h : History} (hclosed : h.Closed) :
    ∃ h', Steps h h'
      ∧ (∀ v, (Moment.mk (.stmts .nothing program.statements) depth scope
        h.world).Brings v → v ∈ h'.values)
      ∧ h'.Ends Anything Has ((program.eval depth scope).run h.world) := by
  have hnode (n : Node) : n.Recorded depth scope :=
    n.recorded (Value.recorded_call depth)
  exact Evaluation.recorded_catchReturn (recorded_branch
    (fun st (_ : st ∈ program.statements) => hnode (.stmt st)) h.values) h
    hclosed (List.Subset.refl _)

/-! ## Values built from data -/

section

variable {depth : Nat} {scope : ScopeId} {known : List Value}

theorem recorded_evalSource (text : String) :
    (evalSource depth scope text).Recorded Nothing Anything Has known := by
  unfold evalSource
  split
  · rename_i program _
    refine Recorded.mapError (E := Anything) ?_ fun _ _ _ => trivial
    intro h hclosed _
    obtain ⟨h', hsteps, -, hends⟩ :=
      program.exists_history depth scope hclosed
    exact ⟨h', hsteps, fun v hv => hv.elim, hends⟩
  · exact recorded_fail fun _ _ _ => trivial

mutual

/-- **Building a value from data is recorded**: a truth value or null is the
shared one, and everything else is made. -/
theorem Datum.recorded_build (d : Datum) (known : List Value) :
    (d.build depth scope).Recorded Nothing Anything Has known := by
  match d with
  | .int value =>
    rw [Datum.build]
    exact recorded_newInt value
  | .bool value =>
    rw [Datum.build]
    exact recorded_done fun _ hclosed _ => hclosed.truth value
  | .str text =>
    rw [Datum.build]
    exact recorded_newStr text
  | .null =>
    rw [Datum.build]
    exact recorded_done fun _ hclosed _ => hclosed.nothing
  | .array elements =>
    rw [Datum.build]
    exact (recorded_buildAll elements known).andThen
      fun vs known' _ hvs => recorded_newArray hvs
  | .hash pairs =>
    rw [Datum.build]
    have hnil : HasTable known [] := List.nil_subset _
    exact (recorded_buildPairs pairs hnil).andThen
      fun entries known' _ hentries => recorded_newHash hentries
  | .builtin name =>
    rw [Datum.build]
    split
    · exact recorded_make .builtin (by decide) (fun _ => rfl) (fun _ => rfl)
        fun _ => List.nil_subset _
    · exact recorded_fail fun _ _ _ => trivial
  | .source text =>
    rw [Datum.build]
    exact recorded_evalSource text

theorem recorded_buildAll (ds : List Datum) (known : List Value) :
    (buildAll depth scope ds).Recorded Nothing Anything HasAll known := by
  match ds with
  | [] =>
    rw [buildAll]
    exact recorded_done fun _ _ _ => List.nil_subset _
  | d :: ds =>
    rw [buildAll]
    exact (d.recorded_build known).andThen fun v known' _ hv =>
      (recorded_buildAll ds known').andThen fun vs known'' hsub hvs =>
        recorded_done fun h _ hknown => List.cons_subset.2
          ⟨hknown (hsub hv), List.Subset.trans hvs hknown⟩

theorem recorded_buildPairs (ps : List (Datum × Datum)) {known : List Value}
    {t : Table HashKey (Value × Value)} (ht : HasTable known t) :
    (buildPairs depth scope t ps).Recorded Nothing Anything HasTable known := by
  match ps with
  | [] =>
    rw [buildPairs]
    exact recorded_done fun _ _ hknown => List.Subset.trans ht hknown
  | (key, value) :: ps =>
    rw [buildPairs]
    refine (key.recorded_build known).andThen fun k known₁ hsub₁ hk => ?_
    refine (k.recorded_asKey.mapError (F := Anything) fun _ _ _ =>
      trivial).andThen fun hashKey known₂ hsub₂ _ => ?_
    refine (value.recorded_build known₂).andThen fun v known₃ hsub₃ hv => ?_
    have hsub : known ⊆ known₃ :=
      List.Subset.trans hsub₁ (List.Subset.trans hsub₂ hsub₃)
    exact recorded_buildPairs ps (HasTable.insert (List.Subset.trans ht hsub)
      (hsub₃ (hsub₂ hk)) hv hashKey)

end

end

end Monkey
