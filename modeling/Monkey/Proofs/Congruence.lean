import Monkey.Eval.Program
import Monkey.Proofs.Occurrence

/-!
# From operations to evaluations

Evaluation is put together from operations: on values, on scopes, and calls. So
what is shown of evaluations is shown of these first, and of putting one
evaluation after another. The way from there to expressions and statements is
always the same induction over the tree, and it is gone here for all.

It is gone for two evaluations of the same code at a time, which may differ in
the scope and in what calls mean. A `Congruence` says when they are alike, and
when values, lists and tables are. What is alike may depend on how far the
evaluations have come, which is their *stage*.

If the operations are alike (`Congruence.Holds`), evaluations are
(`Congruence.Holds.at_node`). Where one evaluation is of interest and not two, a
`Conduct` says what is required of it, and it is the same: if the operations
conduct themselves, evaluations do.
-/

namespace Monkey

open Eval

/-- **A way to compare two evaluations.** -/
structure Congruence where
  /-- How far the evaluations have come. -/
  Stage : Type
  /-- Whether a stage can come after another. -/
  Leads : Stage → Stage → Prop
  /-- The nodes that may be evaluated. -/
  node : Node → Prop
  /-- The values are alike. -/
  Values : Stage → Value → Value → Prop
  /-- The lists are alike. -/
  Lists : Stage → List Value → List Value → Prop
  /-- The tables are alike. -/
  Tables : Stage → Table HashKey (Value × Value) →
    Table HashKey (Value × Value) → Prop
  /-- The evaluations are alike from a stage on, and so are their results in a
  given sense. -/
  Evals : {α : Type} → Stage → (Stage → α → α → Prop) → Evaluation α →
    Evaluation α → Prop

namespace Congruence

/-- **Operations are alike**, where functions are called by `call` and `call'`
and names are looked up in `s` and `s'`. -/
structure Holds (K : Congruence)
    (call call' : Closure → List Value → Operation Value) (s s' : ScopeId) :
    Prop where
  /-- The operands of what may be evaluated may be evaluated. -/
  operands : ∀ {n}, K.node n → n.AllOperands K.node
  values_mono : ∀ {i j v w}, K.Leads i j → K.Values i v w → K.Values j v w
  lists_mono : ∀ {i j vs ws}, K.Leads i j → K.Lists i vs ws → K.Lists j vs ws
  tables_mono : ∀ {i j t u}, K.Leads i j → K.Tables i t u → K.Tables j t u
  done : ∀ {α : Type} {i} {P : K.Stage → α → α → Prop} {a b : α},
    (∀ j, K.Leads i j → P j a b) → K.Evals i P (.done a) (.done b)
  /-- Evaluations put after each other are alike as their parts are. -/
  bind : ∀ {α β : Type} {i} {P : K.Stage → α → α → Prop}
    {Q : K.Stage → β → β → Prop} {x y : Evaluation α} {f g : α → Evaluation β},
    K.Evals i P x y →
    (∀ j a b, K.Leads i j → P j a b → K.Evals j Q (f a) (g b)) →
    K.Evals i Q (x >>= f) (y >>= g)
  truth : ∀ {i} b, K.Values i (.truth b) (.truth b)
  nothing : ∀ {i}, K.Values i .nothing .nothing
  truthy : ∀ {i v w}, K.Values i v w → w.truthy = v.truthy
  lists_nil : ∀ {i}, K.Lists i [] []
  lists_cons : ∀ {i v w vs ws}, K.Values i v w → K.Lists i vs ws →
    K.Lists i (v :: vs) (w :: ws)
  tables_nil : ∀ {i}, K.Tables i [] []
  tables_insert : ∀ {i t u k k' v v'} (key : HashKey), K.Tables i t u →
    K.Values i k k' → K.Values i v v' →
    K.Tables i (Table.insert key (k, v) t) (Table.insert key (k', v') u)
  lookup : ∀ {i name}, K.node (.expr (.ident name)) →
    K.Evals i K.Values (lookup s name).lift (lookup s' name).lift
  int : ∀ {i} value, K.Evals i K.Values (.newInt value) (.newInt value)
  str : ∀ {i} text, K.Evals i K.Values (.newStr text) (.newStr text)
  fn : ∀ {i params body}, K.node (.expr (.fn params body)) →
    K.Evals i K.Values (.make (.fn · ⟨params, body, s⟩))
      (.make (.fn · ⟨params, body, s'⟩))
  array : ∀ {i vs ws}, K.Lists i vs ws →
    K.Evals i K.Values (.newArray vs) (.newArray ws)
  hash : ∀ {i t u}, K.Tables i t u →
    K.Evals i K.Values (.newHash t) (.newHash u)
  unary : ∀ {i v w} (op : UnaryOp), K.Values i v w →
    K.Evals i K.Values (op.apply v).lift (op.apply w).lift
  binary : ∀ {i v v' w w'} (op : BinaryOp), K.Values i v v' → K.Values i w w' →
    K.Evals i K.Values (op.apply v w).lift (op.apply v' w').lift
  key : ∀ {i v w}, K.Values i v w →
    K.Evals i (fun _ => Eq) v.asKey.lift w.asKey.lift
  index : ∀ {i v v' w w'}, K.Values i v v' → K.Values i w w' →
    K.Evals i K.Values (v.at w).lift (v'.at w').lift
  call : ∀ {i f g vs ws}, K.Values i f g → K.Lists i vs ws →
    K.Evals i K.Values (f.callWith call vs).lift (g.callWith call' ws).lift
  /-- Binding the target of a `let`. -/
  set : ∀ {i v w name e}, K.node (.stmt (.bind name e)) → K.Values i v w →
    K.Evals i (fun _ _ _ => True) (.update (·.set s name v))
      (.update (·.set s' name w))
  ret : ∀ {i v w}, K.Values i v w →
    K.Evals i K.Values (.fail (.returned v)) (.fail (.returned w))

/-- Evaluating the node is alike, from every stage on. -/
def At (K : Congruence)
    (call call' : Closure → List Value → Operation Value) (s s' : ScopeId) :
    Node → Prop
  | .expr e => ∀ i, K.Evals i K.Values (e.eval call s) (e.eval call' s')
  | .stmt st => ∀ i, K.Evals i K.Values (st.eval call s) (st.eval call' s')

namespace Holds

variable {K : Congruence} {call call' : Closure → List Value → Operation Value}
  {s s' : ScopeId} (h : K.Holds call call' s s')

include h

/-- A result that is alike already. -/
theorem values_done {i : K.Stage} {v w : Value} (hv : K.Values i v w) :
    K.Evals i K.Values (.done v) (.done w) :=
  h.done fun _ hj => h.values_mono hj hv

/-! ## Lists -/

theorem evalExprs {es : List Expr}
    (hes : ∀ e ∈ es, K.At call call' s s' (.expr e)) (i : K.Stage) :
    K.Evals i K.Lists (evalExprs call s es) (evalExprs call' s' es) := by
  induction es generalizing i with
  | nil =>
    rw [Monkey.evalExprs, Monkey.evalExprs]
    exact h.done fun _ _ => h.lists_nil
  | cons e es ih =>
    rw [Monkey.evalExprs, Monkey.evalExprs]
    obtain ⟨he, hes⟩ := List.forall_mem_cons.1 hes
    refine h.bind (he i) fun j v w _ hv => ?_
    refine h.bind (ih hes j) fun k vs ws hk hvs => ?_
    exact h.done fun l hl =>
      h.lists_mono hl (h.lists_cons (h.values_mono hk hv) hvs)

/-- The pairs of a hash, entered into tables that are alike. -/
theorem evalPairs {ps : List (Expr × Expr)}
    (hps : ∀ p ∈ ps,
      K.At call call' s s' (.expr p.1) ∧ K.At call call' s s' (.expr p.2))
    {i : K.Stage} {t u : Table HashKey (Value × Value)} (ht : K.Tables i t u) :
    K.Evals i K.Tables (evalPairs call s t ps) (evalPairs call' s' u ps) := by
  induction ps generalizing i t u with
  | nil =>
    rw [Monkey.evalPairs, Monkey.evalPairs]
    exact h.done fun _ hj => h.tables_mono hj ht
  | cons p ps ih =>
    rw [Monkey.evalPairs, Monkey.evalPairs]
    obtain ⟨⟨hkey, hvalue⟩, hps⟩ := List.forall_mem_cons.1 hps
    refine h.bind (hkey i) fun i₁ k k' h₁ hk => ?_
    refine h.bind (h.key hk) fun i₂ key key' h₂ heq => ?_
    refine h.bind (hvalue i₂) fun i₃ v v' h₃ hv => ?_
    obtain rfl : key = key' := heq
    have ht := h.tables_mono h₃ (h.tables_mono h₂ (h.tables_mono h₁ ht))
    have hk := h.values_mono h₃ (h.values_mono h₂ hk)
    exact ih hps (h.tables_insert key ht hk hv)

/-- The statements of a block, behind statements whose results are alike. -/
theorem evalStmts {ss : List Stmt}
    (hss : ∀ st ∈ ss, K.At call call' s s' (.stmt st)) {i : K.Stage}
    {v w : Value} (hv : K.Values i v w) :
    K.Evals i K.Values (evalStmts call s v ss) (evalStmts call' s' w ss) := by
  induction ss generalizing i v w with
  | nil =>
    rw [Monkey.evalStmts, Monkey.evalStmts]
    exact h.values_done hv
  | cons st ss ih =>
    rw [Monkey.evalStmts, Monkey.evalStmts]
    obtain ⟨hst, hss⟩ := List.forall_mem_cons.1 hss
    exact h.bind (hst i) fun j _ _ _ hv => ih hss hv

/-! ## Nodes -/

/-- A branch of a conditional. -/
theorem branch {ss : List Stmt}
    (hss : ∀ st ∈ ss, K.At call call' s s' (.stmt st)) (i : K.Stage) :
    K.Evals i K.Values (Monkey.evalStmts call s .nothing ss)
      (Monkey.evalStmts call' s' .nothing ss) :=
  h.evalStmts hss h.nothing

/-- **An expression**, if its operands are alike. -/
theorem expr {e : Expr} (hnode : K.node (.expr e))
    (hops : (Node.expr e).AllOperands (K.At call call' s s')) :
    K.At call call' s s' (.expr e) := by
  intro i
  match e with
  | .ident name =>
    rw [Expr.eval, Expr.eval]
    exact h.lookup hnode
  | .int value =>
    rw [Expr.eval, Expr.eval]
    exact h.int value
  | .str text =>
    rw [Expr.eval, Expr.eval]
    exact h.str text
  | .bool value =>
    rw [Expr.eval, Expr.eval]
    exact h.values_done (h.truth value)
  | .fn params body =>
    rw [Expr.eval, Expr.eval]
    exact h.fn hnode
  | .array elements =>
    rw [Expr.eval, Expr.eval]
    exact h.bind (h.evalExprs (Node.allOperands_array.1 hops) i)
      fun j vs ws _ hvs => h.array hvs
  | .hash pairs =>
    rw [Expr.eval, Expr.eval]
    exact h.bind (h.evalPairs (Node.allOperands_hash.1 hops) h.tables_nil)
      fun j t u _ ht => h.hash ht
  | .unary op operand =>
    rw [Expr.eval, Expr.eval]
    exact h.bind (Node.allOperands_unary.1 hops i)
      fun j v w _ hv => h.unary op hv
  | .binary op left right =>
    rw [Expr.eval, Expr.eval]
    obtain ⟨hleft, hright⟩ := Node.allOperands_binary.1 hops
    refine h.bind (hleft i) fun j v v' _ hv => ?_
    exact h.bind (hright j) fun k w w' hk hw =>
      h.binary op (h.values_mono hk hv) hw
  | .cond condition consequence none =>
    rw [Expr.eval, Expr.eval]
    obtain ⟨hcondition, hconsequence, -⟩ := Node.allOperands_cond.1 hops
    refine h.bind (hcondition i) fun j v w _ hv => ?_
    rw [h.truthy hv]
    split
    · exact h.branch hconsequence j
    · exact h.values_done h.nothing
  | .cond condition consequence (some alternative) =>
    rw [Expr.eval, Expr.eval]
    obtain ⟨hcondition, hconsequence, halternative⟩ :=
      Node.allOperands_cond.1 hops
    refine h.bind (hcondition i) fun j v w _ hv => ?_
    rw [h.truthy hv]
    split
    · exact h.branch hconsequence j
    · exact h.branch (halternative alternative rfl) j
  | .call callee args =>
    rw [Expr.eval, Expr.eval]
    obtain ⟨hcallee, hargs⟩ := Node.allOperands_call.1 hops
    refine h.bind (hcallee i) fun j f g _ hf => ?_
    exact h.bind (h.evalExprs hargs j) fun k vs ws hk hvs =>
      h.call (h.values_mono hk hf) hvs
  | .index collection position =>
    rw [Expr.eval, Expr.eval]
    obtain ⟨hcollection, hposition⟩ := Node.allOperands_index.1 hops
    refine h.bind (hcollection i) fun j v v' _ hv => ?_
    exact h.bind (hposition j) fun k w w' hk hw =>
      h.index (h.values_mono hk hv) hw

/-- **A statement**, if its operands are alike. -/
theorem stmt {st : Stmt} (hnode : K.node (.stmt st))
    (hops : (Node.stmt st).AllOperands (K.At call call' s s')) :
    K.At call call' s s' (.stmt st) := by
  intro i
  match st with
  | .bind name value =>
    rw [Stmt.eval, Stmt.eval]
    refine h.bind (Node.allOperands_bind.1 hops i) fun j v w _ hv => ?_
    exact h.bind (h.set hnode hv) fun k _ _ _ _ => h.values_done h.nothing
  | .ret value =>
    rw [Stmt.eval, Stmt.eval]
    exact h.bind (Node.allOperands_ret.1 hops i) fun j v w _ hv => h.ret hv
  | .expr value =>
    rw [Stmt.eval, Stmt.eval]
    exact Node.allOperands_expr.1 hops i

/-- **What may be evaluated is alike.** -/
theorem at_node {n : Node} (hnode : K.node n) : K.At call call' s s' n := by
  induction n using Node.inductionOnChildren with
  | h n ih =>
    have hops : n.AllOperands (K.At call call' s s') := fun m hm =>
      ih m (Node.mem_children_of_mem_operands hm) (h.operands hnode m hm)
    cases n with
    | expr e => exact h.expr hnode hops
    | stmt st => exact h.stmt hnode hops

end Holds

end Congruence

/-! ## One evaluation -/

/-- **What is required of an evaluation.** -/
structure Conduct where
  /-- The nodes that may be evaluated. -/
  node : Node → Prop
  /-- What is required of values. -/
  Values : Value → Prop
  /-- What is required of tables. -/
  Tables : Table HashKey (Value × Value) → Prop
  /-- What is required of evaluations, whose results are as given. -/
  Evals : {α : Type} → (α → Prop) → Evaluation α → Prop

namespace Conduct

/-- **Operations are as required**, where functions are called by `call` and
names are looked up in `s`. -/
structure Holds (K : Conduct) (call : Closure → List Value → Operation Value)
    (s : ScopeId) : Prop where
  /-- The operands of what may be evaluated may be evaluated. -/
  operands : ∀ {n}, K.node n → n.AllOperands K.node
  done : ∀ {α : Type} {P : α → Prop} {a : α}, P a → K.Evals P (.done a)
  /-- Evaluations put after each other are as required if their parts are. -/
  bind : ∀ {α β : Type} {P : α → Prop} {Q : β → Prop} {x : Evaluation α}
    {f : α → Evaluation β}, K.Evals P x → (∀ a, P a → K.Evals Q (f a)) →
    K.Evals Q (x >>= f)
  truth : ∀ b, K.Values (.truth b)
  nothing : K.Values .nothing
  tables_nil : K.Tables []
  tables_insert : ∀ {t k v} (key : HashKey), K.Tables t → K.Values k →
    K.Values v → K.Tables (Table.insert key (k, v) t)
  lookup : ∀ {name}, K.node (.expr (.ident name)) →
    K.Evals K.Values (lookup s name).lift
  int : ∀ value, K.Evals K.Values (.newInt value)
  str : ∀ text, K.Evals K.Values (.newStr text)
  fn : ∀ {params body}, K.node (.expr (.fn params body)) →
    K.Evals K.Values (.make (.fn · ⟨params, body, s⟩))
  array : ∀ {vs}, (∀ v ∈ vs, K.Values v) → K.Evals K.Values (.newArray vs)
  hash : ∀ {t}, K.Tables t → K.Evals K.Values (.newHash t)
  unary : ∀ {v} (op : UnaryOp), K.Values v →
    K.Evals K.Values (op.apply v).lift
  binary : ∀ {v w} (op : BinaryOp), K.Values v → K.Values w →
    K.Evals K.Values (op.apply v w).lift
  key : ∀ {v}, K.Values v → K.Evals (fun _ => True) v.asKey.lift
  index : ∀ {v w}, K.Values v → K.Values w → K.Evals K.Values (v.at w).lift
  call : ∀ {f vs}, K.Values f → (∀ v ∈ vs, K.Values v) →
    K.Evals K.Values (f.callWith call vs).lift
  /-- Binding the target of a `let`. -/
  set : ∀ {v name e}, K.node (.stmt (.bind name e)) → K.Values v →
    K.Evals (fun _ => True) (.update (·.set s name v))
  ret : ∀ {v}, K.Values v → K.Evals K.Values (.fail (.returned v))

/-- An evaluation as required is compared with nothing but itself: there is one
stage, and what is alike is equal. -/
def congruence (K : Conduct) : Congruence where
  Stage := Unit
  Leads _ _ := True
  node := K.node
  Values _ v w := v = w ∧ K.Values v
  Lists _ vs ws := vs = ws ∧ ∀ v ∈ vs, K.Values v
  Tables _ t u := t = u ∧ K.Tables t
  Evals _ P x _ := K.Evals (fun a => ∃ b, P () a b) x

namespace Holds

variable {K : Conduct} {call : Closure → List Value → Operation Value}
  {s : ScopeId} (h : K.Holds call s)

/-- That the other value is equal says nothing. -/
theorem evals_values {x y : Evaluation Value} :
    K.congruence.Evals () K.congruence.Values x y ↔ K.Evals K.Values x := by
  simp only [congruence, exists_eq_left']

include h

/-- **The comparison holds** as the requirements do. -/
theorem congruence : K.congruence.Holds call call s s where
  operands := h.operands
  values_mono _ hv := hv
  lists_mono _ hvs := hvs
  tables_mono _ ht := ht
  done hP := h.done ⟨_, hP () trivial⟩
  bind hx hf := h.bind hx fun a ⟨b, hab⟩ => hf () a b trivial hab
  truth b := ⟨rfl, h.truth b⟩
  nothing := ⟨rfl, h.nothing⟩
  truthy hv := by rw [hv.1]
  lists_nil := ⟨rfl, fun _ hv => absurd hv List.not_mem_nil⟩
  lists_cons hv hvs :=
    ⟨by rw [hv.1, hvs.1], List.forall_mem_cons.2 ⟨hv.2, hvs.2⟩⟩
  tables_nil := ⟨rfl, h.tables_nil⟩
  tables_insert key ht hk hv :=
    ⟨by rw [ht.1, hk.1, hv.1], h.tables_insert key ht.2 hk.2 hv.2⟩
  lookup hnode := evals_values.2 (h.lookup hnode)
  int value := evals_values.2 (h.int value)
  str text := evals_values.2 (h.str text)
  fn hnode := evals_values.2 (h.fn hnode)
  array hvs := evals_values.2 (h.array hvs.2)
  hash ht := evals_values.2 (h.hash ht.2)
  unary op hv := evals_values.2 (h.unary op hv.2)
  binary op hv hw := evals_values.2 (h.binary op hv.2 hw.2)
  key hv := by
    simpa only [Conduct.congruence, exists_eq'] using h.key hv.2
  index hv hw := evals_values.2 (h.index hv.2 hw.2)
  call hf hvs := evals_values.2 (h.call hf.2 hvs.2)
  set hnode hv := by
    simpa only [Conduct.congruence, exists_const] using h.set hnode hv.2
  ret hv := evals_values.2 (h.ret hv.2)

/-- **An expression that may be evaluated** is as required. -/
theorem expr {e : Expr} (he : K.node (.expr e)) :
    K.Evals K.Values (e.eval call s) :=
  evals_values.1 (h.congruence.at_node he ())

/-- **A statement that may be evaluated** is as required. -/
theorem stmt {st : Stmt} (hst : K.node (.stmt st)) :
    K.Evals K.Values (st.eval call s) :=
  evals_values.1 (h.congruence.at_node hst ())

/-- **Expressions that may be evaluated** are as required, one after the other. -/
theorem evalExprs {es : List Expr} (hes : ∀ e ∈ es, K.node (.expr e)) :
    K.Evals (fun vs => ∀ v ∈ vs, K.Values v) (evalExprs call s es) := by
  have hevals := h.congruence.evalExprs
    (fun e he => h.congruence.at_node (hes e he)) ()
  simpa only [Conduct.congruence, exists_eq_left'] using hevals

/-- **Statements that may be evaluated** are as required, one after the other. -/
theorem evalStmts {last : Value} (hlast : K.Values last) {ss : List Stmt}
    (hss : ∀ st ∈ ss, K.node (.stmt st)) :
    K.Evals K.Values (evalStmts call s last ss) :=
  evals_values.1 (h.congruence.evalStmts
    (fun st hst => h.congruence.at_node (hss st hst)) ⟨rfl, hlast⟩)

end Holds

end Conduct

end Monkey
