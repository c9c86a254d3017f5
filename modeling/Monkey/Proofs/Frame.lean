import Monkey.Proofs.Congruence
import Monkey.Proofs.Effect

/-!
# What an evaluation leaves alone

Functions hold on to scopes by number, several functions to the same one, and a
function may hold the very scope it is called from. Still a call changes no
scope that was there before it (`World.KeepsScopes`): its body is evaluated in a
scope of its own, made for the call, and an evaluation binds names in the scope
it is given and nowhere else.

An evaluation in a scope may change that scope, and `World.Frame` says how far:
it binds names that the evaluated syntax gives to `let`, outside of function
literals. The branches of a conditional count, since they have no scope of
their own; the bodies of functions do not, since they have.

Both facts are one induction. Evaluation stays within the frame, given that calls
keep the scopes; and calls keep the scopes at one depth, given that they do at
the depth below.
-/

namespace Monkey

open Eval

/-! ## Names given to `let` -/

mutual

/-- **The names an expression gives to `let`**, outside of the functions in
it. -/
def Expr.targets : Expr → List String
  | .ident _ | .int _ | .str _ | .bool _ | .fn _ _ => []
  | .array elements => targetsExprs elements
  | .hash pairs => targetsPairs pairs
  | .unary _ operand => operand.targets
  | .binary _ left right => left.targets ++ right.targets
  | .cond condition consequence none =>
    condition.targets ++ targetsStmts consequence
  | .cond condition consequence (some alternative) =>
    condition.targets ++ (targetsStmts consequence ++ targetsStmts alternative)
  | .call callee args => callee.targets ++ targetsExprs args
  | .index collection position => collection.targets ++ position.targets

/-- The names a list of expressions gives to `let`. -/
def targetsExprs : List Expr → List String
  | [] => []
  | e :: es => e.targets ++ targetsExprs es

/-- The names a list of pairs gives to `let`. -/
def targetsPairs : List (Expr × Expr) → List String
  | [] => []
  | (key, value) :: pairs =>
    key.targets ++ (value.targets ++ targetsPairs pairs)

/-- The names a list of statements gives to `let`. -/
def targetsStmts : List Stmt → List String
  | [] => []
  | s :: ss => s.targets ++ targetsStmts ss

/-- **The names a statement gives to `let`**, outside of the functions in it. -/
def Stmt.targets : Stmt → List String
  | .bind name value => name :: value.targets
  | .ret value => value.targets
  | .expr value => value.targets

end

/-- The names that expressions give to `let`, put one after the other. -/
theorem targetsExprs_eq_flatMap (es : List Expr) :
    targetsExprs es = es.flatMap Expr.targets := by
  induction es with
  | nil => rfl
  | cons e es ih =>
    rw [targetsExprs, ih]
    rfl

/-- The names that pairs give to `let`, put one after the other. -/
theorem targetsPairs_eq_flatMap (ps : List (Expr × Expr)) :
    targetsPairs ps = ps.flatMap fun p => p.1.targets ++ p.2.targets := by
  induction ps with
  | nil => rfl
  | cons p ps ih =>
    rw [targetsPairs, ih, List.flatMap_cons, List.append_assoc]

/-- The names that statements give to `let`, put one after the other. -/
theorem targetsStmts_eq_flatMap (ss : List Stmt) :
    targetsStmts ss = ss.flatMap Stmt.targets := by
  induction ss with
  | nil => rfl
  | cons s ss ih =>
    rw [targetsStmts, ih]
    rfl

namespace Node

/-- The names a node gives to `let`, outside of the functions in it. -/
def targets : Node → List String
  | expr e => e.targets
  | stmt s => s.targets

/-- The name that a node itself gives to `let`. -/
def target? : Node → Option String
  | stmt (.bind name _) => some name
  | _ => none

/-- **What a node gives to `let`**: its own target, and those of its
operands. -/
theorem targets_eq_flatMap (n : Node) :
    n.targets = n.target?.toList ++ n.operands.flatMap targets := by
  match n with
  | expr (.ident _) | expr (.int _) | expr (.str _) | expr (.bool _)
  | expr (.fn _ _) => rfl
  | expr (.array elements) =>
    simp [targets, target?, operands, Expr.targets, targetsExprs_eq_flatMap,
      List.flatMap_map]
  | expr (.hash pairs) =>
    simp [targets, target?, operands, Expr.targets, targetsPairs_eq_flatMap,
      List.flatMap_assoc]
  | expr (.unary _ _) | expr (.binary _ _ _) | expr (.index _ _)
  | stmt (.bind _ _) | stmt (.ret _) | stmt (.expr _) =>
    simp [targets, target?, operands, Expr.targets, Stmt.targets]
  | expr (.cond _ consequence none) =>
    simp [targets, target?, operands, Expr.targets, targetsStmts_eq_flatMap,
      List.flatMap_map]
  | expr (.cond _ consequence (some alternative)) =>
    simp [targets, target?, operands, Expr.targets, targetsStmts_eq_flatMap,
      List.flatMap_map]
  | expr (.call callee args) =>
    simp [targets, target?, operands, Expr.targets, targetsExprs_eq_flatMap,
      List.flatMap_map]

theorem mem_targets_iff {n : Node} {name : String} :
    name ∈ n.targets
      ↔ n.target? = some name ∨ ∃ m ∈ n.operands, name ∈ m.targets := by
  rw [targets_eq_flatMap]
  simp

/-- **A name given to `let` is mentioned** by the `let`. -/
theorem exists_mem_names_of_mem_targets {n : Node} {name : String}
    (h : name ∈ n.targets) : ∃ m, (m = n ∨ m ∈ n.parts) ∧ name ∈ m.names := by
  induction n using inductionOnChildren with
  | h n ih =>
    obtain htarget | ⟨m, hm, hname⟩ := mem_targets_iff.1 h
    · refine ⟨n, .inl rfl, ?_⟩
      match n with
      | stmt (.bind _ _) =>
        exact List.mem_singleton.2 (Option.some.inj htarget).symm
    · have hchild := mem_children_of_mem_operands hm
      obtain ⟨k, hk, hname⟩ := ih m hchild hname
      exact ⟨k, .inr (mem_parts_iff.2 ⟨m, hchild, hk⟩), hname⟩

end Node

/-- The names that a program gives to `let` outside of functions are among those
that it mentions. -/
theorem Program.targets_subset_names (program : Program) :
    targetsStmts program.statements ⊆ program.names := by
  intro name hname
  rw [targetsStmts_eq_flatMap] at hname
  obtain ⟨s, hs, hname⟩ := List.mem_flatMap.1 hname
  obtain ⟨m, hm, hname⟩ :=
    Node.exists_mem_names_of_mem_targets (n := .stmt s) hname
  exact mem_names (mem_nodes_iff.2 ⟨s, hs, hm⟩) hname

/-! ## Frames -/

/-- **Every scope is as it was**: the names it binds, their values and the scope
around it. New scopes may have been made. -/
def World.KeepsScopes (w w' : World) : Prop :=
  ∀ s < w.scopes.size, w'.scopes[s]? = w.scopes[s]?

/-- **The links between scopes are as they were.** -/
def World.KeepsLinks (w w' : World) : Prop :=
  ∀ s < w.scopes.size, w'.outer? s = w.outer? s

/-- **What an evaluation in a scope leaves alone**, if it binds no names but
those given. -/
structure World.Frame (scope : ScopeId) (names : List String) (w w' : World) :
    Prop where
  /-- No scope is removed. -/
  size_le : w.scopes.size ≤ w'.scopes.size
  /-- The other scopes are as they were. -/
  others : ∀ s < w.scopes.size, s ≠ scope → w'.scopes[s]? = w.scopes[s]?
  /-- The links between scopes are as they were. -/
  links : ∀ s < w.scopes.size, w'.outer? s = w.outer? s
  /-- A name that is bound in the scope stays bound. -/
  bound : ∀ name, (w.getLocal? scope name).isSome →
    (w'.getLocal? scope name).isSome
  /-- The other names of the scope are bound to what they were, if to
  anything. -/
  values : scope < w.scopes.size → ∀ name ∉ names,
    w'.getLocal? scope name = w.getLocal? scope name

section

variable {scope : ScopeId} {names : List String} {w w' : World}

theorem World.KeepsScopes.size_le (h : w.KeepsScopes w') :
    w.scopes.size ≤ w'.scopes.size := by
  refine Nat.not_lt.1 fun hlt => ?_
  have hnone : w'.scopes[w'.scopes.size]? = none :=
    Array.getElem?_eq_none (Nat.le_refl _)
  rw [h _ hlt, Array.getElem?_eq_none_iff] at hnone
  omega

/-- Only scopes that exist bind names. -/
theorem World.lt_size_of_getLocal? {name : String}
    (h : (w.getLocal? scope name).isSome) : scope < w.scopes.size := by
  refine Nat.not_le.1 fun hle => ?_
  rw [World.getLocal?, Array.getElem?_eq_none hle] at h
  cases h

theorem World.SameScopes.keepsScopes (h : w.SameScopes w') :
    w.KeepsScopes w' := by
  intro s _
  rw [show w'.scopes = w.scopes from h]

theorem World.KeepsScopes.keepsLinks (h : w.KeepsScopes w') :
    w.KeepsLinks w' := by
  intro s hs
  unfold World.outer?
  rw [h s hs]

/-- What keeps all scopes leaves alone what a frame asks for. -/
theorem World.KeepsScopes.frame (h : w.KeepsScopes w') :
    w.Frame scope names w' where
  size_le := h.size_le
  others s hs _ := h s hs
  links := h.keepsLinks
  bound name hbound := by
    have hs := World.lt_size_of_getLocal? hbound
    unfold World.getLocal? at hbound ⊢
    rwa [h scope hs]
  values hs name _ := by
    unfold World.getLocal?
    rw [h scope hs]

theorem World.SameScopes.frame (h : w.SameScopes w') :
    w.Frame scope names w' :=
  h.keepsScopes.frame

instance : IsPreorder World (World.Frame scope names) where
  refl w := World.SameScopes.frame (refl_of World.SameScopes w)
  trans u v w huv hvw := {
    size_le := Nat.le_trans huv.size_le hvw.size_le
    others := fun s hs hne => by
      rw [hvw.others s (Nat.lt_of_lt_of_le hs huv.size_le) hne,
        huv.others s hs hne]
    links := fun s hs => by
      rw [hvw.links s (Nat.lt_of_lt_of_le hs huv.size_le), huv.links s hs]
    bound := fun name h => hvw.bound name (huv.bound name h)
    values := fun hs name hname => by
      rw [hvw.values (Nat.lt_of_lt_of_le hs huv.size_le) name hname,
        huv.values hs name hname] }

/-- Making a scope keeps the others. -/
theorem World.keepsScopes_addScope (w : World) (outer : Option ScopeId) :
    w.KeepsScopes (w.addScope outer).1 := by
  intro s hs
  unfold World.addScope
  rw [Array.getElem?_push, if_neg (Nat.ne_of_lt hs)]

/-- **Binding a name** leaves alone all but that name. -/
theorem World.frame_set (w : World) {name : String} (hname : name ∈ names)
    (v : Value) : w.Frame scope names (w.set scope name v) where
  size_le := Nat.le_of_eq (w.size_scopes_set scope name v).symm
  others s _ hne := by
    unfold World.set
    rw [Array.getElem?_modify, if_neg hne.symm]
  links s _ := w.outer?_set scope s name v
  bound other hbound := by
    rw [w.getLocal?_set (World.lt_size_of_getLocal? hbound)]
    split
    · rfl
    · exact hbound
  values hs other hother := by
    rw [w.getLocal?_set hs, if_neg]
    rintro ⟨-, rfl⟩
    exact hother hname

theorem World.frame_bindParams (w : World) {params : List String}
    (hparams : params ⊆ names) (args : List Value) :
    w.Frame scope names (bindParams w scope params args) := by
  induction params generalizing w args with
  | nil => exact refl_of (World.Frame scope names) w
  | cons p ps ih =>
    cases args with
    | nil => exact refl_of (World.Frame scope names) w
    | cons v vs =>
      obtain ⟨hp, hps⟩ := List.cons_subset.1 hparams
      exact trans_of (World.Frame scope names) (w.frame_set hp v) (ih _ hps vs)

end

/-! ## Evaluation -/

section

variable {call : Closure → List Value → Operation Value}
  (hcall : ∀ f args, (call f args).Within World.KeepsScopes)
  {scope : ScopeId} {names : List String}

/-- An operation on values, as a part of an evaluation. -/
theorem Operation.within_lift_frame {α : Type} {x : Operation α}
    (h : Eval.Within World.SameScopes x) :
    Eval.Within (World.Frame scope names) x.lift :=
  Operation.within_lift (h.mono fun _ _ h => h.frame)

/-- A new object, as a part of an evaluation. -/
theorem Evaluation.within_make_frame {α : Type} (object : ObjectId → α) :
    Eval.Within (World.Frame scope names) (make object : Evaluation α) :=
  (within_make object).mono fun _ _ h => h.frame

/-- **Staying within a frame**, as what is required of evaluations. -/
def World.framing (scope : ScopeId) (names : List String) : Conduct where
  node n := n.targets ⊆ names
  Values _ := True
  Tables _ := True
  Evals P x := ∀ w₀, x.Keeps (World.Frame scope names w₀) (fun _ => True) P

include hcall

/-- A call of a value keeps the scopes as calls of functions do. -/
theorem Value.within_callWith (f : Value) (args : List Value) :
    (f.callWith call args).Within World.KeepsScopes := by
  cases f with
  | fn _ closure => exact hcall closure args
  | builtin _ b =>
    exact (b.within_apply args).mono fun _ _ h => h.keepsScopes
  | _ =>
    exact (within_fail _).mono fun w w' (h : w.SameScopes w') => h.keepsScopes

/-- **Operations stay within the frame**: only a `let` binds a name, and what is
called changes no scope at all. -/
theorem World.framing_holds : (World.framing scope names).Holds call scope where
  operands hn m hm _ hname :=
    hn (Node.mem_targets_iff.2 (.inr ⟨m, hm, hname⟩))
  done ha _ := keeps_done ha
  bind hx hf w₀ := (hx w₀).bind fun a ha => hf a ha w₀
  truth _ := trivial
  nothing := trivial
  tables_nil := trivial
  tables_insert _ _ _ _ := trivial
  lookup {name} _ :=
    (Operation.within_lift_frame (within_lookup scope name)).keeps
  int value := (Evaluation.within_make_frame (Value.int · value)).keeps
  str text := (Evaluation.within_make_frame (Value.str · text)).keeps
  fn _ := (Evaluation.within_make_frame _).keeps
  array {vs} _ := (Evaluation.within_make_frame (Value.array · vs)).keeps
  hash {t} _ := (Evaluation.within_make_frame (Value.hash · t)).keeps
  unary {v} op _ := (Operation.within_lift_frame (op.within_apply v)).keeps
  binary {v w} op _ _ :=
    (Operation.within_lift_frame (op.within_apply v w)).keeps
  key {v} _ := (Operation.within_lift_frame v.within_asKey).keeps
  index {v w} _ _ := (Operation.within_lift_frame (v.within_at w)).keeps
  call {f vs} _ _ := (Operation.within_lift
    ((Value.within_callWith hcall f vs).mono fun _ _ h => h.frame)).keeps
  set {v _ _} hn _ := (within_update fun w =>
    w.frame_set (hn (Node.mem_targets_iff.2 (.inl rfl))) v).keeps
  ret _ _ := keeps_fail trivial

/-- **An expression leaves alone** all but the names it gives to `let`. -/
theorem Expr.within_eval (e : Expr) :
    (e.eval call scope).Within (World.Frame scope e.targets) :=
  within_of_keeps ((World.framing_holds hcall).expr (List.Subset.refl _))

/-- **A statement leaves alone** all but the names it gives to `let`. -/
theorem Stmt.within_eval (s : Stmt) :
    (s.eval call scope).Within (World.Frame scope s.targets) :=
  within_of_keeps ((World.framing_holds hcall).stmt (List.Subset.refl _))

/-- **Statements leave alone** all but the names they give to `let`. -/
theorem Stmt.within_evalStmts (last : Value) (ss : List Stmt) :
    (evalStmts call scope last ss).Within
      (World.Frame scope (targetsStmts ss)) := by
  refine within_of_keeps ((World.framing_holds hcall).evalStmts trivial
    fun s hs name hname => ?_)
  rw [targetsStmts_eq_flatMap]
  exact List.mem_flatMap.2 ⟨s, hs, hname⟩

/-- **A call of a function keeps the scopes**, if the calls in its body do: the
body may change the scope that was made for it, which is new. -/
theorem Closure.within_enterAndRun (f : Closure) (args : List Value) :
    (f.enterAndRun call args).Within World.KeepsScopes := by
  unfold Closure.enterAndRun
  split
  · intro w w' hw s hs
    have hnew := w.keepsScopes_addScope (some f.scope)
    have hparams : World.Frame w.scopes.size f.params
        (w.addScope (some f.scope)).1 _ :=
      World.frame_bindParams _ (List.Subset.refl _) args
    have henter : (f.enter args).run w = .done w.scopes.size
        (bindParams (w.addScope (some f.scope)).1 w.scopes.size f.params
          args) := rfl
    rw [run_bind_of_done henter] at hw
    have hbody := Evaluation.within_catchReturn
      (Stmt.within_evalStmts hcall .nothing f.body) _ _ hw
    -- The scope of the call is number `w.scopes.size`, so it is not `s`.
    have hne : s ≠ w.scopes.size := Nat.ne_of_lt hs
    have hlt := Nat.lt_of_lt_of_le hs hnew.size_le
    rw [hbody.others s (Nat.lt_of_lt_of_le hlt hparams.size_le) hne,
      hparams.others s hlt hne, hnew s hs]
  · exact (within_fail _).mono fun w w' (h : w.SameScopes w') => h.keepsScopes

end

/-- **Calls keep the scopes**, however deeply they are nested. -/
theorem Closure.within_call (depth : Nat) (f : Closure) (args : List Value) :
    (f.call depth args).Within World.KeepsScopes := by
  induction depth generalizing f args with
  | zero =>
    intro w w' hw
    cases hw
  | succ depth ih => exact Closure.within_enterAndRun ih f args

/-- **A program leaves alone** all but the names it gives to `let`. -/
theorem Program.within_eval (depth : Nat) (program : Program)
    (scope : ScopeId) :
    (program.eval depth scope).Within
      (World.Frame scope (targetsStmts program.statements)) :=
  Evaluation.within_catchReturn
    (Stmt.within_evalStmts (Closure.within_call depth) .nothing _)

/-- **The frame law.** A call that ends, with a value or an error, leaves every
scope as it was. The evaluation of a program, a statement or an expression in a
scope, when it ends, leaves alone all other scopes, all links between scopes,
and in its own scope all names but those that the syntax gives to `let` outside
of function literals; and it unbinds none. -/
theorem evaluation_frame (depth : Nat) :
    (∀ (f : Value) (args : List Value),
      (f.call depth args).Within World.KeepsScopes)
    ∧ (∀ (program : Program) (scope : ScopeId),
      (program.eval depth scope).Within
        (World.Frame scope (targetsStmts program.statements)))
    ∧ (∀ (s : Stmt) (scope : ScopeId),
      (s.eval (Closure.call depth) scope).Within
        (World.Frame scope s.targets))
    ∧ (∀ (e : Expr) (scope : ScopeId),
      (e.eval (Closure.call depth) scope).Within
        (World.Frame scope e.targets)) := by
  have hcall := Closure.within_call depth
  refine ⟨?_, ?_, ?_, ?_⟩
  · exact fun f args => Value.within_callWith hcall f args
  · exact fun program scope => program.within_eval depth scope
  · exact fun s scope => s.within_eval hcall
  · exact fun e scope => e.within_eval hcall

/-- A `let` in a function does not reach the name it shadows. -/
example :
    (((Program.mk [.bind "x" (.int 1),
      .bind "f" (.fn [] [.bind "x" (.int 2)]),
      .expr (.call (.ident "f") [])]).eval 1 0).run
        ((World.empty .ascending).addScope none).1).world?.map
          (·.getLocal? 0 "x")
      = some (some (.int 0 1)) := by cbv

end Monkey
