import Monkey.Program.Equality

/-!
# What occurs in a program

A program can only do what is written in it. To say so, one has to speak of the
expressions and statements that occur in it at any depth, in the bodies of
functions as well as outside of them: its *nodes* (`Program.nodes`). A node may
mention names, as an identifier, as the target of a `let` or as a parameter
(`Node.names`).

A node is put together from its *children*. What holds of a node if it holds of
its children holds of every node (`Node.inductionOnChildren`), and this is the
one induction over trees that is needed where expressions and statements are
treated alike. The children of a node are evaluated with it, in the same scope,
except for the body of a function; those that are, are its *operands*.

What is said of the nodes of a program is said of any *code*: a set of nodes
that has the parts of its nodes (`Code`). The nodes of a program are code, and
so are those of several programs, or all there are.
-/

namespace Monkey

/-- **A node of a program**: an expression or a statement. -/
inductive Node where
  | expr (e : Expr)
  | stmt (s : Stmt)
  deriving DecidableEq

namespace Node

/-- **The operands of a node**: what is evaluated with it, in the same scope. -/
def operands : Node → List Node
  | expr (.array elements) => elements.map expr
  | expr (.hash pairs) => pairs.flatMap fun p => [expr p.1, expr p.2]
  | expr (.unary _ operand) => [expr operand]
  | expr (.binary _ left right) => [expr left, expr right]
  | expr (.cond condition consequence none) =>
    expr condition :: consequence.map stmt
  | expr (.cond condition consequence (some alternative)) =>
    expr condition :: (consequence.map stmt ++ alternative.map stmt)
  | expr (.call callee args) => expr callee :: args.map expr
  | expr (.index collection position) => [expr collection, expr position]
  | stmt (.bind _ value) | stmt (.ret value) | stmt (.expr value) =>
    [expr value]
  | _ => []

/-- **The children of a node**: its operands, or the body of a function. -/
def children : Node → List Node
  | expr (.fn _ body) => body.map stmt
  | n => n.operands

/-- The operands of a node are children of it. -/
theorem mem_children_of_mem_operands {n m : Node} (h : m ∈ n.operands) :
    m ∈ n.children := by
  cases n with
  | expr e =>
    cases e with
    | fn params body => cases h
    | _ => exact h
  | stmt s => exact h

/-! ## Induction -/

theorem sizeOf_le_of_mem_map {α : Type} [SizeOf α] {f : α → Node} {m : Node}
    {as : List α} (hf : ∀ a, sizeOf (f a) = 1 + sizeOf a) (h : m ∈ as.map f) :
    sizeOf m ≤ sizeOf as := by
  obtain ⟨a, ha, rfl⟩ := List.mem_map.1 h
  have hlt := List.sizeOf_lt_of_mem ha
  rw [hf]
  omega

/-- A child is smaller than the node. -/
theorem sizeOf_lt_of_mem_children {n m : Node} (h : m ∈ n.children) :
    sizeOf m < sizeOf n := by
  have hexprs {es : List Expr} (hm : m ∈ es.map expr) : sizeOf m ≤ sizeOf es :=
    sizeOf_le_of_mem_map expr.sizeOf_spec hm
  have hstmts {ss : List Stmt} (hm : m ∈ ss.map stmt) : sizeOf m ≤ sizeOf ss :=
    sizeOf_le_of_mem_map stmt.sizeOf_spec hm
  match n with
  | expr (.ident _) | expr (.int _) | expr (.str _) | expr (.bool _) => cases h
  | expr (.array elements) =>
    have hle := hexprs h
    simp only [expr.sizeOf_spec, Expr.array.sizeOf_spec]
    omega
  | expr (.hash pairs) =>
    obtain ⟨p, hp, hm⟩ := List.mem_flatMap.1 h
    have hlt := List.sizeOf_lt_of_mem hp
    have hpair : sizeOf p = 1 + sizeOf p.1 + sizeOf p.2 := Prod.mk.sizeOf_spec _ _
    simp only [List.mem_cons, List.not_mem_nil, or_false] at hm
    obtain rfl | rfl := hm <;>
    · simp only [expr.sizeOf_spec, Expr.hash.sizeOf_spec]
      omega
  | expr (.unary _ operand) =>
    obtain rfl := List.mem_singleton.1 h
    simp only [expr.sizeOf_spec, Expr.unary.sizeOf_spec]
    omega
  | expr (.binary _ left right) =>
    simp only [children, operands, List.mem_cons, List.not_mem_nil, or_false] at h
    obtain rfl | rfl := h <;>
    · simp only [expr.sizeOf_spec, Expr.binary.sizeOf_spec]
      omega
  | expr (.index collection position) =>
    simp only [children, operands, List.mem_cons, List.not_mem_nil, or_false] at h
    obtain rfl | rfl := h <;>
    · simp only [expr.sizeOf_spec, Expr.index.sizeOf_spec]
      omega
  | expr (.cond condition consequence none) =>
    simp only [expr.sizeOf_spec, Expr.cond.sizeOf_spec]
    obtain rfl | h := List.mem_cons.1 h
    · rw [expr.sizeOf_spec]
      omega
    · have hle := hstmts h
      omega
  | expr (.cond condition consequence (some alternative)) =>
    simp only [expr.sizeOf_spec, Expr.cond.sizeOf_spec, Option.some.sizeOf_spec]
    obtain rfl | h := List.mem_cons.1 h
    · rw [expr.sizeOf_spec]
      omega
    · obtain h | h := List.mem_append.1 h
      · have hle := hstmts h
        omega
      · have hle := hstmts h
        omega
  | expr (.fn _ body) =>
    have hle := hstmts h
    simp only [expr.sizeOf_spec, Expr.fn.sizeOf_spec]
    omega
  | expr (.call callee args) =>
    simp only [expr.sizeOf_spec, Expr.call.sizeOf_spec]
    obtain rfl | h := List.mem_cons.1 h
    · rw [expr.sizeOf_spec]
      omega
    · have hle := hexprs h
      omega
  | stmt (.bind _ value) =>
    obtain rfl := List.mem_singleton.1 h
    simp only [expr.sizeOf_spec, stmt.sizeOf_spec, Stmt.bind.sizeOf_spec]
    omega
  | stmt (.ret value) =>
    obtain rfl := List.mem_singleton.1 h
    simp only [expr.sizeOf_spec, stmt.sizeOf_spec, Stmt.ret.sizeOf_spec]
    omega
  | stmt (.expr value) =>
    obtain rfl := List.mem_singleton.1 h
    simp only [expr.sizeOf_spec, stmt.sizeOf_spec, Stmt.expr.sizeOf_spec]
    omega

/-- **Induction over trees**: what holds of a node if it holds of its children
holds of every node. -/
theorem inductionOnChildren {P : Node → Prop}
    (h : ∀ n, (∀ m ∈ n.children, P m) → P n) (n : Node) : P n :=
  h n fun m _ => inductionOnChildren h m
termination_by n
decreasing_by
  rename_i hm
  exact sizeOf_lt_of_mem_children hm

end Node

/-! ## Parts -/

mutual

/-- **What occurs in an expression**, at any depth. The expression itself is no
part of it. -/
def Expr.parts : Expr → List Node
  | .ident _ | .int _ | .str _ | .bool _ => []
  | .array elements => partsExprs elements
  | .hash pairs => partsPairs pairs
  | .unary _ operand => .expr operand :: operand.parts
  | .binary _ left right =>
    (.expr left :: left.parts) ++ (.expr right :: right.parts)
  | .cond condition consequence none =>
    (.expr condition :: condition.parts) ++ partsStmts consequence
  | .cond condition consequence (some alternative) =>
    (.expr condition :: condition.parts)
      ++ (partsStmts consequence ++ partsStmts alternative)
  | .fn _ body => partsStmts body
  | .call callee args => (.expr callee :: callee.parts) ++ partsExprs args
  | .index collection position =>
    (.expr collection :: collection.parts)
      ++ (.expr position :: position.parts)

/-- The expressions of a list, and what occurs in them. -/
def partsExprs : List Expr → List Node
  | [] => []
  | e :: es => (.expr e :: e.parts) ++ partsExprs es

/-- The keys and values of a list of pairs, and what occurs in them. -/
def partsPairs : List (Expr × Expr) → List Node
  | [] => []
  | (key, value) :: pairs =>
    (.expr key :: key.parts)
      ++ ((.expr value :: value.parts) ++ partsPairs pairs)

/-- The statements of a list, and what occurs in them. -/
def partsStmts : List Stmt → List Node
  | [] => []
  | s :: ss => (.stmt s :: s.parts) ++ partsStmts ss

/-- **What occurs in a statement**, at any depth. -/
def Stmt.parts : Stmt → List Node
  | .bind _ value | .ret value | .expr value => .expr value :: value.parts

end

namespace Node

/-- What occurs in a node. -/
def parts : Node → List Node
  | expr e => e.parts
  | stmt s => s.parts

/-- **The names that a node itself mentions**: an identifier, the target of a
`let`, or the parameters of a function. -/
def names : Node → List String
  | expr (.ident name) => [name]
  | expr (.fn params _) => params
  | stmt (.bind name _) => [name]
  | _ => []

end Node

/-- What occurs in expressions put one after the other. -/
theorem partsExprs_eq_flatMap (es : List Expr) :
    partsExprs es = (es.map Node.expr).flatMap fun n => n :: n.parts := by
  induction es with
  | nil => rfl
  | cons e es ih =>
    rw [partsExprs, ih]
    rfl

/-- What occurs in pairs put one after the other. -/
theorem partsPairs_eq_flatMap (ps : List (Expr × Expr)) :
    partsPairs ps = (ps.flatMap fun p => [Node.expr p.1, Node.expr p.2]).flatMap
      fun n => n :: n.parts := by
  induction ps with
  | nil => rfl
  | cons p ps ih =>
    rw [partsPairs, ih]
    rfl

/-- What occurs in statements put one after the other. -/
theorem partsStmts_eq_flatMap (ss : List Stmt) :
    partsStmts ss = (ss.map Node.stmt).flatMap fun n => n :: n.parts := by
  induction ss with
  | nil => rfl
  | cons s ss ih =>
    rw [partsStmts, ih]
    rfl

namespace Node

/-- **The parts of a node are its children and their parts.** -/
theorem parts_eq_flatMap (n : Node) :
    n.parts = n.children.flatMap fun m => m :: m.parts := by
  match n with
  | expr (.ident _) | expr (.int _) | expr (.str _) | expr (.bool _) => rfl
  | expr (.array elements) => exact partsExprs_eq_flatMap elements
  | expr (.hash pairs) => exact partsPairs_eq_flatMap pairs
  | expr (.fn _ body) => exact partsStmts_eq_flatMap body
  | expr (.unary _ _) | expr (.binary _ _ _) | expr (.index _ _)
  | stmt (.bind _ _) | stmt (.ret _) | stmt (.expr _) =>
    simp [parts, children, operands, Expr.parts, Stmt.parts]
  | expr (.cond _ consequence none) =>
    simp [parts, children, operands, Expr.parts, partsStmts_eq_flatMap]
  | expr (.cond _ consequence (some alternative)) =>
    simp [parts, children, operands, Expr.parts, partsStmts_eq_flatMap]
  | expr (.call callee args) =>
    simp [parts, children, operands, Expr.parts, partsExprs_eq_flatMap]

/-- A part of a node is a child, or a part of one. -/
theorem mem_parts_iff {n m : Node} :
    m ∈ n.parts ↔ ∃ c ∈ n.children, m = c ∨ m ∈ c.parts := by
  rw [parts_eq_flatMap]
  simp

theorem mem_parts_of_mem_children {n m : Node} (h : m ∈ n.children) :
    m ∈ n.parts :=
  mem_parts_iff.2 ⟨m, h, .inl rfl⟩

/-- **The parts of the parts of a node** are parts of it. -/
theorem parts_subset_of_mem {n m : Node} (h : m ∈ n.parts) :
    m.parts ⊆ n.parts := by
  induction n using inductionOnChildren with
  | h n ih =>
    obtain ⟨c, hc, hm⟩ := mem_parts_iff.1 h
    intro k hk
    refine mem_parts_iff.2 ⟨c, hc, .inr ?_⟩
    obtain rfl | hm := hm
    · exact hk
    · exact ih c hc hm hk

/-! ## Operands by the form of the node -/

/-- **All operands of the node have the property.** -/
def AllOperands (P : Node → Prop) (n : Node) : Prop :=
  ∀ m ∈ n.operands, P m

section

variable {P : Node → Prop}

theorem allOperands_array {es : List Expr} :
    AllOperands P (expr (.array es)) ↔ ∀ e ∈ es, P (expr e) := by
  simp [AllOperands, operands]

theorem allOperands_hash {ps : List (Expr × Expr)} :
    AllOperands P (expr (.hash ps))
      ↔ ∀ p ∈ ps, P (expr p.1) ∧ P (expr p.2) := by
  constructor
  · intro h p hp
    exact ⟨h _ (List.mem_flatMap.2 ⟨p, hp, by simp⟩),
      h _ (List.mem_flatMap.2 ⟨p, hp, by simp⟩)⟩
  · intro h m hm
    obtain ⟨p, hp, hm⟩ := List.mem_flatMap.1 hm
    simp only [List.mem_cons, List.not_mem_nil, or_false] at hm
    obtain rfl | rfl := hm
    · exact (h p hp).1
    · exact (h p hp).2

theorem allOperands_unary {op : UnaryOp} {e : Expr} :
    AllOperands P (expr (.unary op e)) ↔ P (expr e) := by
  simp [AllOperands, operands]

theorem allOperands_binary {op : BinaryOp} {left right : Expr} :
    AllOperands P (expr (.binary op left right))
      ↔ P (expr left) ∧ P (expr right) := by
  simp [AllOperands, operands]

theorem allOperands_index {collection position : Expr} :
    AllOperands P (expr (.index collection position))
      ↔ P (expr collection) ∧ P (expr position) := by
  simp [AllOperands, operands]

theorem allOperands_call {callee : Expr} {args : List Expr} :
    AllOperands P (expr (.call callee args))
      ↔ P (expr callee) ∧ ∀ e ∈ args, P (expr e) := by
  simp [AllOperands, operands]

/-- The condition and the branches of a conditional. -/
theorem allOperands_cond {condition : Expr} {consequence : List Stmt}
    {alternative? : Option (List Stmt)} :
    AllOperands P (expr (.cond condition consequence alternative?))
      ↔ P (expr condition) ∧ (∀ s ∈ consequence, P (stmt s))
        ∧ ∀ ss, alternative? = some ss → ∀ s ∈ ss, P (stmt s) := by
  cases alternative? with
  | none => simp [AllOperands, operands]
  | some alternative => simp [AllOperands, operands, or_imp, forall_and]

theorem allOperands_bind {name : String} {e : Expr} :
    AllOperands P (stmt (.bind name e)) ↔ P (expr e) := by
  simp [AllOperands, operands]

theorem allOperands_ret {e : Expr} :
    AllOperands P (stmt (.ret e)) ↔ P (expr e) := by
  simp [AllOperands, operands]

theorem allOperands_expr {e : Expr} :
    AllOperands P (stmt (.expr e)) ↔ P (expr e) := by
  simp [AllOperands, operands]

end

end Node

/-! ## Code -/

/-- **Code**: nodes that have the parts of each of them. -/
structure Code where
  /-- The nodes. -/
  node : Node → Prop
  /-- What occurs in a node is a node. -/
  closed : ∀ {n m : Node}, node n → m ∈ n.parts → node m

namespace Code

/-- All the code there is. -/
def all : Code where
  node _ := True
  closed _ _ := trivial

/-- **The operands of code are code.** -/
theorem operands {c : Code} {n : Node} (h : c.node n) :
    Node.AllOperands c.node n :=
  fun _ hm => c.closed h
    (Node.mem_parts_of_mem_children (Node.mem_children_of_mem_operands hm))

/-- The bodies of functions that are code are code. -/
theorem stmts_of_fn {c : Code} {params : List String} {body : List Stmt}
    (h : c.node (.expr (.fn params body))) : ∀ s ∈ body, c.node (.stmt s) :=
  fun _ hs => c.closed h (Node.mem_parts_of_mem_children
    (n := .expr (.fn params body)) (List.mem_map_of_mem hs))

end Code

namespace Program

/-- **What occurs in a program**, at any depth. -/
def nodes (program : Program) : List Node :=
  partsStmts program.statements

/-- **The names that a program mentions**, as an identifier, as the target of a
`let` or as a parameter. -/
def names (program : Program) : List String :=
  program.nodes.flatMap Node.names

/-- The nodes of a program are its statements and their parts. -/
theorem mem_nodes_iff {program : Program} {n : Node} :
    n ∈ program.nodes
      ↔ ∃ s ∈ program.statements, n = .stmt s ∨ n ∈ s.parts := by
  rw [nodes, partsStmts_eq_flatMap, List.mem_flatMap]
  constructor
  · rintro ⟨m, hm, hn⟩
    obtain ⟨s, hs, rfl⟩ := List.mem_map.1 hm
    exact ⟨s, hs, List.mem_cons.1 hn⟩
  · rintro ⟨s, hs, hn⟩
    exact ⟨.stmt s, List.mem_map_of_mem hs, List.mem_cons.2 hn⟩

/-- The code of a program. -/
def code (program : Program) : Code where
  node n := n ∈ program.nodes
  closed {n m} h hm := by
    obtain ⟨s, hs, hn⟩ := mem_nodes_iff.1 h
    refine mem_nodes_iff.2 ⟨s, hs, .inr ?_⟩
    obtain rfl | hn := hn
    · exact hm
    · exact Node.parts_subset_of_mem (n := .stmt s) hn hm

/-- The statements of a program are code of it. -/
theorem stmts_code (program : Program) :
    ∀ s ∈ program.statements, program.code.node (.stmt s) :=
  fun s hs => mem_nodes_iff.2 ⟨s, hs, .inl rfl⟩

theorem mem_names {program : Program} {n : Node} (hn : n ∈ program.nodes)
    {name : String} (hname : name ∈ n.names) : name ∈ program.names :=
  List.mem_flatMap.2 ⟨n, hn, hname⟩

end Program

/-- A function mentions its parameters and what its body mentions. -/
example : (Program.mk [.bind "f" (.fn ["x", "y"]
    [.expr (.call (.ident "g") [.ident "x"])])]).names
      = ["f", "x", "y", "g", "x"] := by decide

end Monkey
