import Monkey.Proofs.Occurrence
import Monkey.Proofs.Rendering

/-!
# The blocks of a program

Statement lists occur in a program at all depths: a block belongs to an
expression, the expression to a statement, and the statement to a list again.
The blocks of a program are its own statements and those that belong to one of
its nodes (`Program.blocks`).

What holds of the tokens of a program holds of the tokens of its blocks. A node
is written with the tokens of its children, so every part is written with tokens
of the whole (`Node.mem_kinds_of_mem_parts`).
-/

namespace Monkey

open Token (Kind)

/-- The blocks of an expression that no expression within it contains. -/
def Expr.ownBlocks : Expr → List Block
  | .cond _ consequence none => [consequence]
  | .cond _ consequence (some alternative) => [consequence, alternative]
  | .fn _ body => [body]
  | _ => []

/-- The blocks of a node that no node within it contains. -/
@[simp] def Node.ownBlocks : Node → List Block
  | .expr e => e.ownBlocks
  | .stmt _ => []

/-- **The statement lists of a program**: its own and those of the blocks at
any depth. -/
def Program.blocks (program : Program) : List Block :=
  program.statements :: program.nodes.flatMap Node.ownBlocks

/-! ## The tokens of a list -/

/-- Lists are written with the tokens of their items. -/
theorem mem_commas_of_mem {k : Kind} {ks : List Kind} {kss : List (List Kind)}
    (hks : ks ∈ kss) (hk : k ∈ ks) : k ∈ commas kss := by
  induction kss with
  | nil => cases hks
  | cons ls kss ih =>
    cases kss with
    | nil =>
      rw [commas, ← List.mem_singleton.1 hks]
      exact hk
    | cons ls' kss =>
      rw [commas, List.mem_append, List.mem_cons]
      obtain rfl | hks := List.mem_cons.1 hks
      · exact .inl hk
      · exact .inr (.inr (ih hks))

/-- Items are written one by one. -/
theorem kindsExprs_eq_map (es : List Expr) :
    kindsExprs es = es.map Expr.kinds := by
  induction es with
  | nil => rfl
  | cons e es ih => rw [kindsExprs, ih, List.map_cons]

/-- Pairs are written one by one, each with a colon in it. -/
theorem kindsPairs_eq_map (ps : List (Expr × Expr)) :
    kindsPairs ps = ps.map fun p => p.1.kinds ++ .colon :: p.2.kinds := by
  induction ps with
  | nil => rfl
  | cons p ps ih => rw [kindsPairs, ih, List.map_cons]

/-- Statements are written one after the other. -/
theorem kindsStmts_eq_flatMap (ss : List Stmt) :
    kindsStmts ss = ss.flatMap Stmt.kinds := by
  induction ss with
  | nil => rfl
  | cons s ss ih => rw [kindsStmts, ih, List.flatMap_cons]

theorem mem_kindsStmts_of_mem {s : Stmt} {ss : List Stmt} (hs : s ∈ ss)
    {k : Kind} (hk : k ∈ s.kinds) : k ∈ kindsStmts ss := by
  rw [kindsStmts_eq_flatMap]
  exact List.mem_flatMap.2 ⟨s, hs, hk⟩

/-! ## The tokens of a node -/

namespace Node

/-- The tokens that a node is written in. -/
def kinds : Node → List Kind
  | expr e => e.kinds
  | stmt s => s.kinds

variable {n m : Node} {k : Kind}

/-- **The tokens of a child are tokens of the node.** -/
theorem mem_kinds_of_mem_children (hm : m ∈ n.children) (hk : k ∈ m.kinds) :
    k ∈ n.kinds := by
  have hexprs {es : List Expr} (hm : m ∈ es.map expr) :
      k ∈ commas (kindsExprs es) := by
    obtain ⟨e, he, rfl⟩ := List.mem_map.1 hm
    rw [kindsExprs_eq_map]
    exact mem_commas_of_mem (List.mem_map_of_mem he) hk
  have hstmts {ss : List Stmt} (hm : m ∈ ss.map stmt) : k ∈ kindsStmts ss := by
    obtain ⟨s, hs, rfl⟩ := List.mem_map.1 hm
    exact mem_kindsStmts_of_mem hs hk
  match n with
  | expr (.ident _) | expr (.int _) | expr (.str _) | expr (.bool _) => cases hm
  | expr (.array elements) => simp [kinds, Expr.kinds, hexprs hm]
  | expr (.hash pairs) =>
    obtain ⟨p, hp, hm⟩ := List.mem_flatMap.1 hm
    have hpair : k ∈ p.1.kinds ++ .colon :: p.2.kinds := by
      simp only [List.mem_cons, List.not_mem_nil, or_false] at hm
      obtain rfl | rfl := hm
      · exact List.mem_append_left _ hk
      · exact List.mem_append_right _ (List.mem_cons_of_mem _ hk)
    have hpairs : k ∈ commas (kindsPairs pairs) := by
      rw [kindsPairs_eq_map]
      exact mem_commas_of_mem (List.mem_map_of_mem hp) hpair
    simp [kinds, Expr.kinds, hpairs]
  | expr (.unary _ operand) =>
    obtain rfl := List.mem_singleton.1 hm
    have hoperand : k ∈ operand.kinds := hk
    simp [kinds, Expr.kinds, hoperand]
  | expr (.binary _ left right) | expr (.index left right) =>
    simp only [children, operands, List.mem_cons, List.not_mem_nil,
      or_false] at hm
    have hparts : k ∈ left.kinds ∨ k ∈ right.kinds := by
      obtain rfl | rfl := hm
      · exact .inl hk
      · exact .inr hk
    obtain h | h := hparts <;> simp [kinds, Expr.kinds, h]
  | expr (.cond condition consequence none) =>
    obtain rfl | hm := List.mem_cons.1 hm
    · have hcondition : k ∈ condition.kinds := hk
      simp [kinds, Expr.kinds, hcondition]
    · simp [kinds, Expr.kinds, hstmts hm]
  | expr (.cond condition consequence (some alternative)) =>
    obtain rfl | hm := List.mem_cons.1 hm
    · have hcondition : k ∈ condition.kinds := hk
      simp [kinds, Expr.kinds, hcondition]
    · obtain hm | hm := List.mem_append.1 hm <;>
        simp [kinds, Expr.kinds, hstmts hm]
  | expr (.fn _ body) => simp [kinds, Expr.kinds, hstmts hm]
  | expr (.call callee args) =>
    obtain rfl | hm := List.mem_cons.1 hm
    · have hcallee : k ∈ callee.kinds := hk
      simp [kinds, Expr.kinds, hcallee]
    · simp [kinds, Expr.kinds, hexprs hm]
  | stmt (.bind _ value) | stmt (.ret value) | stmt (.expr value) =>
    obtain rfl := List.mem_singleton.1 hm
    have hvalue : k ∈ value.kinds := hk
    simp [kinds, Stmt.kinds, hvalue]

/-- **The tokens of a part are tokens of the whole.** -/
theorem mem_kinds_of_mem_parts (hm : m ∈ n.parts) (hk : k ∈ m.kinds) :
    k ∈ n.kinds := by
  induction n using inductionOnChildren with
  | h n ih =>
    obtain ⟨c, hc, hm⟩ := mem_parts_iff.1 hm
    refine mem_kinds_of_mem_children hc ?_
    obtain rfl | hm := hm
    · exact hk
    · exact ih c hc hm

/-- The tokens of a block are tokens of the node that it belongs to. -/
theorem mem_kinds_of_mem_ownBlocks {block : Block} (hblock : block ∈ n.ownBlocks)
    (hk : k ∈ kindsStmts block) : k ∈ n.kinds := by
  match n with
  | expr (.cond _ _ none) | expr (.fn _ _) =>
    obtain rfl := List.mem_singleton.1 hblock
    simp [kinds, Expr.kinds, hk]
  | expr (.cond _ _ (some _)) =>
    simp only [ownBlocks, Expr.ownBlocks, List.mem_cons, List.not_mem_nil,
      or_false] at hblock
    obtain rfl | rfl := hblock <;> simp [kinds, Expr.kinds, hk]

end Node

/-- **The blocks of a program that can be written can be written.** -/
theorem Program.writable_of_mem_blocks {program : Program} {block : Block}
    (h : Writable (kindsStmts program.statements))
    (hblock : block ∈ program.blocks) : Writable (kindsStmts block) := by
  intro k hk
  refine h k ?_
  obtain rfl | hblock := List.mem_cons.1 hblock
  · exact hk
  · obtain ⟨n, hn, hblock⟩ := List.mem_flatMap.1 hblock
    have hkinds := Node.mem_kinds_of_mem_ownBlocks hblock hk
    obtain ⟨s, hs, rfl | hn⟩ := Program.mem_nodes_iff.1 hn
    · exact mem_kindsStmts_of_mem hs hkinds
    · exact mem_kindsStmts_of_mem hs
        (Node.mem_kinds_of_mem_parts (n := .stmt s) hn hkinds)

end Monkey
