import Monkey.Proofs.Blocks

/-!
# Where statements run together

The renderer writes no semicolon behind an expression statement. If the next
statement begins with a parenthesis or a bracket, the two read as one: a call
or an index of the first. Such a place is a *seam* of the block.

What makes seams visible is a count that tokens and trees share. In a token
list, count the parentheses and brackets that stand directly behind the end of
an expression (`joins`). Under a tree, count the calls and indices. A token list
that derives a tree has as many of the one as the tree has of the other
(`Body.joins_eq`), since the grammar keeps every other opening bracket apart
from what stands before it. The tokens that a tree is written in have one more
for every seam (`joins_kindsStmts`). So a tree with a seam is not what its own
tokens derive.
-/

namespace Monkey

open Token (Kind)

/-! ## Seams -/

/-- Expressions that are written with a parenthesis or a bracket at the
front. -/
def Expr.isBracketed : Expr → Bool
  | .unary _ _ | .binary _ _ _ | .index _ _ | .array _ => true
  | .call callee _ => callee.isBracketed
  | _ => false

/-- Whether a statement runs together with those that follow it. -/
def Stmt.runsInto : Stmt → Block → Bool
  | .expr _, .expr e :: _ => e.isBracketed
  | _, _ => false

/-- **The number of seams of a block**, without those of the blocks in it. -/
def seams : Block → Nat
  | [] => 0
  | s :: ss => (s.runsInto ss).toNat + seams ss

/-- **A block has no seam** if no expression statement stands before one that is
written with a bracket at its front. -/
theorem seams_eq_zero_iff {block : Block} :
    seams block = 0 ↔
      ∀ e e', [Stmt.expr e, Stmt.expr e'] <:+: block → ¬ e'.isBracketed := by
  induction block with
  | nil => simp [seams]
  | cons s ss ih =>
    have hhead : (s.runsInto ss).toNat = 0 ↔
        ∀ e e', [Stmt.expr e, Stmt.expr e'] <+: s :: ss → ¬ e'.isBracketed := by
      cases s with
      | bind _ _ => simp [Stmt.runsInto]
      | ret _ => simp [Stmt.runsInto]
      | expr e =>
        rcases ss with _ | ⟨⟨⟩ | ⟨⟩ | e', ss⟩ <;> simp [Stmt.runsInto]
    rw [seams, Nat.add_eq_zero_iff, hhead, ih, ← forall_and]
    refine forall_congr' fun e => ?_
    rw [← forall_and]
    refine forall_congr' fun e' => ?_
    rw [List.infix_cons_iff, or_imp]

/-- The number of seams of several blocks. -/
@[simp] def seamsOfAll : List Block → Nat
  | [] => 0
  | block :: blocks => seams block + seamsOfAll blocks

theorem seamsOfAll_append (a b : List Block) :
    seamsOfAll (a ++ b) = seamsOfAll a + seamsOfAll b := by
  induction a with
  | nil => simp [seamsOfAll]
  | cons block a ih =>
    rw [List.cons_append, seamsOfAll, seamsOfAll, ih, Nat.add_assoc]

/-- There are no seams exactly if no block has one. -/
theorem seamsOfAll_eq_zero_iff {blocks : List Block} :
    seamsOfAll blocks = 0 ↔ ∀ block ∈ blocks, seams block = 0 := by
  induction blocks with
  | nil => simp [seamsOfAll]
  | cons block blocks ih =>
    rw [seamsOfAll, Nat.add_eq_zero_iff, ih, List.forall_mem_cons]

/-- The number of seams in the blocks of nodes. -/
def seamsWithin (ns : List Node) : Nat :=
  seamsOfAll (ns.flatMap Node.ownBlocks)

/-- Calls and indices. -/
@[simp] def Expr.isApplication : Expr → Bool
  | .call _ _ | .index _ _ => true
  | _ => false

/-- Nodes that are calls or indices. -/
@[simp] def Node.isApplication : Node → Bool
  | .expr e => e.isApplication
  | .stmt _ => false

/-- The number of calls and indices among nodes. -/
def applications (ns : List Node) : Nat :=
  ns.countP Node.isApplication

section Counts

variable (a b : List Node) (n : Node)

@[simp] theorem seamsWithin_nil : seamsWithin [] = 0 := rfl

@[simp] theorem seamsWithin_append :
    seamsWithin (a ++ b) = seamsWithin a + seamsWithin b := by
  unfold seamsWithin
  rw [List.flatMap_append, seamsOfAll_append]

@[simp] theorem seamsWithin_cons :
    seamsWithin (n :: a) = seamsOfAll n.ownBlocks + seamsWithin a := by
  unfold seamsWithin
  rw [List.flatMap_cons, seamsOfAll_append]

@[simp] theorem applications_nil : applications [] = 0 := rfl

@[simp] theorem applications_append :
    applications (a ++ b) = applications a + applications b :=
  List.countP_append

@[simp] theorem applications_cons :
    applications (n :: a) = n.isApplication.toNat + applications a := by
  unfold applications
  rw [List.countP_cons, Nat.add_comm]
  cases n.isApplication <;> rfl

end Counts

/-! ## Brackets behind the end of an expression -/

/-- Whether an expression can end with a token of the kind. -/
def Token.Kind.endsExpr : Kind → Bool
  | .ident _ | .int _ | .str _ | .kwTrue | .kwFalse | .rightParen
  | .rightBracket | .rightBrace => true
  | _ => false

/-- The kinds that make a call or an index of the expression before them. -/
def Token.Kind.joins : Kind → Bool
  | .leftParen | .leftBracket => true
  | _ => false

/-- Whether the last of the tokens can end an expression; `before` says it of
the token before them. -/
@[simp] def lastEnds (before : Bool) : List Kind → Bool
  | [] => before
  | k :: ks => lastEnds k.endsExpr ks

/-- **The number of brackets that stand directly behind the end of an
expression**; `before` says whether one ends before the first token. -/
@[simp] def joins (before : Bool) : List Kind → Nat
  | [] => 0
  | k :: ks => (before && k.joins).toNat + joins k.endsExpr ks

@[simp] theorem lastEnds_append (before : Bool) (ks ls : List Kind) :
    lastEnds before (ks ++ ls) = lastEnds (lastEnds before ks) ls := by
  induction ks generalizing before with
  | nil => rfl
  | cons k ks ih => exact ih _

@[simp] theorem joins_append (before : Bool) (ks ls : List Kind) :
    joins before (ks ++ ls)
      = joins before ks + joins (lastEnds before ks) ls := by
  induction ks generalizing before with
  | nil => simp [joins, lastEnds]
  | cons k ks ih =>
    rw [List.cons_append, joins, joins, lastEnds, ih]
    omega

/-- Parentheses around an expression do not join. -/
theorem joins_group (ks : List Kind) :
    joins false (.leftParen :: (ks ++ [.rightParen])) = joins false ks := by
  simp [Kind.joins, Kind.endsExpr]

/-- A join can be gained only by the first token. -/
theorem joins_true (ks : List Kind) :
    joins true ks = (ks.head?.any Kind.joins).toNat + joins false ks := by
  cases ks with
  | nil => rfl
  | cons k ks => simp [joins]

/-- What stands in front of a list that is apart makes no join with it. -/
theorem Apart.joins_eq {ks : List Kind} (h : Apart ks) (before : Bool) :
    joins before ks = joins false ks := by
  cases ks with
  | nil => rfl
  | cons k ks =>
    obtain ⟨-, hparen, hbracket⟩ := h k rfl
    have hk : k.joins = false := by
      cases k <;> first | rfl | contradiction
    simp [joins, hk]

/-- Whatever stands before an expression, its last token ends it. -/
theorem Expr.Derives.lastEnds_eq {l : Layer} {ts : List Kind} {e : Expr}
    (h : Expr.Derives l ts e) (before : Bool) : lastEnds before ts := by
  match h with
  | .loosen h => exact h.lastEnds_eq before
  | .binary _ _ h =>
    rw [lastEnds_append]
    exact h.lastEnds_eq _
  | .unary h => exact h.lastEnds_eq _
  | .ident | .int _ | .str | .true | .false => rfl
  | .call _ _ | .index _ _ | .group _ | .array _ | .hash _ | .cond _ _
  | .condElse _ _ _ | .fn _ _ => simp [lastEnds, lastEnds_append, Kind.endsExpr]

@[simp] theorem UnaryOp.joins_kind (op : UnaryOp) : op.kind.joins = false := by
  cases op <;> rfl

@[simp] theorem UnaryOp.endsExpr_kind (op : UnaryOp) :
    op.kind.endsExpr = false := by
  cases op <;> rfl

@[simp] theorem BinaryOp.joins_kind (op : BinaryOp) :
    op.kind.joins = false := by
  cases op <;> rfl

@[simp] theorem BinaryOp.endsExpr_kind (op : BinaryOp) :
    op.kind.endsExpr = false := by
  cases op <;> rfl

/-- There are no joins between the parameters of a function. -/
theorem joins_eq_of_listed_named {ts : List Kind} {params : List String}
    (h : Listed Named ts params) : joins false ts = 0 := by
  induction h with
  | nil => rfl
  | last h =>
    cases h
    rfl
  | more h _ ih =>
    cases h
    simpa [Kind.joins, Kind.endsExpr] using ih

mutual

/-- **The joins of a token list are the calls and indices of the expression it
derives.** -/
theorem Expr.Derives.joins_eq {l : Layer} {ts : List Kind} {e : Expr}
    (h : Expr.Derives l ts e) :
    joins false ts = applications (.expr e :: e.parts) := by
  match h with
  | .loosen h => exact h.joins_eq
  | .binary hop hleft hright =>
    obtain rfl := Layer.kind_of_mem_operators hop
    simp [hleft.joins_eq, hright.joins_eq, Expr.parts, Nat.add_assoc]
  | .unary h => simp [h.joins_eq, Expr.parts]
  | .call hcallee hargs =>
    -- The one bracket that joins: it stands behind the callee.
    simp [hcallee.joins_eq, hcallee.lastEnds_eq, joins_eq_of_listed hargs,
      Kind.joins, Kind.endsExpr, Expr.parts]
    omega
  | .index hcollection hposition =>
    simp [hcollection.joins_eq, hcollection.lastEnds_eq, hposition.joins_eq,
      Kind.joins, Kind.endsExpr, Expr.parts]
    omega
  | .ident | .int _ | .str | .true | .false => simp [Expr.parts]
  | .group h => rw [joins_group, h.joins_eq]
  | .array h =>
    simp [joins_eq_of_listed h, Kind.joins, Kind.endsExpr, Expr.parts]
  | .hash h =>
    simp [joins_eq_of_listed_pairs h, Kind.joins, Kind.endsExpr, Expr.parts]
  | .cond hcondition hconsequence =>
    simp [hcondition.joins_eq, hconsequence.joins_eq, Kind.joins,
      Kind.endsExpr, Expr.parts, Nat.add_assoc]
  | .condElse hcondition hconsequence halternative =>
    simp [hcondition.joins_eq, hconsequence.joins_eq, halternative.joins_eq,
      Kind.joins, Kind.endsExpr, Expr.parts, Nat.add_assoc]
  | .fn hparams hbody =>
    simp [joins_eq_of_listed_named hparams, hbody.joins_eq, Kind.joins,
      Kind.endsExpr, Expr.parts]

theorem joins_eq_of_listed {ts : List Kind} {es : List Expr}
    (h : Listed (Expr.Derives .equality) ts es) :
    joins false ts = applications (partsExprs es) := by
  match h with
  | .nil => rfl
  | .last h => simp [h.joins_eq, partsExprs]
  | .more h hrest =>
    simp [h.joins_eq, joins_eq_of_listed hrest, Kind.joins, Kind.endsExpr,
      partsExprs, Nat.add_assoc]

theorem joins_eq_of_listed_pairs {ts : List Kind} {ps : List (Expr × Expr)}
    (h : Listed (Paired (Expr.Derives .equality)) ts ps) :
    joins false ts = applications (partsPairs ps) := by
  match h with
  | .nil => rfl
  | .last (.pair hkey hvalue) =>
    simp [hkey.joins_eq, hvalue.joins_eq, Kind.joins, Kind.endsExpr, partsPairs,
      Nat.add_assoc]
  | .more (.pair hkey hvalue) hrest =>
    simp [hkey.joins_eq, hvalue.joins_eq, joins_eq_of_listed_pairs hrest,
      Kind.joins, Kind.endsExpr, partsPairs, Nat.add_assoc]

/-- The same for statements. -/
theorem Stmt.Derives.joins_eq {ts : List Kind} {s : Stmt}
    (h : Stmt.Derives ts s) :
    joins false ts = applications (.stmt s :: s.parts) := by
  match h with
  | .bind h => simp [h.joins_eq, Kind.joins, Kind.endsExpr, Stmt.parts]
  | .ret h => simp [h.joins_eq, Kind.endsExpr, Stmt.parts]
  | .expr h => simp [h.joins_eq, Stmt.parts]

/-- **The joins of a token list are the calls and indices of the body it
derives.** -/
theorem Body.joins_eq {ts : List Kind} {ss : Block} (h : Body ts ss) :
    joins false ts = applications (partsStmts ss) := by
  match h with
  | .nil => rfl
  | .semicolon h => simp [h.joins_eq, Kind.endsExpr]
  | .cons hs hapart hrest =>
    -- Two statements without a semicolon between them do not join.
    rw [joins_append, hapart.joins_eq, hs.joins_eq, hrest.joins_eq, partsStmts,
      applications_append]

end

/-! ## The joins of a rendered program -/

/-- An expression is written with a parenthesis or a bracket at its front
exactly if it is bracketed. -/
theorem Expr.any_head?_kinds (e : Expr) :
    e.kinds.head?.any Kind.joins = e.isBracketed := by
  match e with
  | .call callee args =>
    obtain ⟨k, ks, hks, -⟩ := callee.kinds_begins
    rw [Expr.kinds, Expr.isBracketed, ← callee.any_head?_kinds, hks]
    rfl
  | .bool true | .bool false | .ident _ | .int _ | .str _ | .array _ | .hash _
  | .unary _ _ | .binary _ _ _ | .cond _ _ none | .cond _ _ (some _) | .fn _ _
  | .index _ _ => simp [Expr.kinds, Expr.isBracketed, Kind.joins]

/-- What an expression is written in ends an expression. -/
theorem Expr.lastEnds_kinds (e : Expr) (before : Bool) :
    lastEnds before e.kinds := by
  match e with
  | .bool true | .bool false | .ident _ | .int _ | .str _ | .array _ | .hash _
  | .unary _ _ | .binary _ _ _ | .cond _ _ none | .cond _ _ (some _) | .fn _ _
  | .call _ _ | .index _ _ => simp [Expr.kinds, Kind.endsExpr]

/-- The first statement joins what stands before it only if it is an
expression. -/
theorem joins_true_kindsStmts (e : Expr) (ss : List Stmt) :
    joins true (kindsStmts ss)
      = ((Stmt.expr e).runsInto ss).toNat + joins false (kindsStmts ss) := by
  rw [joins_true]
  congr 2
  match ss with
  | [] => rfl
  | .bind _ _ :: _ | .ret _ :: _ =>
    simp [kindsStmts, Stmt.kinds, Stmt.runsInto, Kind.joins]
  | .expr e' :: ss =>
    obtain ⟨k, ks, hks, -⟩ := e'.kinds_begins
    rw [kindsStmts, Stmt.kinds, Stmt.runsInto, ← e'.any_head?_kinds, hks]
    rfl

/-- A comma makes no join. -/
theorem joins_commas_cons (ks : List Kind) (kss : List (List Kind)) :
    joins false (commas (ks :: kss))
      = joins false ks + joins false (commas kss) := by
  cases kss with
  | nil => simp [commas]
  | cons ls kss => simp [commas, Kind.joins, Kind.endsExpr]

theorem joins_commas_params (params : List String) :
    joins false (commas (params.map fun p => [.ident p])) = 0 := by
  induction params with
  | nil => rfl
  | cons p params ih =>
    rw [List.map_cons, joins_commas_cons, ih]
    rfl

mutual

/-- **The tokens of an expression have a join for every call, every index and
every seam.** -/
theorem Expr.joins_kinds (e : Expr) :
    joins false e.kinds = applications (.expr e :: e.parts)
      + seamsWithin (.expr e :: e.parts) := by
  match e with
  | .ident _ | .int _ | .str _ | .bool _ =>
    simp [Expr.kinds, Expr.parts, Expr.ownBlocks]
  | .array es =>
    have hes := joins_kindsExprs es
    simp [Expr.kinds, Expr.parts, Expr.ownBlocks, Kind.joins, Kind.endsExpr,
      hes]
  | .hash ps =>
    have hps := joins_kindsPairs ps
    simp [Expr.kinds, Expr.parts, Expr.ownBlocks, Kind.joins, Kind.endsExpr,
      hps]
  | .unary op operand =>
    have hoperand := operand.joins_kinds
    rw [Expr.kinds, ← List.cons_append, joins_group]
    simp [Expr.parts, Expr.ownBlocks, hoperand]
  | .binary op left right =>
    have hleft := left.joins_kinds
    have hright := right.joins_kinds
    have hgroup := joins_group (left.kinds ++ op.kind :: right.kinds)
    rw [List.append_assoc, List.cons_append] at hgroup
    rw [Expr.kinds, hgroup]
    simp [Expr.parts, Expr.ownBlocks, hleft, hright]
    omega
  | .cond condition consequence none =>
    have hcondition := condition.joins_kinds
    have hconsequence := joins_kindsStmts consequence
    simp [Expr.kinds, Expr.parts, Expr.ownBlocks, Kind.joins, Kind.endsExpr,
      hcondition, hconsequence]
    omega
  | .cond condition consequence (some alternative) =>
    have hcondition := condition.joins_kinds
    have hconsequence := joins_kindsStmts consequence
    have halternative := joins_kindsStmts alternative
    simp [Expr.kinds, Expr.parts, Expr.ownBlocks, Kind.joins, Kind.endsExpr,
      hcondition, hconsequence, halternative]
    omega
  | .fn params body =>
    have hbody := joins_kindsStmts body
    simp [Expr.kinds, Expr.parts, Expr.ownBlocks, Kind.joins, Kind.endsExpr,
      joins_commas_params, hbody]
    omega
  | .call callee args =>
    have hcallee := callee.joins_kinds
    have hargs := joins_kindsExprs args
    simp [Expr.kinds, Expr.parts, Expr.ownBlocks, Kind.joins, Kind.endsExpr,
      callee.lastEnds_kinds, hcallee, hargs]
    omega
  | .index collection position =>
    have hcollection := collection.joins_kinds
    have hposition := position.joins_kinds
    simp [Expr.kinds, Expr.parts, Expr.ownBlocks, Kind.joins, Kind.endsExpr,
      collection.lastEnds_kinds, hcollection, hposition]
    omega

theorem joins_kindsExprs (es : List Expr) :
    joins false (commas (kindsExprs es))
      = applications (partsExprs es) + seamsWithin (partsExprs es) := by
  match es with
  | [] => rfl
  | e :: es =>
    rw [kindsExprs, joins_commas_cons, e.joins_kinds, joins_kindsExprs es,
      partsExprs, applications_append, seamsWithin_append]
    omega

theorem joins_kindsPairs (ps : List (Expr × Expr)) :
    joins false (commas (kindsPairs ps))
      = applications (partsPairs ps) + seamsWithin (partsPairs ps) := by
  match ps with
  | [] => rfl
  | (key, value) :: ps =>
    have hkey := key.joins_kinds
    have hvalue := value.joins_kinds
    rw [kindsPairs, joins_commas_cons, joins_kindsPairs ps]
    simp [partsPairs, Kind.joins, Kind.endsExpr, hkey, hvalue]
    omega

/-- **The tokens of statements have a join for every call, every index and
every seam**, those of the statements themselves and those in their blocks. -/
theorem joins_kindsStmts (ss : List Stmt) :
    joins false (kindsStmts ss)
      = applications (partsStmts ss) + seams ss
        + seamsWithin (partsStmts ss) := by
  match ss with
  | [] => rfl
  | .bind name value :: ss =>
    have hvalue := value.joins_kinds
    have hss := joins_kindsStmts ss
    simp [kindsStmts, Stmt.kinds, partsStmts, Stmt.parts, seams, Stmt.runsInto,
      Kind.joins, Kind.endsExpr, hvalue, hss]
    omega
  | .ret value :: ss =>
    have hvalue := value.joins_kinds
    have hss := joins_kindsStmts ss
    simp [kindsStmts, Stmt.kinds, partsStmts, Stmt.parts, seams, Stmt.runsInto,
      Kind.joins, Kind.endsExpr, hvalue, hss]
    omega
  | .expr value :: ss =>
    -- The only statement with an expression at its end.
    rw [kindsStmts, Stmt.kinds, joins_append, value.lastEnds_kinds,
      joins_true_kindsStmts value, value.joins_kinds, joins_kindsStmts ss]
    simp [partsStmts, Stmt.parts, seams]
    omega

end

/-- **The tokens of a body that has a seam do not derive it.** -/
theorem Body.no_seams {ss : List Stmt} (h : Body (kindsStmts ss) ss) :
    seams ss = 0 ∧ seamsWithin (partsStmts ss) = 0 := by
  have hderived := h.joins_eq
  rw [joins_kindsStmts] at hderived
  omega

end Monkey
