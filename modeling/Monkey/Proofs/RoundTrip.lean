import Monkey.Proofs.Partition
import Monkey.Proofs.Recognition
import Monkey.Proofs.Seams

/-!
# Reading a rendered program

When does the text of a program read as the program again? The trees that a
source is read as can all be written (`Body.writable`): their names are names,
their strings have no quotes and their integers no sign. So the tokens of the
text are those of the tree, and it remains to ask whether these tokens derive
the tree. They do if no block has a seam (`Body.of_no_seams`), for the renderer
leaves nothing to precedences; and only then, by the count of joins.

The text of a program shows its seams: an expression is written with a
parenthesis or a bracket at its front exactly if it is an operator application,
an index, an array, or a call of such an expression (`Expr.opens_render_iff`).
-/

namespace Monkey

open Token (Kind)

/-! ## Decimal texts -/

namespace Integer

theorem toList_render {value : Int64} (h : 0 ≤ value.toInt) :
    (render value).toList = Nat.toDigits 10 value.toInt.toNat := by
  rw [render, Int.toString_eq_repr, Int.repr_eq_if, if_pos h,
    Nat.repr_eq_ofList_toDigits, String.toList_ofList]

/-- **The text of an integer without a sign stands for it.** -/
theorem ofDigits_render {value : Int64} (h : 0 ≤ value.toInt) :
    ofDigits (render value).toList = value.toInt.toNat := by
  rw [toList_render h, ofDigits, ← Nat.ofDigitChars_eq_foldl,
    Nat.ofDigitChars_ten_toDigits]

/-- An integer can be written as a token exactly if it has no sign. -/
theorem isSpelled_render_iff {value : Int64} :
    (Kind.int (render value)).IsSpelled ↔ 0 ≤ value.toInt := by
  constructor
  · rintro ⟨text, rfl, -, hdigits⟩
    by_contra hneg
    have hminus : '-' ∈ (render value).toList := by
      rw [render, Int.toString_eq_repr, Int.repr_eq_if, if_neg hneg,
        String.toList_append]
      exact List.mem_append_left _ (by decide)
    exact absurd (hdigits _ hminus) (by decide)
  · intro h
    refine ⟨_, rfl, ?_, ?_⟩ <;> rw [toList_render h]
    · exact Nat.toDigits_ne_nil
    · intro c hc
      exact Nat.isDigit_of_mem_toDigits (by decide) (by decide) hc

/-- The integers that digits stand for have no sign. -/
theorem toInt_ofNat_nonneg {n : Nat} (h : n ≤ 9223372036854775807) :
    0 ≤ (Int64.ofNat n).toInt := by
  rw [Int64.toInt_ofNat_of_lt (by omega)]
  exact Int.natCast_nonneg n

end Integer

/-! ## The trees of a source can be written -/

/-- The tokens of a source can be written: it is where they are written. -/
theorem Token.writable_scan (source : String) :
    Writable ((Token.scan source).map Token.kind) := by
  intro k hk
  obtain ⟨t, ht, rfl⟩ := List.mem_map.1 hk
  obtain ⟨_, text, _, -, -, -, hspell, -⟩ := Token.split_of_mem_scan ht
  exact ⟨text, hspell⟩

section Writable

variable {ks ls : List Kind}

theorem Writable.mono (h : Writable ls) (hsub : ∀ k ∈ ks, k ∈ ls) :
    Writable ks :=
  fun k hk => h k (hsub k hk)

theorem Writable.append (hks : Writable ks) (hls : Writable ls) :
    Writable (ks ++ ls) :=
  writable_append.2 ⟨hks, hls⟩

theorem Writable.cons {k : Kind} (hk : k.isFixed) (hks : Writable ks) :
    Writable (k :: ks) :=
  writable_cons.2 ⟨Kind.isSpelled_of_isFixed hk, hks⟩

/-- Tokens between two that have one spelling. -/
theorem Writable.enclosed {left right : Kind} (hleft : left.isFixed)
    (hks : Writable ks) (hright : right.isFixed) :
    Writable (left :: (ks ++ [right])) :=
  .cons hleft (.append hks (.cons hright writable_nil))

end Writable

theorem UnaryOp.isFixed_kind (op : UnaryOp) : op.kind.isFixed := by
  cases op <;> rfl

theorem BinaryOp.isFixed_kind (op : BinaryOp) : op.kind.isFixed := by
  cases op <;> rfl

theorem Listed.writable_params {ts : List Kind} {params : List String}
    (h : Listed Named ts params) (hts : Writable ts) :
    Writable (commas (params.map fun p => [.ident p])) := by
  induction h with
  | nil => exact writable_nil
  | last h =>
    cases h
    exact hts
  | more h _ ih =>
    cases h
    rw [List.map_cons, writable_commas_cons]
    exact ⟨hts.mono (by simp), ih (hts.mono (by simp +contextual))⟩

mutual

/-- **The expression that written tokens derive can be written.** -/
theorem Expr.Derives.writable {l : Layer} {ts : List Kind} {e : Expr}
    (h : Expr.Derives l ts e) (hts : Writable ts) : Writable e.kinds := by
  match h with
  | .loosen h => exact h.writable hts
  | .binary _ hleft hright =>
    have hleft := hleft.writable (hts.mono (by simp +contextual))
    have hright := hright.writable (hts.mono (by simp +contextual))
    rw [Expr.kinds]
    exact .cons rfl (.append hleft (.cons (BinaryOp.isFixed_kind _)
      (.append hright (.cons rfl writable_nil))))
  | .unary h =>
    have h := h.writable (hts.mono (by simp +contextual))
    rw [Expr.kinds]
    exact .enclosed rfl (.cons (UnaryOp.isFixed_kind _) h) rfl
  | .call hcallee hargs =>
    have hcallee := hcallee.writable (hts.mono (by simp +contextual))
    have hargs := writable_of_listed hargs (hts.mono (by simp +contextual))
    rw [Expr.kinds]
    exact .append hcallee (.enclosed rfl hargs rfl)
  | .index hcollection hposition =>
    have hcollection := hcollection.writable (hts.mono (by simp +contextual))
    have hposition := hposition.writable (hts.mono (by simp +contextual))
    rw [Expr.kinds]
    exact .cons rfl (.append hcollection
      (.cons rfl (.append hposition (.cons rfl (.cons rfl writable_nil)))))
  | .int hdigits =>
    rw [Expr.kinds, writable_cons, Integer.isSpelled_render_iff]
    exact ⟨Integer.toInt_ofNat_nonneg hdigits, writable_nil⟩
  | .ident | .str | .true | .false => exact hts
  | .group h => exact h.writable (hts.mono (by simp +contextual))
  | .array h =>
    have h := writable_of_listed h (hts.mono (by simp +contextual))
    rw [Expr.kinds]
    exact .enclosed rfl h rfl
  | .hash h =>
    have h := writable_of_listed_pairs h (hts.mono (by simp +contextual))
    rw [Expr.kinds]
    exact .enclosed rfl h rfl
  | .cond hcondition hconsequence =>
    have hcondition := hcondition.writable (hts.mono (by simp +contextual))
    have hconsequence := hconsequence.writable (hts.mono (by simp +contextual))
    rw [Expr.kinds]
    exact .cons rfl (.append hcondition (.enclosed rfl hconsequence rfl))
  | .condElse hcondition hconsequence halternative =>
    have hcondition := hcondition.writable (hts.mono (by simp +contextual))
    have hconsequence := hconsequence.writable (hts.mono (by simp +contextual))
    have halternative := halternative.writable (hts.mono (by simp +contextual))
    rw [Expr.kinds]
    exact .cons rfl (.append hcondition (.cons rfl (.append hconsequence
      (.cons rfl (.cons rfl (.enclosed rfl halternative rfl))))))
  | .fn hparams hbody =>
    have hparams := hparams.writable_params (hts.mono (by simp +contextual))
    have hbody := hbody.writable (hts.mono (by simp +contextual))
    rw [Expr.kinds]
    exact .cons rfl (.cons rfl (.append hparams
      (.cons rfl (.enclosed rfl hbody rfl))))

theorem writable_of_listed {ts : List Kind} {es : List Expr}
    (h : Listed (Expr.Derives .equality) ts es) (hts : Writable ts) :
    Writable (commas (kindsExprs es)) := by
  match h with
  | .nil => exact writable_nil
  | .last h => exact h.writable hts
  | .more h hrest =>
    rw [kindsExprs, writable_commas_cons]
    exact ⟨h.writable (hts.mono (by simp +contextual)),
      writable_of_listed hrest (hts.mono (by simp +contextual))⟩

theorem writable_of_listed_pairs {ts : List Kind} {ps : List (Expr × Expr)}
    (h : Listed (Paired (Expr.Derives .equality)) ts ps) (hts : Writable ts) :
    Writable (commas (kindsPairs ps)) := by
  match h with
  | .nil => exact writable_nil
  | .last (.pair hkey hvalue) =>
    have hkey := hkey.writable (hts.mono (by simp +contextual))
    have hvalue := hvalue.writable (hts.mono (by simp +contextual))
    exact .append hkey (.cons rfl hvalue)
  | .more (.pair hkey hvalue) hrest =>
    have hkey := hkey.writable (hts.mono (by simp +contextual))
    have hvalue := hvalue.writable (hts.mono (by simp +contextual))
    rw [kindsPairs, writable_commas_cons]
    exact ⟨.append hkey (.cons rfl hvalue),
      writable_of_listed_pairs hrest (hts.mono (by simp +contextual))⟩

theorem Stmt.Derives.writable {ts : List Kind} {s : Stmt}
    (h : Stmt.Derives ts s) (hts : Writable ts) : Writable s.kinds := by
  match h with
  | .bind h =>
    rw [writable_cons, writable_cons, writable_cons] at hts
    have h := h.writable hts.2.2.2
    rw [Stmt.kinds, writable_cons, writable_cons, writable_cons]
    exact ⟨hts.1, hts.2.1, hts.2.2.1, .append h (.cons rfl writable_nil)⟩
  | .ret h =>
    have h := h.writable (hts.mono (by simp +contextual))
    rw [Stmt.kinds]
    exact .enclosed rfl h rfl
  | .expr h => exact h.writable hts

/-- **The statements that written tokens derive can be written.** -/
theorem Body.writable {ts : List Kind} {ss : Block} (h : Body ts ss)
    (hts : Writable ts) : Writable (kindsStmts ss) := by
  match h with
  | .nil => exact writable_nil
  | .semicolon h => exact h.writable (hts.mono (by simp +contextual))
  | .cons hs _ hrest =>
    rw [kindsStmts]
    exact .append (hs.writable (hts.mono (by simp +contextual)))
      (hrest.writable (hts.mono (by simp +contextual)))

end

/-! ## The tokens of a tree without seams -/

theorem listed_commas {α : Type} {D : List Kind → α → Prop}
    {kss : List (List Kind)} {as : List α} (h : List.Forall₂ D kss as) :
    Listed D (commas kss) as := by
  induction h with
  | nil => exact .nil
  | cons hfirst hrest ih =>
    cases hrest with
    | nil => exact .last hfirst
    | cons _ _ => exact .more hfirst ih

theorem forall₂_named (params : List String) :
    List.Forall₂ Named (params.map fun p => [.ident p]) params := by
  induction params with
  | nil => exact .nil
  | cons p params ih => exact .cons .name ih

/-- Nothing is written with a minus at its front. -/
theorem Expr.head?_kinds_ne_minus (e : Expr) :
    e.kinds.head? ≠ some .minus := by
  match e with
  | .call callee args =>
    obtain ⟨k, ks, hks, -⟩ := callee.kinds_begins
    have hcallee := callee.head?_kinds_ne_minus
    rw [hks] at hcallee
    rw [Expr.kinds, hks]
    exact hcallee
  | .bool true | .bool false | .ident _ | .int _ | .str _ | .array _ | .hash _
  | .unary _ _ | .binary _ _ _ | .cond _ _ none | .cond _ _ (some _) | .fn _ _
  | .index _ _ => simp [Expr.kinds]

/-- An expression that is not bracketed may follow another directly. -/
theorem Expr.apart_kinds {e : Expr} (h : ¬ e.isBracketed) (ks : List Kind) :
    Apart (e.kinds ++ ks) := by
  obtain ⟨k, ls, hk, -⟩ := e.kinds_begins
  have hminus := e.head?_kinds_ne_minus
  rw [← e.any_head?_kinds] at h
  rw [hk] at h hminus ⊢
  intro k' hk'
  obtain rfl : k = k' := Option.some.inj hk'
  refine ⟨fun hk => hminus (congrArg some hk), ?_, ?_⟩ <;>
    rintro rfl <;> exact h rfl

theorem apart_semicolon {ks : List Kind} : Apart (.semicolon :: ks) := by
  intro k hk
  obtain rfl := Option.some.inj hk
  decide

theorem apart_kindsStmts {e : Expr} {ss : List Stmt}
    (h : (Stmt.expr e).runsInto ss = false) : Apart (kindsStmts ss) := by
  match ss with
  | [] => exact fun k hk => by cases hk
  | .bind _ _ :: _ | .ret _ :: _ =>
    intro k hk
    obtain rfl := Option.some.inj hk
    decide
  | .expr e' :: ss =>
    rw [kindsStmts, Stmt.kinds]
    exact e'.apart_kinds (by rw [Stmt.runsInto] at h; simp [h]) _

/-- The text of an integer without a sign derives it. -/
theorem Integer.derives_render {value : Int64} (h : 0 ≤ value.toInt) :
    Expr.Derives .primary [.int (render value)] (.int value) := by
  have hlt := value.toInt_lt
  have hrange : ofDigits (render value).toList ≤ 9223372036854775807 := by
    rw [ofDigits_render h]
    omega
  have hderives := Expr.Derives.int hrange
  rwa [ofDigits_render h, ← Int64.ofInt_eq_ofNat, Int.toNat_of_nonneg h,
    Int64.ofInt_toInt] at hderives

/-- Expressions of the layer of calls are expressions. -/
theorem Expr.Derives.operand {ts : List Kind} {e : Expr}
    (h : Expr.Derives .applied ts e) : Expr.Derives .equality ts e :=
  h.loosenTo (by decide)

/-- Every operator can stand between two expressions of the layer of calls: they
are of the layers it asks for. -/
theorem Expr.Derives.ofOperands {ts us : List Kind} {left right : Expr}
    (hleft : Expr.Derives .applied ts left) (op : BinaryOp)
    (hright : Expr.Derives .applied us right) :
    Expr.Derives .equality (ts ++ op.kind :: us) (.binary op left right) := by
  have hop : (op.kind, op) ∈ op.layer.operators := by
    cases op <;> decide
  have hleft := hleft.loosenTo (l := op.layer) (by cases op <;> decide)
  have hright := hright.loosenTo (l := op.layer.next) (by cases op <;> decide)
  exact (Expr.Derives.binary hop hleft hright).loosenTo (Nat.zero_le _)

mutual

/-- **The tokens of an expression without seams derive it**, as an operand:
whatever needs parentheses is written with them. -/
theorem Expr.derives_kinds (e : Expr) (hw : Writable e.kinds)
    (hs : seamsOfAll e.ownBlocks + seamsWithin e.parts = 0) :
    Expr.Derives .applied e.kinds e := by
  match e with
  | .ident _ => exact .loosen .ident
  | .int value =>
    have hspelled := hw _ (List.mem_singleton.2 rfl)
    exact .loosen (Integer.derives_render
      (Integer.isSpelled_render_iff.1 hspelled))
  | .str _ => exact .loosen .str
  | .bool true => exact .loosen .true
  | .bool false => exact .loosen .false
  | .array elements =>
    rw [Expr.kinds] at hw ⊢
    rw [Expr.parts] at hs
    have helements := Expr.forall₂_kindsExprs elements
      (hw.mono (by simp +contextual)) (by omega)
    exact .loosen (.array (listed_commas helements))
  | .hash pairs =>
    rw [Expr.kinds] at hw ⊢
    rw [Expr.parts] at hs
    have hpairs := Expr.forall₂_kindsPairs pairs
      (hw.mono (by simp +contextual)) (by omega)
    exact .loosen (.hash (listed_commas hpairs))
  | .unary op operand =>
    rw [Expr.kinds] at hw ⊢
    simp only [Expr.parts, seamsWithin_cons, Node.ownBlocks] at hs
    have hoperand := operand.derives_kinds
      (hw.mono (by simp +contextual)) (by omega)
    have hunary : Expr.Derives .unary (op.kind :: operand.kinds)
        (.unary op operand) := .unary (.loosen hoperand)
    exact .loosen (.group (hunary.loosenTo (by decide)))
  | .binary op left right =>
    rw [Expr.kinds] at hw ⊢
    simp only [Expr.parts, seamsWithin_cons, seamsWithin_append,
      Node.ownBlocks] at hs
    have hleft := left.derives_kinds
      (hw.mono (by simp +contextual)) (by omega)
    have hright := right.derives_kinds
      (hw.mono (by simp +contextual)) (by omega)
    have hgroup := Expr.Derives.group (Expr.Derives.ofOperands hleft op hright)
    rw [List.append_assoc, List.cons_append] at hgroup
    exact .loosen hgroup
  | .cond condition consequence none =>
    rw [Expr.kinds] at hw ⊢
    rw [Expr.ownBlocks] at hs
    simp only [Expr.parts, seamsOfAll, seamsWithin_cons, seamsWithin_append,
      Node.ownBlocks] at hs
    have hcondition := condition.derives_kinds
      (hw.mono (by simp +contextual)) (by omega)
    have hconsequence := Body.of_no_seams consequence
      (hw.mono (by simp +contextual)) (by omega) (by omega)
    exact .loosen (.cond hcondition.operand hconsequence)
  | .cond condition consequence (some alternative) =>
    rw [Expr.kinds] at hw ⊢
    rw [Expr.ownBlocks] at hs
    simp only [Expr.parts, seamsOfAll, seamsWithin_cons, seamsWithin_append,
      Node.ownBlocks] at hs
    have hcondition := condition.derives_kinds
      (hw.mono (by simp +contextual)) (by omega)
    have hconsequence := Body.of_no_seams consequence
      (hw.mono (by simp +contextual)) (by omega) (by omega)
    have halternative := Body.of_no_seams alternative
      (hw.mono (by simp +contextual)) (by omega) (by omega)
    exact .loosen (.condElse hcondition.operand hconsequence halternative)
  | .fn params body =>
    rw [Expr.kinds] at hw ⊢
    rw [Expr.ownBlocks, Expr.parts, seamsOfAll, seamsOfAll] at hs
    have hbody := Body.of_no_seams body
      (hw.mono (by simp +contextual)) (by omega) (by omega)
    exact .loosen (.fn (listed_commas (forall₂_named params)) hbody)
  | .call callee args =>
    rw [Expr.kinds] at hw ⊢
    simp only [Expr.parts, seamsWithin_cons, seamsWithin_append,
      Node.ownBlocks] at hs
    have hcallee := callee.derives_kinds
      (hw.mono (by simp +contextual)) (by omega)
    have hargs := Expr.forall₂_kindsExprs args
      (hw.mono (by simp +contextual)) (by omega)
    exact .call hcallee (listed_commas hargs)
  | .index collection position =>
    rw [Expr.kinds] at hw ⊢
    simp only [Expr.parts, seamsWithin_cons, seamsWithin_append,
      Node.ownBlocks] at hs
    have hcollection := collection.derives_kinds
      (hw.mono (by simp +contextual)) (by omega)
    have hposition := position.derives_kinds
      (hw.mono (by simp +contextual)) (by omega)
    -- The parentheses around an index are not needed, but they are written.
    have hgroup := Expr.Derives.group
      (Expr.Derives.index hcollection hposition.operand).operand
    simp only [List.append_assoc, List.cons_append, List.nil_append] at hgroup
    exact .loosen hgroup

theorem Expr.forall₂_kindsExprs (es : List Expr)
    (hw : Writable (commas (kindsExprs es)))
    (hs : seamsWithin (partsExprs es) = 0) :
    List.Forall₂ (Expr.Derives .equality) (kindsExprs es) es := by
  match es with
  | [] => exact .nil
  | e :: es =>
    rw [kindsExprs, writable_commas_cons] at hw
    simp only [partsExprs, seamsWithin_cons, seamsWithin_append,
      Node.ownBlocks] at hs
    exact .cons (e.derives_kinds hw.1 (by omega)).operand
      (Expr.forall₂_kindsExprs es hw.2 (by omega))

theorem Expr.forall₂_kindsPairs (ps : List (Expr × Expr))
    (hw : Writable (commas (kindsPairs ps)))
    (hs : seamsWithin (partsPairs ps) = 0) :
    List.Forall₂ (Paired (Expr.Derives .equality)) (kindsPairs ps) ps := by
  match ps with
  | [] => exact .nil
  | (key, value) :: ps =>
    rw [kindsPairs, writable_commas_cons] at hw
    simp only [partsPairs, seamsWithin_cons, seamsWithin_append,
      Node.ownBlocks] at hs
    have hkey := key.derives_kinds
      (hw.1.mono (by simp +contextual)) (by omega)
    have hvalue := value.derives_kinds
      (hw.1.mono (by simp +contextual)) (by omega)
    exact .cons (.pair hkey.operand hvalue.operand)
      (Expr.forall₂_kindsPairs ps hw.2 (by omega))

/-- **The tokens of statements without seams derive them.** -/
theorem Body.of_no_seams (ss : List Stmt) (hw : Writable (kindsStmts ss))
    (hss : seams ss = 0) (hs : seamsWithin (partsStmts ss) = 0) :
    Body (kindsStmts ss) ss := by
  match ss with
  | [] => exact .nil
  | .bind name value :: ss =>
    rw [kindsStmts, Stmt.kinds] at hw ⊢
    simp only [partsStmts, Stmt.parts, seamsWithin_cons, seamsWithin_append,
      Node.ownBlocks] at hs
    rw [seams, Nat.add_eq_zero_iff] at hss
    have hvalue := value.derives_kinds
      (hw.mono (by simp +contextual)) (by omega)
    have hrest := Body.of_no_seams ss
      (hw.mono (by simp +contextual)) hss.2 (by omega)
    have hbody := Body.cons (.bind (n := name) hvalue.operand) apart_semicolon
      (.semicolon hrest)
    simpa using hbody
  | .ret value :: ss =>
    rw [kindsStmts, Stmt.kinds] at hw ⊢
    simp only [partsStmts, Stmt.parts, seamsWithin_cons, seamsWithin_append,
      Node.ownBlocks] at hs
    rw [seams, Nat.add_eq_zero_iff] at hss
    have hvalue := value.derives_kinds
      (hw.mono (by simp +contextual)) (by omega)
    have hrest := Body.of_no_seams ss
      (hw.mono (by simp +contextual)) hss.2 (by omega)
    have hbody := Body.cons (.ret hvalue.operand) apart_semicolon
      (.semicolon hrest)
    simpa using hbody
  | .expr value :: ss =>
    rw [kindsStmts, Stmt.kinds] at hw ⊢
    simp only [partsStmts, Stmt.parts, seamsWithin_cons, seamsWithin_append,
      Node.ownBlocks] at hs
    rw [seams, Nat.add_eq_zero_iff, Bool.toNat_eq_zero] at hss
    have hvalue := value.derives_kinds
      (hw.mono (by simp +contextual)) (by omega)
    have hrest := Body.of_no_seams ss
      (hw.mono (by simp +contextual)) hss.2 (by omega)
    -- No semicolon is written here, so what follows has to be apart by itself.
    exact .cons (.expr hvalue.operand) (apart_kindsStmts hss.1) hrest

end

/-! ## The round trip -/

/-- A text with a parenthesis or a bracket at its front. -/
def Opens (text : String) : Prop :=
  ∃ c ∈ text.toList.head?, c = '(' ∨ c = '['

theorem Opens.append {a : String} (h : Opens a) (b : String) :
    Opens (a ++ b) := by
  obtain ⟨c, hc, hopens⟩ := h
  refine ⟨c, ?_, hopens⟩
  rw [String.toList_append, List.head?_append, hc]
  rfl

theorem Expr.opens_render {e : Expr} (h : e.isBracketed) : Opens e.render := by
  match e with
  | .unary _ _ | .binary _ _ _ | .index _ _ =>
    exact ⟨'(', by simp [Expr.render], .inl rfl⟩
  | .array _ => exact ⟨'[', by simp [Expr.render], .inr rfl⟩
  | .call callee args =>
    have hcallee : Opens callee.render := Expr.opens_render h
    rw [Expr.render]
    exact ((hcallee.append _).append _).append _

/-- **What is written with a parenthesis or a bracket at its front** is an
operator application, an index, an array, or a call of such an expression. -/
theorem Expr.opens_render_iff {e : Expr} (hw : Writable e.kinds) :
    Opens e.render ↔ e.isBracketed := by
  constructor
  · rintro ⟨c, hc, hopens⟩
    obtain ⟨cs, htext⟩ := List.head?_eq_some_iff.1 hc
    have hkinds := Expr.writes hw [] (by simp)
    rw [List.append_nil, Text.kinds_nil, List.append_nil, htext] at hkinds
    rw [← e.any_head?_kinds, ← hkinds]
    -- The scanner takes the first character for a token of its own.
    obtain rfl | rfl := hopens
    · have hfirst : Text.kinds ('(' :: cs) = .leftParen :: Text.kinds cs :=
        writesAll_delimiter .leftParen rfl cs
      rw [hfirst]
      rfl
    · have hfirst : Text.kinds ('[' :: cs) = .leftBracket :: Text.kinds cs :=
        writesAll_delimiter .leftBracket rfl cs
      rw [hfirst]
      rfl
  · exact Expr.opens_render

/-- **The tokens of statements derive them** exactly if there are no seams. -/
theorem Body.kindsStmts_iff {ss : List Stmt} (hw : Writable (kindsStmts ss)) :
    Body (kindsStmts ss) ss ↔
      seams ss = 0 ∧ seamsWithin (partsStmts ss) = 0 := by
  constructor
  · exact Body.no_seams
  · rintro ⟨hss, hs⟩
    exact Body.of_no_seams ss hw hss hs

theorem Program.seams_blocks_iff {program : Program} :
    (seams program.statements = 0
      ∧ seamsWithin (partsStmts program.statements) = 0) ↔
      ∀ block ∈ program.blocks, seams block = 0 := by
  unfold Program.blocks Program.nodes seamsWithin
  rw [List.forall_mem_cons, seamsOfAll_eq_zero_iff]

/-- The programs that a source is read as can be written. -/
theorem Program.writable_of_parse {source : String} {program : Program}
    (h : Program.parse source = .ok program) :
    Writable (kindsStmts program.statements) := by
  unfold Program.parse at h
  exact (Program.ofTokens_eq_ok_iff.1 h).writable (Token.writable_scan source)

/-- **The text of a program reads as the program** exactly if none of its blocks
has a seam. -/
theorem Program.parse_render_iff_seams {program : Program}
    (hw : Writable (kindsStmts program.statements)) :
    Program.parse program.render = .ok program ↔
      ∀ block ∈ program.blocks, seams block = 0 := by
  unfold Program.parse
  rw [Program.ofTokens_eq_ok_iff, Program.map_kind_scan_render hw,
    Program.Derives, Body.kindsStmts_iff hw, Program.seams_blocks_iff]

/-- The expression statements of a block show whether they are bracketed. -/
theorem Program.opens_render_iff {program : Program}
    (hw : Writable (kindsStmts program.statements)) {block : Block}
    (hblock : block ∈ program.blocks) {e : Expr} (he : Stmt.expr e ∈ block) :
    Opens e.render ↔ e.isBracketed := by
  refine Expr.opens_render_iff fun k hk => ?_
  exact Program.writable_of_mem_blocks hw hblock k
    (mem_kindsStmts_of_mem he (by rwa [Stmt.kinds]))

/-- **The round trip.** The text of a program that was read from a source reads
as the same program exactly if in none of its statement lists, at any depth, an
expression statement is followed directly by one whose text begins with a
parenthesis or a bracket. These are the operator applications, the indices, the
arrays, and the calls of such expressions. -/
theorem Program.parse_render_iff {source : String} {program : Program}
    (h : Program.parse source = .ok program) :
    (Program.parse program.render = .ok program ↔
      ∀ block ∈ program.blocks, ∀ e e' : Expr,
        [.expr e, .expr e'] <:+: block → ¬ Opens e'.render)
    ∧ ∀ block ∈ program.blocks, ∀ e : Expr, .expr e ∈ block →
        (Opens e.render ↔ e.isBracketed) := by
  have hw := Program.writable_of_parse h
  constructor
  · rw [Program.parse_render_iff_seams hw]
    refine forall₂_congr fun block hblock => ?_
    rw [seams_eq_zero_iff]
    refine forall₃_congr fun e e' hinfix => ?_
    have he' : Stmt.expr e' ∈ block := hinfix.subset (by simp)
    rw [Program.opens_render_iff hw hblock he']
  · intro block hblock e he
    exact Program.opens_render_iff hw hblock he

/-- An array behind a name, in a block: the semicolon between them is not
written back, so the text reads as an index. -/
theorem Program.parse_render_ne :
    ∃ program, Program.parse "if (x) \x7b a; [1] \x7d" = .ok program
      ∧ Program.parse program.render ≠ .ok program := by
  have hparse : Program.parse "if (x) \x7b a; [1] \x7d"
      = .ok ⟨[.expr (.cond (.ident "x")
        [.expr (.ident "a"), .expr (.array [.int 1])] none)]⟩ := by
    decide +kernel
  refine ⟨_, hparse, fun hround => ?_⟩
  have hapart := (Program.parse_render_iff hparse).1.1 hround
    [.expr (.ident "a"), .expr (.array [.int 1])]
    (List.mem_cons_of_mem _ List.mem_cons_self) _ _ List.infix_rfl
  exact hapart (Expr.opens_render rfl)

end Monkey
