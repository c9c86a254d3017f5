import Monkey.Proofs.Beginning

/-!
# Braces of phrases

A phrase closes every brace that it opens, and the beginning of a phrase leaves
open the braces that the grammar of beginnings says it does (`Level`). Besides,
a semicolon stands in an expression or a statement only within braces: where
there is no brace there is no semicolon either. Bodies are the exception, since
there semicolons stand between statements; but a body is a part of a statement
only within braces.
-/

namespace Monkey

open Token (Kind)

/-- What a token adds to the number of open braces. -/
def Token.Kind.brace : Kind → Int
  | .leftBrace => 1
  | .rightBrace => -1
  | _ => 0

/-- **The number of braces opened less the number closed.** -/
def braces : List Kind → Int
  | [] => 0
  | k :: ks => k.brace + braces ks

@[simp] theorem braces_nil : braces [] = 0 := rfl

@[simp] theorem braces_cons (k : Kind) (ks : List Kind) :
    braces (k :: ks) = k.brace + braces ks := rfl

@[simp] theorem braces_append (ks ls : List Kind) :
    braces (ks ++ ls) = braces ks + braces ls := by
  induction ks with
  | nil => simp
  | cons k ks ih =>
    rw [List.cons_append, braces_cons, ih, braces_cons]
    omega

/-- A list without opening braces opens none. -/
theorem braces_nonpos {ks : List Kind} (h : .leftBrace ∉ ks) :
    braces ks ≤ 0 := by
  induction ks with
  | nil => exact Int.le_refl 0
  | cons k ks ih =>
    have hk : k.brace ≤ 0 := by
      cases k with
      | leftBrace => simp at h
      | rightBrace => decide
      | _ => exact Int.le_refl 0
    have hks := ih fun hmem => h (List.mem_cons_of_mem k hmem)
    rw [braces_cons]
    omega

/-- **The level of a token list**: it leaves `n` braces open, and a semicolon
stands in it only if a brace does. -/
structure Level (n : Nat) (ks : List Kind) : Prop where
  braces_eq : braces ks = n
  semicolon : .semicolon ∈ ks → .leftBrace ∈ ks

/-- Whether a token is neither a brace nor a semicolon. -/
def Token.Kind.isPlain : Kind → Bool
  | .leftBrace | .rightBrace | .semicolon => false
  | _ => true

theorem Token.Kind.brace_of_isPlain {k : Kind} (h : k.isPlain) :
    k.brace = 0 := by
  cases k <;> first | rfl | cases h

theorem Token.Kind.ne_semicolon_of_isPlain {k : Kind} (h : k.isPlain) :
    k ≠ .semicolon := by
  rintro rfl
  cases h

theorem Token.Kind.ne_leftBrace_of_isPlain {k : Kind} (h : k.isPlain) :
    k ≠ .leftBrace := by
  rintro rfl
  cases h

theorem UnaryOp.isPlain_kind (op : UnaryOp) : op.kind.isPlain := by
  cases op <;> rfl

theorem BinaryOp.isPlain_kind (op : BinaryOp) : op.kind.isPlain := by
  cases op <;> rfl

namespace Level

variable {n : Nat} {k : Kind} {ks ls : List Kind}

theorem nil : Level 0 [] := ⟨rfl, by simp⟩

/-- A token that is neither a brace nor a semicolon keeps the level. -/
theorem cons (hk : k.isPlain) (h : Level n ks) : Level n (k :: ks) where
  braces_eq := by
    rw [braces_cons, Kind.brace_of_isPlain hk, h.braces_eq, Int.zero_add]
  semicolon hmem := by
    refine List.mem_cons_of_mem k (h.semicolon ?_)
    exact (List.mem_cons.1 hmem).resolve_left
      (Kind.ne_semicolon_of_isPlain hk).symm

/-- What is closed does not change the level of what stands behind it. -/
theorem append (h : Level 0 ks) (h' : Level n ls) : Level n (ks ++ ls) where
  braces_eq := by
    rw [braces_append, h.braces_eq, h'.braces_eq]
    exact Int.zero_add _
  semicolon hmem :=
    List.mem_append.2 ((List.mem_append.1 hmem).imp h.semicolon h'.semicolon)

/-- Behind an expression and a token. -/
theorem append_cons (h : Level 0 ks) (hk : k.isPlain) (h' : Level n ls) :
    Level n (ks ++ k :: ls) :=
  h.append (h'.cons hk)

/-- Before a token that closes a bracket. -/
theorem close (h : Level 0 ks) (hk : k.isPlain) : Level 0 (ks ++ [k]) :=
  h.append_cons hk nil

/-- Behind an opening brace semicolons may stand everywhere. -/
theorem brace (h : braces ks = n) : Level (n + 1) (.leftBrace :: ks) where
  braces_eq := by
    rw [braces_cons, h]
    exact Int.add_comm 1 _
  semicolon _ := List.mem_cons_self

/-- Between braces semicolons may stand everywhere. -/
theorem enclosed (h : braces ks = 0) (h' : Level n ls) :
    Level n (.leftBrace :: (ks ++ .rightBrace :: ls)) where
  braces_eq := by
    simp only [braces_cons, braces_append, h, h'.braces_eq, Kind.brace]
    omega
  semicolon _ := List.mem_cons_self

end Level

/-! ## Phrases -/

theorem Listed.level_named {ts : List Kind} {params : List String}
    (h : Listed Named ts params) : Level 0 ts := by
  induction h with
  | nil => exact .nil
  | last h =>
    cases h
    exact .cons rfl .nil
  | more h _ ih =>
    cases h
    exact .cons rfl (.cons rfl ih)

mutual

/-- **An expression closes every brace that it opens.** -/
theorem Expr.Derives.level {l : Layer} {ts : List Kind} {e : Expr}
    (h : Expr.Derives l ts e) : Level 0 ts := by
  match h with
  | .loosen h => exact h.level
  | .binary hop hleft hright =>
    obtain rfl := Layer.kind_of_mem_operators hop
    exact hleft.level.append_cons (BinaryOp.isPlain_kind _) hright.level
  | .unary h => exact .cons (UnaryOp.isPlain_kind _) h.level
  | .call hcallee hargs =>
    exact hcallee.level.append_cons rfl ((Expr.level_of_listed hargs).close rfl)
  | .index hcollection hposition =>
    exact hcollection.level.append_cons rfl (hposition.level.close rfl)
  | .ident | .int _ | .str | .true | .false => exact .cons rfl .nil
  | .group h => exact .cons rfl (h.level.close rfl)
  | .array h => exact .cons rfl ((Expr.level_of_listed h).close rfl)
  | .hash h => exact .enclosed (Expr.level_of_pairs h).braces_eq .nil
  | .cond hcondition hconsequence =>
    exact .cons rfl
      (hcondition.level.append (.enclosed hconsequence.braces_eq .nil))
  | .condElse hcondition hconsequence halternative =>
    exact .cons rfl (hcondition.level.append (.enclosed hconsequence.braces_eq
      (.cons rfl (.enclosed halternative.braces_eq .nil))))
  | .fn hparams hbody =>
    exact .cons rfl (.cons rfl
      (hparams.level_named.append_cons rfl (.enclosed hbody.braces_eq .nil)))

theorem Expr.level_of_listed {ts : List Kind} {es : List Expr}
    (h : Listed (Expr.Derives .equality) ts es) : Level 0 ts := by
  match h with
  | .nil => exact .nil
  | .last h => exact h.level
  | .more h hrest => exact h.level.append_cons rfl (Expr.level_of_listed hrest)

theorem Expr.level_of_pairs {ts : List Kind} {ps : List (Expr × Expr)}
    (h : Listed (Paired (Expr.Derives .equality)) ts ps) : Level 0 ts := by
  match h with
  | .nil => exact .nil
  | .last (.pair hkey hvalue) => exact hkey.level.append_cons rfl hvalue.level
  | .more (.pair hkey hvalue) hrest =>
    exact (hkey.level.append_cons rfl hvalue.level).append_cons rfl
      (Expr.level_of_pairs hrest)

/-- **A statement closes every brace that it opens.** -/
theorem Stmt.Derives.level {ts : List Kind} {s : Stmt}
    (h : Stmt.Derives ts s) : Level 0 ts := by
  match h with
  | .bind h => exact .cons rfl (.cons rfl (.cons rfl h.level))
  | .ret h => exact .cons rfl h.level
  | .expr h => exact h.level

/-- **A body closes every brace that it opens.** -/
theorem Body.braces_eq {ts : List Kind} {ss : Block} (h : Body ts ss) :
    braces ts = 0 := by
  match h with
  | .nil => rfl
  | .semicolon h =>
    rw [braces_cons, h.braces_eq]
    rfl
  | .cons hs _ h =>
    rw [braces_append, hs.level.braces_eq, h.braces_eq]
    rfl

end

/-! ## Beginnings -/

theorem Listed.Begun.level_named {ts : List Kind} {bs : List Brace}
    (h : Listed.Begun Named Named.Begun ts bs) : Level bs.length ts := by
  induction h with
  | element h =>
    cases h with
    | nothing => exact .nil
    | whole => exact .cons rfl .nil
  | more h _ ih =>
    cases h
    exact .cons rfl (.cons rfl ih)

/-- A brace that a beginning has opened, before what it has opened within. -/
theorem Level.opened {bs : List Brace} {ts : List Kind} (b : Brace)
    (h : braces ts = bs.length) :
    Level (bs ++ [b]).length (.leftBrace :: ts) := by
  rw [List.length_append, List.length_singleton]
  exact .brace h

mutual

/-- **The beginning of an expression leaves open the braces that it has opened
last.** -/
theorem Expr.Begun.level {l : Layer} {ts : List Kind} {bs : List Brace}
    (h : Expr.Begun l ts bs) : Level bs.length ts := by
  match h with
  | .nothing => exact .nil
  | .whole h => exact h.level
  | .loosen h => exact h.level
  | .binary hop hleft hright =>
    obtain rfl := Layer.kind_of_mem_operators hop
    exact hleft.level.append_cons (BinaryOp.isPlain_kind _) hright.level
  | .unary h => exact .cons (UnaryOp.isPlain_kind _) h.level
  | .call hcallee hargs =>
    exact hcallee.level.append_cons rfl (Expr.Begun.level_of_listed hargs)
  | .index hcollection hposition =>
    exact hcollection.level.append_cons rfl hposition.level
  | .group h => exact .cons rfl h.level
  | .array h => exact .cons rfl (Expr.Begun.level_of_listed h)
  | .hash h => exact .opened .hash (Expr.Begun.level_of_pairs h).braces_eq
  | .condition h => exact .cons rfl h.level
  | .consequence hcondition hblock =>
    exact .cons rfl (hcondition.level.append (.opened .block hblock.braces_eq))
  | .otherwise hcondition hconsequence =>
    exact .cons rfl (hcondition.level.append
      (.enclosed hconsequence.braces_eq (.cons rfl .nil)))
  | .alternative hcondition hconsequence hblock =>
    exact .cons rfl (hcondition.level.append (.enclosed hconsequence.braces_eq
      (.cons rfl (.opened .block hblock.braces_eq))))
  | .fn => exact .cons rfl .nil
  | .params h => exact .cons rfl (.cons rfl h.level_named)
  | .signature h => exact .cons rfl (.cons rfl (h.level_named.close rfl))
  | .body hparams hblock =>
    exact .cons rfl (.cons rfl (hparams.level_named.append_cons rfl
      (.opened .block hblock.braces_eq)))

theorem Expr.Begun.level_of_listed {ts : List Kind} {bs : List Brace}
    (h : Listed.Begun (Expr.Derives .equality) (Expr.Begun .equality) ts bs) :
    Level bs.length ts := by
  match h with
  | .element h => exact h.level
  | .more h hrest =>
    exact h.level.append_cons rfl (Expr.Begun.level_of_listed hrest)

theorem Expr.Begun.level_of_pairs {ts : List Kind} {bs : List Brace}
    (h : Listed.Begun (Paired (Expr.Derives .equality))
      (Paired.Begun (Expr.Derives .equality) (Expr.Begun .equality)) ts bs) :
    Level bs.length ts := by
  match h with
  | .element (.key h) => exact h.level
  | .element (.value hkey h) => exact hkey.level.append_cons rfl h.level
  | .more (.pair hkey hvalue) hrest =>
    exact (hkey.level.append_cons rfl hvalue.level).append_cons rfl
      (Expr.Begun.level_of_pairs hrest)

/-- **The beginning of a statement leaves open the braces that it has opened
last.** -/
theorem Stmt.Begun.level {ts : List Kind} {bs : List Brace}
    (h : Stmt.Begun ts bs) : Level bs.length ts := by
  match h with
  | .bind => exact .cons rfl .nil
  | .target => exact .cons rfl (.cons rfl .nil)
  | .value h => exact .cons rfl (.cons rfl (.cons rfl h.level))
  | .ret h => exact .cons rfl h.level
  | .expr h => exact h.level

/-- The beginning of a body leaves open the braces that it says it does;
semicolons may stand in it anywhere. -/
theorem Body.Begun.braces_eq {ts : List Kind} {bs : List Brace}
    (h : Body.Begun ts bs) : braces ts = bs.length := by
  match h with
  | .stmt h => exact h.level.braces_eq
  | .semicolon h =>
    rw [braces_cons, h.braces_eq]
    exact Int.zero_add _
  | .cons hs _ h =>
    rw [braces_append, hs.level.braces_eq, h.braces_eq]
    exact Int.zero_add _

end

end Monkey
