import Monkey.Proofs.Derivation

/-!
# Reading recognizes the grammar

A token list is read as a program exactly if the grammar derives the program
from it (`Program.ofTokens_eq_ok_iff`), and so is a source, which is read
through its tokens (`Program.parse_eq_ok_iff`). That what is read is derived
is in `Monkey.Proofs.Derivation`; here is the other direction.

`Expr.Reads` says of a token list and a tree what the reader has to do with
them, wherever they stand: with any precedence for which the layer is read
whole, and before anything that does not go on with a part of them. It is
stated with what is read *behind* the expression, because the left operand of
an operator is itself read by the loop that goes on with the operator. Each
rule of the grammar then holds of `Reads` in place of `Derives`, and a
derivation is read by applying them one after the other.
-/

namespace Monkey

open Token (Kind)
open Reading

/-! ## What may follow -/

/-- **What may stand behind an expression of the layer**: nothing that binds
more tightly than the operators of the layer, and no alternative. -/
def Cursor.Follows (l : Layer) (c : Cursor) : Prop :=
  ∀ t ∈ c.tokens.head?, t.kind.precedence ≤ l.ceiling ∧ t.kind ≠ .kwElse

theorem Cursor.Follows.next {l : Layer} {c : Cursor} (h : c.Follows l) :
    c.Follows l.next :=
  fun t ht => ⟨Nat.le_trans (h t ht).1 l.ceiling_le_next, (h t ht).2⟩

theorem Cursor.Follows.stops {l : Layer} {c : Cursor} (h : c.Follows l) :
    c.Stops l.ceiling :=
  fun t ht => (h t ht).1

/-- **Where every expression ends**: at a token that goes on with none. -/
def Cursor.Ends (c : Cursor) : Prop :=
  ∀ t ∈ c.tokens.head?, t.kind.precedence = .lowest ∧ t.kind ≠ .kwElse

theorem Cursor.Ends.stops {c : Cursor} (h : c.Ends) (p : Precedence) :
    c.Stops p := by
  intro t ht
  rw [(h t ht).1]
  exact Nat.zero_le _

theorem Cursor.Ends.follows {c : Cursor} (h : c.Ends) (l : Layer) :
    c.Follows l :=
  fun t ht => ⟨h.stops _ t ht, (h t ht).2⟩

theorem Cursor.ends_before (c : Cursor) {t : Token}
    (ht : t.kind.precedence = .lowest ∧ t.kind ≠ .kwElse) (ts : List Token) :
    (c.before (t :: ts)).Ends := by
  intro u hu
  obtain rfl : t = u := by simpa using hu
  exact ht

/-- The tokens that close a list. -/
def Token.Kind.closes : Kind → Bool
  | .rightParen | .rightBracket | .rightBrace => true
  | _ => false

theorem Token.Kind.closes_spec {k : Kind} (h : k.closes) :
    k ≠ .comma ∧ k ≠ .kwElse ∧ k.precedence = .lowest ∧ ¬ k.beginsExpr := by
  revert h
  cases k <;> simp [closes, precedence, continuation?, BinaryOp.ofKind?,
    beginsExpr]

/-- Every expression ends behind an element of a list. -/
theorem Cursor.ends_separator {close : Kind} (hclose : close.closes)
    {t : Token} (ht : t.kind = .comma ∨ t.kind = close) (c : Cursor) :
    (c.before [t]).Ends := by
  refine c.ends_before ?_ []
  obtain ht | ht := ht
  · rw [ht]
    decide
  · rw [ht]
    exact ⟨(Kind.closes_spec hclose).2.2.1, (Kind.closes_spec hclose).2.1⟩

/-- Where the reading stops, an expression is complete. -/
theorem Expr.extend_of_stops {p : Precedence} {c : Cursor} (h : c.Stops p)
    (e : Expr) : (Expr.extend p e c).Gives e c :=
  Expr.gives_extend.2 (.inl ⟨h, rfl, rfl⟩)

/-! ## Expressions that are read -/

/-- **The token kinds are read as the expression**, as one of the layer: a
reading of tokens of these kinds has the expression complete behind them, and
goes on with it from there. -/
structure Expr.Reads (l : Layer) (ts : List Kind) (e : Expr) : Prop where
  begins : ∃ k ks, ts = k :: ks ∧ k.beginsExpr
  gives : ∀ ⦃us : List Token⦄, us.map Token.kind = ts → ∀ ⦃c : Cursor⦄,
    c.Follows l → ∀ ⦃p : Precedence⦄, p ≤ l.floor → ∀ ⦃e' : Expr⦄ ⦃d : Cursor⦄,
    (Expr.extend p e c).Gives e' d → (Expr.read p (c.before us)).Gives e' d

/-- **The token kinds are read as the rest of a block**, if its closing brace
is behind them. -/
def Block.Reads (ts : List Kind) (b : Block) : Prop :=
  ∀ ⦃us : List Token⦄, us.map Token.kind = ts ++ [.rightBrace] →
    ∀ c : Cursor, (Block.readRest (c.before us)).Gives b c.closeBlock

/-- A block is read behind its opening brace. -/
theorem Block.Reads.read {ts : List Kind} {b : Block} (h : Block.Reads ts b)
    {us : List Token} (hus : us.map Token.kind = ts ++ [.rightBrace])
    (c : Cursor) : (Block.read (c.before us)).Gives b c := by
  rw [Block.read]
  exact h hus c.openBlock

namespace Expr.Reads

variable {l : Layer} {ts us vs : List Kind} {e : Expr}

/-- The expression is read alone where the reading stops behind it. -/
theorem read (h : Expr.Reads l ts e) {xs : List Token}
    (hxs : xs.map Token.kind = ts) {c : Cursor} (hc : c.Follows l)
    {p : Precedence} (hp : p ≤ l.floor) (hstops : c.Stops p) :
    (Expr.read p (c.before xs)).Gives e c :=
  h.gives hxs hc hp (Expr.extend_of_stops hstops e)

/-- The whole expression is read where every expression ends. -/
theorem readWhole (h : Expr.Reads .equality ts e) {xs : List Token}
    (hxs : xs.map Token.kind = ts) {c : Cursor} (hc : c.Ends) :
    (Expr.read .lowest (c.before xs)).Gives e c :=
  h.read hxs (hc.follows _) (Nat.le_refl _) (hc.stops _)

theorem readFrom (h : Expr.Reads .equality ts e) {x : Token} {xs : List Token}
    (hxs : (x :: xs).map Token.kind = ts) {c : Cursor} (hc : c.Ends) :
    (Expr.readFrom .lowest x (c.before xs)).Gives e c := by
  obtain ⟨t, c₁, heq, hread⟩ := Expr.gives_read.1 (h.readWhole hxs hc)
  obtain ⟨rfl, rfl⟩ := Cursor.mk_cons_eq_before.1 heq
  exact hread

theorem loosen (h : Expr.Reads l.next ts e) : Expr.Reads l ts e where
  begins := h.begins
  gives _ hus _ hc _ hp _ _ hd :=
    h.gives hus hc.next (Nat.le_trans hp l.floor_le_next) hd

/-- What is read behind its first token as an operand is an expression. -/
theorem ofOperand {k : Kind} {ks : List Kind} (hbegin : k.beginsExpr)
    (h : ∀ {x : Token} {xs : List Token} {c : Cursor}, x.kind = k →
      xs.map Token.kind = ks → c.Follows l →
      (Expr.readOperand x (c.before xs)).Gives e c) :
    Expr.Reads l (k :: ks) e where
  begins := ⟨k, ks, rfl, hbegin⟩
  gives xs hxs c hc p hp e' d hd := by
    obtain ⟨x, xs, rfl, hx, hxs⟩ := List.map_eq_cons_iff.1 hxs
    refine Expr.gives_read.2 ⟨x, c.before xs, by simp, ?_⟩
    exact Expr.gives_readFrom.2 ⟨e, c, h hx hxs hc, hd⟩

/-- A token that is an operand alone. -/
theorem literal {k : Kind} (hbegin : k.beginsExpr)
    (h : ∀ (x : Token) (c : Cursor), x.kind = k →
      Expr.readOperand x c = succeed e c) : Expr.Reads .primary [k] e := by
  refine ofOperand hbegin ?_
  intro x xs c hx hxs _
  obtain rfl := List.map_eq_nil_iff.1 hxs
  rw [Cursor.before_nil, h x c hx]
  exact gives_succeed.2 ⟨rfl, rfl⟩

/-- **A continuation**: the token behind the left operand takes it, and the
reading goes on with what the continuation makes of it. -/
theorem continueWith {k : Kind} {left : Expr} (cont : Continuation)
    (hk : k.continuation? = some cont) (hl : cont.precedence = l.ceiling)
    (hlt : l.floor < l.ceiling) (hleft : Expr.Reads l ts left)
    (h : ∀ {xs : List Token} {c : Cursor}, xs.map Token.kind = us →
      c.Follows l → (Expr.continueWith cont left (c.before xs)).Gives e c) :
    Expr.Reads l (ts ++ k :: us) e where
  begins := by
    obtain ⟨k', ks, rfl, hk'⟩ := hleft.begins
    exact ⟨k', ks ++ k :: us, rfl, hk'⟩
  gives xs hxs c hc p hp e' d hd := by
    obtain ⟨ys, zs, rfl, hys, hrest⟩ := List.map_eq_append_iff.1 hxs
    obtain ⟨z, zs, rfl, rfl, hzs⟩ := List.map_eq_cons_iff.1 hrest
    have hprec : z.kind.precedence = l.ceiling := by
      rw [Kind.precedence_of_some hk, hl]
    -- The left operand is read up to the token, whose precedence is the one
    -- that the layer allows behind it.
    have hfollows : ((c.before zs).before [z]).Follows l := by
      intro u hu
      obtain rfl : z = u := by simpa using hu
      refine ⟨Nat.le_of_eq (congrArg Precedence.rank hprec), ?_⟩
      intro helse
      rw [helse] at hk
      cases hk
    have hext : (Expr.extend p left ((c.before zs).before [z])).Gives e' d :=
      Expr.gives_extend.2 (.inr ⟨z, c.before zs, rfl, cont, e, c, hk,
        by rw [hl]; exact Nat.lt_of_le_of_lt hp hlt, h hzs hc, hd⟩)
    have hxs : c.before (ys ++ z :: zs)
        = ((c.before zs).before [z]).before ys := by simp
    rw [hxs]
    exact hleft.gives hys hfollows hp hext

theorem binary {k : Kind} {op : BinaryOp} {left right : Expr}
    (hk : (k, op) ∈ l.operators) (hleft : Expr.Reads l ts left)
    (hright : Expr.Reads l.next us right) :
    Expr.Reads l (ts ++ k :: us) (.binary op left right) := by
  obtain ⟨hcont, hop, hlt, hle⟩ := Layer.continuation?_of_mem_operators hk
  refine hleft.continueWith (.binary op) hcont hop hlt ?_
  intro xs c hxs hc
  rw [Expr.continueWith, hop]
  exact (hright.read hxs hc.next hle hc.stops).map _

theorem unary {op : UnaryOp} (h : Expr.Reads .unary ts e) :
    Expr.Reads .unary (op.kind :: ts) (.unary op e) := by
  refine ofOperand op.beginsExpr_kind ?_
  intro x xs c hx hxs hc
  have hread := h.read hxs hc (Nat.le_refl _) hc.stops
  rw [Expr.readOperand, hx]
  cases op with
  | minus => exact hread.map _
  | bang => exact hread.map _

/-- An expression does not begin with a token that closes a list. -/
theorem exists_cons (close : Kind) (hclose : close.closes)
    (h : Expr.Reads l ts e) {xs : List Token}
    (hxs : xs.map Token.kind = ts) :
    ∃ y ys, xs = y :: ys ∧ y.kind ≠ close := by
  obtain ⟨k, ks, rfl, hk⟩ := h.begins
  obtain ⟨y, ys, rfl, rfl, -⟩ := List.map_eq_cons_iff.1 hxs
  refine ⟨y, ys, rfl, ?_⟩
  rintro rfl
  exact (Kind.closes_spec hclose).2.2.2 hk

/-- The elements of a list are read one after the other. -/
theorem gives_list {close : Kind} (hclose : close.closes) {es : List Expr}
    (hes : Listed (Expr.Reads .equality) ts es) {xs : List Token} {x : Token}
    {c : Cursor} (hxs : xs.map Token.kind = ts) (hx : x.kind = close) :
    (list close (fun t c _ => Expr.readFrom .lowest t c)
      (c.before (xs ++ [x])) (Nat.le_refl _)).Gives es c := by
  refine gives_list_of_listed (Kind.closes_spec hclose).1 ?_ hes hxs hx rfl
  intro ys e s d he hs
  obtain ⟨y, ys, rfl, hy⟩ := he.exists_cons close hclose rfl
  exact ⟨y, ys, rfl, hy,
    fun _ => he.readFrom rfl (Cursor.ends_separator hclose hs d)⟩

/-- The pairs of a list are read one after the other. -/
theorem gives_pairs {ps : List (Expr × Expr)}
    (hps : Listed (Paired (Expr.Reads .equality)) ts ps) {xs : List Token}
    {x : Token} {c : Cursor} (hxs : xs.map Token.kind = ts)
    (hx : x.kind = .rightBrace) :
    (list .rightBrace (fun t c _ => Expr.readPair t c)
      (c.before (xs ++ [x])) (Nat.le_refl _)).Gives ps c := by
  refine gives_list_of_listed (by decide) ?_ hps hxs hx rfl
  intro ys p s d hp hs
  generalize hks : ys.map Token.kind = ks at hp
  obtain ⟨hkey, hvalue⟩ := hp
  obtain ⟨us, vs, rfl, hus, hrest⟩ := List.map_eq_append_iff.1 hks
  obtain ⟨v, vs, rfl, hv, hvs⟩ := List.map_eq_cons_iff.1 hrest
  obtain ⟨u, us, rfl, hu⟩ := hkey.exists_cons .rightBrace rfl hus
  refine ⟨u, us ++ v :: vs, rfl, hu, ?_⟩
  intro _
  have hcolon : (((d.before [s]).before vs).before [v]).Ends :=
    Cursor.ends_before _ (by rw [hv]; decide) []
  have heq : (d.before [s]).before (us ++ v :: vs)
      = (((d.before [s]).before vs).before [v]).before us := by simp
  rw [heq, Expr.readPair]
  refine (hkey.readFrom hus hcolon).andThen fun _ => ?_
  refine (expect_before hv _).andThen fun _ => ?_
  exact (hvalue.readWhole hvs (Cursor.ends_separator rfl hs d)).map _

theorem call {callee : Expr} {args : List Expr}
    (h : Expr.Reads .applied ts callee)
    (hargs : Listed (Expr.Reads .equality) us args) :
    Expr.Reads .applied (ts ++ .leftParen :: (us ++ [.rightParen]))
      (.call callee args) := by
  refine h.continueWith .call rfl rfl (by decide) ?_
  intro xs c hxs _
  obtain ⟨ys, zs, rfl, hys, hzs⟩ := List.map_eq_append_iff.1 hxs
  obtain ⟨z, rfl, hz⟩ := List.map_eq_singleton_iff.1 hzs
  rw [Expr.continueWith]
  exact (gives_list rfl hargs hys hz).map _

theorem index {collection position : Expr}
    (h : Expr.Reads .applied ts collection)
    (hposition : Expr.Reads .equality us position) :
    Expr.Reads .applied (ts ++ .leftBracket :: (us ++ [.rightBracket]))
      (.index collection position) := by
  refine h.continueWith .index rfl rfl (by decide) ?_
  intro xs c hxs _
  obtain ⟨ys, zs, rfl, hys, hzs⟩ := List.map_eq_append_iff.1 hxs
  obtain ⟨z, rfl, hz⟩ := List.map_eq_singleton_iff.1 hzs
  have hends : (c.before [z]).Ends := c.ends_before (by rw [hz]; decide) []
  rw [← Cursor.before_before, Expr.continueWith]
  refine (hposition.readWhole hys hends).andThen fun _ => ?_
  exact (expect_before hz c).map _

theorem group (h : Expr.Reads .equality ts e) :
    Expr.Reads .primary (.leftParen :: (ts ++ [.rightParen])) e := by
  refine ofOperand rfl ?_
  intro x xs c hx hxs _
  obtain ⟨ys, zs, rfl, hys, hzs⟩ := List.map_eq_append_iff.1 hxs
  obtain ⟨z, rfl, hz⟩ := List.map_eq_singleton_iff.1 hzs
  have hends : (c.before [z]).Ends := c.ends_before (by rw [hz]; decide) []
  rw [← Cursor.before_before, Expr.readOperand, hx]
  refine (h.readWhole hys hends).andThen fun _ => ?_
  exact (expect_before hz c).map _

theorem array {elements : List Expr}
    (h : Listed (Expr.Reads .equality) ts elements) :
    Expr.Reads .primary (.leftBracket :: (ts ++ [.rightBracket]))
      (.array elements) := by
  refine ofOperand rfl ?_
  intro x xs c hx hxs _
  obtain ⟨ys, zs, rfl, hys, hzs⟩ := List.map_eq_append_iff.1 hxs
  obtain ⟨z, rfl, hz⟩ := List.map_eq_singleton_iff.1 hzs
  rw [Expr.readOperand, hx]
  exact (gives_list rfl h hys hz).map _

theorem hash {pairs : List (Expr × Expr)}
    (h : Listed (Paired (Expr.Reads .equality)) ts pairs) :
    Expr.Reads .primary (.leftBrace :: (ts ++ [.rightBrace]))
      (.hash pairs) := by
  refine ofOperand rfl ?_
  intro x xs c hx hxs _
  obtain ⟨ys, zs, rfl, hys, hzs⟩ := List.map_eq_append_iff.1 hxs
  obtain ⟨z, rfl, hz⟩ := List.map_eq_singleton_iff.1 hzs
  rw [Expr.readOperand, hx]
  exact (gives_pairs h hys hz).map _

/-- A conditional ends with its consequence if no alternative follows. -/
theorem cond {condition : Expr} {consequence : Block}
    (h : Expr.Reads .equality ts condition) (hb : Block.Reads us consequence) :
    Expr.Reads .primary (.kwIf :: (ts ++ .leftBrace :: (us ++ [.rightBrace])))
      (.cond condition consequence none) := by
  refine ofOperand rfl ?_
  intro x xs c hx hxs hc
  obtain ⟨ys, zs, rfl, hys, hrest⟩ := List.map_eq_append_iff.1 hxs
  obtain ⟨z, zs, rfl, hz, hrest⟩ := List.map_eq_cons_iff.1 hrest
  have hends : (((c.before zs)).before [z]).Ends :=
    Cursor.ends_before _ (by rw [hz]; decide) []
  have heq : c.before (ys ++ z :: zs)
      = ((c.before zs).before [z]).before ys := by simp
  rw [heq, Expr.readOperand, hx]
  refine (h.readWhole hys hends).andThen fun _ => ?_
  refine (expect_before hz _).andThen fun _ => ?_
  refine (hb.read hrest c).andThen fun _ => ?_
  have helse : (Expr.readElse c).Gives none c :=
    Expr.gives_readElse.2 (.inl ⟨fun t ht => (hc t ht).2, rfl, rfl⟩)
  exact helse.map _

theorem condElse {condition : Expr} {consequence alternative : Block}
    (h : Expr.Reads .equality ts condition) (hb : Block.Reads us consequence)
    (ha : Block.Reads vs alternative) :
    Expr.Reads .primary
      (.kwIf :: (ts ++ .leftBrace :: (us ++ .rightBrace :: .kwElse ::
        .leftBrace :: (vs ++ [.rightBrace]))))
      (.cond condition consequence (some alternative)) := by
  refine ofOperand rfl ?_
  intro x xs c hx hxs hc
  obtain ⟨ys, zs, rfl, hys, hrest⟩ := List.map_eq_append_iff.1 hxs
  obtain ⟨z, zs, rfl, hz, hrest⟩ := List.map_eq_cons_iff.1 hrest
  rw [List.append_cons] at hrest
  obtain ⟨zs, ws, rfl, hzs, hrest⟩ := List.map_eq_append_iff.1 hrest
  obtain ⟨w, ws, rfl, hw, hrest⟩ := List.map_eq_cons_iff.1 hrest
  obtain ⟨w', ws, rfl, hw', hws⟩ := List.map_eq_cons_iff.1 hrest
  have hends : ((c.before (zs ++ w :: w' :: ws)).before [z]).Ends :=
    Cursor.ends_before _ (by rw [hz]; decide) []
  have heq : c.before (ys ++ z :: (zs ++ w :: w' :: ws))
      = ((c.before (zs ++ w :: w' :: ws)).before [z]).before ys := by simp
  rw [heq, Expr.readOperand, hx]
  refine (h.readWhole hys hends).andThen fun _ => ?_
  refine (expect_before hz _).andThen fun _ => ?_
  rw [← Cursor.before_before]
  refine (hb.read hzs _).andThen fun _ => ?_
  have helse : (Expr.readElse (c.before (w :: w' :: ws))).Gives
      (some alternative) c :=
    Expr.gives_readElse.2 (.inr ⟨w, c.before (w' :: ws), by simp, hw, w',
      c.before ws, hw', by simp, alternative, ha.read hws c, rfl⟩)
  exact helse.map _

theorem fn {params : List String} {body : Block} (h : Listed Named ts params)
    (hb : Block.Reads us body) :
    Expr.Reads .primary
      (.kwFn :: .leftParen :: (ts ++ .rightParen :: .leftBrace ::
        (us ++ [.rightBrace])))
      (.fn params body) := by
  refine ofOperand rfl ?_
  intro x xs c hx hxs hc
  obtain ⟨y, ys, rfl, hy, hrest⟩ := List.map_eq_cons_iff.1 hxs
  obtain ⟨ys, ws, rfl, hys, hrest⟩ := List.map_eq_append_iff.1 hrest
  obtain ⟨w, ws, rfl, hw, hrest⟩ := List.map_eq_cons_iff.1 hrest
  obtain ⟨z, zs, rfl, hz, hzs⟩ := List.map_eq_cons_iff.1 hrest
  have heq : c.before (y :: (ys ++ w :: z :: zs))
      = (((c.before zs).before [z]).before (ys ++ [w])).before [y] := by simp
  rw [heq, Expr.readOperand, hx]
  refine (expect_before hy _).andThen fun _ => ?_
  have hparams : (list .rightParen (fun t c _ => nameOf t c)
      (((c.before zs).before [z]).before (ys ++ [w]))
      (Nat.le_refl _)).Gives params ((c.before zs).before [z]) := by
    refine gives_list_of_listed (by decide) ?_ h hys hw rfl
    intro ts n s d hn _
    generalize hks : ts.map Token.kind = ks at hn
    cases hn
    obtain ⟨t, rfl, ht⟩ := List.map_eq_singleton_iff.1 hks
    refine ⟨t, [], rfl, by rw [ht]; simp, fun _ => ?_⟩
    exact gives_nameOf.2 ⟨ht, rfl⟩
  refine hparams.andThen fun _ => ?_
  refine (expect_before hz _).andThen fun _ => ?_
  exact (hb.read hzs c).map _

end Expr.Reads

/-! ## Statements and bodies that are read -/

/-- **The token kinds are read as the statement** where every expression
ends. -/
structure Stmt.Reads (ts : List Kind) (s : Stmt) : Prop where
  begins : ∃ k ks, ts = k :: ks ∧ k.beginsStmt
  gives : ∀ ⦃t : Token⦄ ⦃us : List Token⦄, (t :: us).map Token.kind = ts →
    ∀ ⦃c : Cursor⦄, c.Ends → (Stmt.readFrom t (c.before us)).Gives s c

namespace Stmt.Reads

variable {ts : List Kind} {e : Expr}

theorem bind (h : Expr.Reads .equality ts e) (n : String) :
    Stmt.Reads (.kwLet :: .ident n :: .assign :: ts) (.bind n e) where
  begins := ⟨_, _, rfl, rfl⟩
  gives t us hus c hc := by
    obtain ⟨ht, hus⟩ := List.cons.inj hus
    obtain ⟨u, us, rfl, hu, hus⟩ := List.map_eq_cons_iff.1 hus
    obtain ⟨v, vs, rfl, hv, hvs⟩ := List.map_eq_cons_iff.1 hus
    have heq : c.before (u :: v :: vs)
        = ((c.before vs).before [v]).before [u] := by simp
    rw [heq, Stmt.readFrom, ht]
    refine (gives_name.2 ⟨u, hu, rfl⟩).andThen fun _ => ?_
    refine (expect_before hv _).andThen fun _ => ?_
    exact (h.readWhole hvs hc).map _

theorem ret (h : Expr.Reads .equality ts e) :
    Stmt.Reads (.kwReturn :: ts) (.ret e) where
  begins := ⟨_, _, rfl, rfl⟩
  gives t us hus c hc := by
    obtain ⟨ht, hus⟩ := List.cons.inj hus
    rw [Stmt.readFrom, ht]
    exact (h.readWhole hus hc).map _

theorem expr (h : Expr.Reads .equality ts e) : Stmt.Reads ts (.expr e) where
  begins := by
    obtain ⟨k, ks, rfl, hk⟩ := h.begins
    exact ⟨k, ks, rfl, Kind.beginsStmt_of_beginsExpr hk⟩
  gives t us hus c hc := by
    obtain ⟨k, ks, rfl, hk⟩ := h.begins
    obtain rfl : t.kind = k := (List.cons.inj hus).1
    have hread := (h.readFrom hus hc).map Stmt.expr
    rw [Stmt.readFrom]
    split
    · rename_i ht
      rw [ht] at hk
      cases hk
    · rename_i ht
      rw [ht] at hk
      cases hk
    · exact hread

end Stmt.Reads

namespace Block.Reads

variable {ts us : List Kind} {ss : Block}

theorem nil : Block.Reads [] [] := by
  intro us hus c
  obtain ⟨u, rfl, hu⟩ := List.map_eq_singleton_iff.1 hus
  exact Block.gives_readRest.2 ⟨u, c, rfl, .inr (.inl ⟨hu, rfl, rfl⟩)⟩

theorem semicolon (h : Block.Reads ts ss) :
    Block.Reads (.semicolon :: ts) ss := by
  intro us hus c
  obtain ⟨u, us, rfl, hu, hus⟩ := List.map_eq_cons_iff.1 hus
  exact Block.gives_readRest.2
    ⟨u, c.before us, by simp, .inl ⟨hu, h hus c⟩⟩

/-- A statement is read before a body that is apart from it. -/
theorem cons {s : Stmt} (hs : Stmt.Reads ts s)
    (hends : ∀ {c : Cursor} {xs : List Token},
      xs.map Token.kind = us ++ [.rightBrace] → (c.before xs).Ends)
    (h : Block.Reads us ss) : Block.Reads (ts ++ us) (s :: ss) := by
  intro xs hxs c
  rw [List.append_assoc] at hxs
  obtain ⟨ys, zs, rfl, hys, hzs⟩ := List.map_eq_append_iff.1 hxs
  obtain ⟨k, ks, rfl, hk⟩ := hs.begins
  obtain ⟨y, ys, rfl, rfl, -⟩ := List.map_eq_cons_iff.1 hys
  refine Block.gives_readRest.2
    ⟨y, (c.before zs).before ys, by simp, .inr (.inr ⟨?_, ?_, ?_⟩)⟩
  · intro hy
    rw [hy] at hk
    cases hk
  · intro hy
    rw [hy] at hk
    cases hk
  · exact ⟨s, c.before zs, hs.gives hys (hends hzs), ss, h hzs c, rfl⟩

end Block.Reads

/-! ## What is derived is read -/

/-- A token that begins a statement and is none of the three that could go on
with the one before ends every expression. -/
theorem Token.Kind.ends_of_beginsStmt {k : Kind} (h : k.beginsStmt)
    (hapart : k ≠ .minus ∧ k ≠ .leftParen ∧ k ≠ .leftBracket) :
    k.precedence = .lowest ∧ k ≠ .kwElse := by
  revert h hapart
  cases k <;> simp [beginsStmt, beginsExpr, precedence, continuation?,
    BinaryOp.ofKind?]

/-- **Every expression ends before a body** that is apart from it. -/
theorem Body.ends {ts : List Kind} {ss : Block} (h : Body ts ss)
    (hapart : Apart ts) (us : List Kind)
    (hus : ∀ k ∈ us.head?, k.precedence = .lowest ∧ k ≠ .kwElse) {c : Cursor}
    (hc : c.tokens.map Token.kind = ts ++ us) : c.Ends := by
  intro t ht
  have hhead : t.kind ∈ (ts ++ us).head? := by
    rw [← hc, List.head?_map]
    exact Option.mem_map_of_mem _ ht
  cases h with
  | nil => exact hus _ hhead
  | semicolon _ =>
    have ht : Kind.semicolon = t.kind := by simpa using hhead
    rw [← ht]
    decide
  | cons hs _ _ =>
    obtain ⟨k, ks, rfl, hk⟩ := hs.begins
    obtain rfl : k = t.kind := by simpa using hhead
    exact Kind.ends_of_beginsStmt hk (hapart _ rfl)

mutual

/-- **A derivation of an expression is read.** -/
theorem Expr.Derives.reads {l : Layer} {ts : List Kind} {e : Expr}
    (h : Expr.Derives l ts e) : Expr.Reads l ts e := by
  match h with
  | .loosen h => exact h.reads.loosen
  | .binary hk hl hr => exact .binary hk hl.reads hr.reads
  | .unary h => exact .unary h.reads
  | .call h hargs => exact .call h.reads (Expr.reads_of_listed hargs)
  | .index h hposition => exact .index h.reads hposition.reads
  | .ident => exact .literal rfl fun x c hx => by rw [Expr.readOperand, hx]
  | .int hle =>
    refine .literal rfl ?_
    intro x c hx
    have hparse := Integer.parse?_eq_some_iff.2 ⟨hle, rfl⟩
    rw [Expr.readOperand, hx]
    simp only [hparse]
    rfl
  | .str => exact .literal rfl fun x c hx => by rw [Expr.readOperand, hx]
  | .true => exact .literal rfl fun x c hx => by rw [Expr.readOperand, hx]
  | .false => exact .literal rfl fun x c hx => by rw [Expr.readOperand, hx]
  | .group h => exact .group h.reads
  | .array h => exact .array (Expr.reads_of_listed h)
  | .hash h => exact .hash (Expr.reads_of_pairs h)
  | .cond h hb => exact .cond h.reads hb.reads
  | .condElse h hb ha => exact .condElse h.reads hb.reads ha.reads
  | .fn h hb => exact .fn h hb.reads

theorem Expr.reads_of_listed {ts : List Kind} {es : List Expr}
    (h : Listed (Expr.Derives .equality) ts es) :
    Listed (Expr.Reads .equality) ts es := by
  match h with
  | .nil => exact .nil
  | .last h => exact .last h.reads
  | .more h hs => exact .more h.reads (Expr.reads_of_listed hs)

theorem Expr.reads_of_pairs {ts : List Kind} {ps : List (Expr × Expr)}
    (h : Listed (Paired (Expr.Derives .equality)) ts ps) :
    Listed (Paired (Expr.Reads .equality)) ts ps := by
  match h with
  | .nil => exact .nil
  | .last (.pair hk hv) => exact .last (.pair hk.reads hv.reads)
  | .more (.pair hk hv) hs =>
    exact .more (.pair hk.reads hv.reads) (Expr.reads_of_pairs hs)

theorem Stmt.Derives.reads {ts : List Kind} {s : Stmt}
    (h : Stmt.Derives ts s) : Stmt.Reads ts s := by
  match h with
  | .bind h => exact .bind h.reads _
  | .ret h => exact .ret h.reads
  | .expr h => exact .expr h.reads

theorem Body.reads {ts : List Kind} {ss : Block} (h : Body ts ss) :
    Block.Reads ts ss := by
  match h with
  | .nil => exact .nil
  | .semicolon h => exact h.reads.semicolon
  | .cons hs hapart h =>
    refine .cons hs.reads ?_ h.reads
    intro c xs hxs
    refine h.ends hapart (.rightBrace :: c.tokens.map Token.kind) ?_ ?_
    · rintro k ⟨⟩
      decide
    · rw [Cursor.tokens_before, List.map_append, hxs]
      simp

end

/-- **The statements of a body are read one after the other**, and then what
stands behind it, if that cannot go on with a statement. -/
theorem Body.readAll_append {ts : List Kind} {ss : Block} (h : Body ts ss)
    {xs rest : List Token} {n : Nat} (hxs : xs.map Token.kind = ts)
    (hrest : ∀ k ∈ (rest.map Token.kind).head?,
      k.precedence = .lowest ∧ k ≠ .kwElse) :
    Stmt.readAll ⟨xs ++ rest, n⟩
      = (ss ++ (Stmt.readAll ⟨rest, n⟩).1, (Stmt.readAll ⟨rest, n⟩).2) := by
  match h with
  | .nil =>
    obtain rfl : xs = [] := List.map_eq_nil_iff.1 hxs
    rfl
  | .semicolon h =>
    obtain ⟨x, xs, rfl, hx, hxs⟩ := List.map_eq_cons_iff.1 hxs
    exact (Stmt.readAll_semicolon hx).trans (h.readAll_append hxs hrest)
  | @Body.cons _ us s ss hs hapart h =>
    obtain ⟨xs, ys, rfl, hxs, hys⟩ := List.map_eq_append_iff.1 hxs
    obtain ⟨k, ks, rfl, hk⟩ := hs.begins
    obtain ⟨x, xs, rfl, rfl, -⟩ := List.map_eq_cons_iff.1 hxs
    have hends : (Cursor.mk (ys ++ rest) n).Ends :=
      h.ends hapart (rest.map Token.kind) hrest (by rw [List.map_append, hys])
    have hgives : (Stmt.readFrom x ⟨xs ++ (ys ++ rest), n⟩).Gives s
        ⟨ys ++ rest, n⟩ := hs.reads.gives hxs hends
    have hx : x.kind ≠ .semicolon := by
      intro hx
      rw [hx] at hk
      cases hk
    rw [List.append_assoc]
    refine (Stmt.readAll_statement hx hgives).trans ?_
    rw [h.readAll_append hys hrest]
    rfl

/-- The statements of a body are read without an error. -/
theorem Body.readAll {ts : List Kind} {ss : Block} (h : Body ts ss)
    {c : Cursor} (hc : c.tokens.map Token.kind = ts) :
    Stmt.readAll c = (ss, []) := by
  have hread : Stmt.readAll ⟨c.tokens ++ [], c.nesting⟩ = _ :=
    h.readAll_append hc (by simp)
  rwa [List.append_nil, Stmt.readAll_nil, List.append_nil] at hread

/-- **A token list is a program** exactly if its kinds derive the program. -/
theorem Program.ofTokens_eq_ok_iff {ts : List Token} {program : Program} :
    Program.ofTokens ts = .ok program
      ↔ program.Derives (ts.map Token.kind) := by
  have hread : Program.ofTokens ts = .ok program
      ↔ Stmt.readAll (.start ts) = (program.statements, []) := by
    unfold Program.ofTokens Program.parseLenient
    obtain ⟨statements, errors⟩ := Stmt.readAll (.start ts)
    obtain ⟨statements'⟩ := program
    cases errors with
    | nil => simp
    | cons e es => simp
  rw [hread]
  constructor
  · intro h
    exact Stmt.body_of_readAll h
  · intro h
    exact h.readAll rfl

/-- **Reading recognizes the grammar**: a source is read as a program exactly
if the kinds of its tokens derive the program. -/
theorem Program.parse_eq_ok_iff (source : String) (program : Program) :
    Program.parse source = .ok program
      ↔ program.Derives ((Token.scan source).map Token.kind) := by
  unfold Program.parse
  exact Program.ofTokens_eq_ok_iff

end Monkey
