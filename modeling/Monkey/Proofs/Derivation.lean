import Monkey.Program.Parse
import Monkey.Proofs.Success

/-!
# What is read is derived

An expression that the reader gives is derived, by the grammar, from the tokens
it has read, and so are statements and bodies (`Stmt.body_of_readAll`).

The reader compares *precedences* where the grammar has *layers*. Two numbers
tie them together. The `floor` of a layer is the tightest precedence for which
all expressions of the layer are read, so a reading for a precedence gives an
expression of a layer whose floor is not below it. The `ceiling` of a layer is
how tightly the next token may bind for the expression in front of it to be
the whole left operand. For the layers of binary operators it is the
precedence of the operators.

The loop that goes on with an expression keeps both: what it has so far is of a
layer whose floor is high enough, and the next token keeps to the ceiling of
that layer. The functions of the reader call each other in a circle, but every
circle passes through `Expr.readFrom` with a token less ahead. The induction is
therefore over the number of tokens, and its hypothesis, `Expr.DerivedBelow`,
speaks of `Expr.readFrom` alone.
-/

namespace Monkey

open Token (Kind)
open Reading

/-! ## Layers and precedences -/

namespace Layer

/-- The position of a layer, counted from the loosest. -/
def rank : Layer → Nat
  | equality => 0
  | comparison => 1
  | sum => 2
  | product => 3
  | unary => 4
  | applied => 5
  | primary => 6

/-- **The tightest precedence for which the whole of the layer is read.** -/
def floor : Layer → Precedence
  | equality => .lowest
  | comparison => .equals
  | sum => .lessGreater
  | product => .sum
  | unary | applied => .unary
  | primary => .call

/-- **How tightly a token behind an expression of the layer may bind** without
going on with a part of the expression only. -/
def ceiling : Layer → Precedence
  | equality => .equals
  | comparison => .lessGreater
  | sum => .sum
  | product => .product
  | unary => .unary
  | applied | primary => .call

theorem floor_le_next (l : Layer) : l.floor ≤ l.next.floor := by
  cases l <;> decide

theorem ceiling_le_next (l : Layer) : l.ceiling ≤ l.next.ceiling := by
  cases l <;> decide

theorem le_floor_of_lt_ceiling {l : Layer} {p : Precedence}
    (h : p < l.ceiling) : p ≤ l.floor := by
  revert h
  cases l <;> cases p <;> decide

theorem rank_unary_le {l : Layer} (h : .unary ≤ l.floor) :
    unary.rank ≤ l.rank := by
  revert h
  cases l <;> decide

theorem rank_applied_le {l : Layer} (h : .call ≤ l.ceiling) :
    applied.rank ≤ l.rank := by
  revert h
  cases l <;> decide

theorem rank_le_of_ceiling_le {l m : Layer} (hl : l ≠ .primary)
    (h : l.ceiling ≤ m.ceiling) : l.rank ≤ m.rank := by
  revert hl h
  cases l <;> cases m <;> decide

/-- What the operators of a layer are to a reader: continuations that bind as
the layer does. -/
theorem continuation?_of_mem_operators {l : Layer} {k : Kind} {op : BinaryOp}
    (h : (k, op) ∈ l.operators) :
    k.continuation? = some (.binary op) ∧ op.precedence = l.ceiling
      ∧ l.floor < l.ceiling ∧ l.ceiling ≤ l.next.floor := by
  cases l <;> simp only [operators, List.mem_cons, List.not_mem_nil,
    or_false, Prod.mk.injEq] at h <;>
    (obtain ⟨rfl, rfl⟩ | ⟨rfl, rfl⟩ := h) <;> decide

end Layer

/-- Digits are read as an integer exactly if their value is in range. -/
theorem Integer.parse?_eq_some_iff {digits : String} {value : Int64} :
    Integer.parse? digits = some value
      ↔ Integer.ofDigits digits.toList ≤ 9223372036854775807
        ∧ Int64.ofNat (Integer.ofDigits digits.toList) = value := by
  unfold Integer.parse? Integer.ofInt?
  rw [Int64.ofInt_eq_ofNat]
  split
  · rename_i h
    rw [Option.some.injEq, and_iff_right (by omega)]
  · rename_i h
    refine iff_of_false (by simp) ?_
    rintro ⟨hle, -⟩
    omega

/-- The layer of an operator. -/
def BinaryOp.layer : BinaryOp → Layer
  | equal | notEqual => .equality
  | lessThan | greaterThan => .comparison
  | plus | minus => .sum
  | multiply | divide => .product

theorem BinaryOp.mem_operators_layer {k : Kind} {op : BinaryOp}
    (h : k.continuation? = some (.binary op)) :
    (k, op) ∈ op.layer.operators := by
  cases k <;> simp [Kind.continuation?, BinaryOp.ofKind?] at h <;>
    subst h <;> decide

theorem BinaryOp.layer_ne_primary (op : BinaryOp) : op.layer ≠ .primary := by
  cases op <;> decide

theorem BinaryOp.rank_next_layer_le (op : BinaryOp) {l : Layer}
    (h : op.precedence ≤ l.floor) : op.layer.next.rank ≤ l.rank := by
  revert h
  cases op <;> cases l <;> decide

theorem BinaryOp.precedence_le_unary (op : BinaryOp) :
    op.precedence ≤ .unary := by
  cases op <;> decide

theorem Token.Kind.eq_of_continuation?_call {k : Kind}
    (h : k.continuation? = some .call) : k = .leftParen := by
  cases k <;> simp [Kind.continuation?, BinaryOp.ofKind?] at h ⊢

theorem Token.Kind.eq_of_continuation?_index {k : Kind}
    (h : k.continuation? = some .index) : k = .leftBracket := by
  cases k <;> simp [Kind.continuation?, BinaryOp.ofKind?] at h ⊢

/-- What passes from each layer to the next looser one passes from every layer
to every looser one. -/
theorem Layer.of_tighter {P : Layer → Prop} (hnext : ∀ l, P l.next → P l)
    {l m : Layer} (hle : l.rank ≤ m.rank) (h : P m) : P l := by
  by_cases heq : l.rank = m.rank
  · obtain rfl : l = m := by
      revert heq
      cases l <;> cases m <;> decide
    exact h
  · have hrank : l.next.rank = l.rank + 1 := by
      revert hle heq
      cases l <;> cases m <;> decide
    exact hnext l (Layer.of_tighter (l := l.next) hnext (by omega) h)
termination_by m.rank - l.rank

/-- An expression of a tighter layer is one of every looser layer. -/
theorem Expr.Derives.loosenTo {l m : Layer} {ts : List Kind} {e : Expr}
    (h : Expr.Derives m ts e) (hle : l.rank ≤ m.rank) :
    Expr.Derives l ts e :=
  Layer.of_tighter (P := fun l => Expr.Derives l ts e) (fun _ => .loosen) hle h

/-! ## One step of a reader -/

/-- **The next token binds no more tightly** than `p`, if there is one. -/
def Cursor.Stops (p : Precedence) (c : Cursor) : Prop :=
  ∀ t ∈ c.tokens.head?, t.kind.precedence ≤ p

theorem Token.Kind.precedence_of_none {k : Kind} (h : k.continuation? = none) :
    k.precedence = .lowest := by
  unfold precedence
  rw [h]

theorem Token.Kind.precedence_of_some {k : Kind} {cont : Continuation}
    (h : k.continuation? = some cont) : k.precedence = cont.precedence := by
  unfold precedence
  rw [h]

theorem Expr.gives_read {p : Precedence} {c d : Cursor} {e : Expr} :
    (Expr.read p c).Gives e d ↔ ∃ t c₁, c = Cursor.before c₁ [t]
      ∧ (Expr.readFrom p t c₁).Gives e d := by
  match c with
  | ⟨[], n⟩ =>
    rw [Expr.read]
    exact iff_of_false not_gives_fail Cursor.not_exists_mk_nil_eq_before
  | ⟨t :: ts, n⟩ =>
    rw [Expr.read, gives_after, Cursor.exists_mk_cons_eq_before]

theorem Expr.gives_readFrom {p : Precedence} {t : Token} {c d : Cursor}
    {e : Expr} : (Expr.readFrom p t c).Gives e d
      ↔ ∃ left c₁, (Expr.readOperand t c).Gives left c₁
        ∧ (Expr.extend p left c₁).Gives e d := by
  rw [Expr.readFrom, gives_andThen]
  constructor
  · rintro ⟨left, c₁, -, h, h'⟩
    exact ⟨left, c₁, h, h'⟩
  · rintro ⟨left, c₁, h, h'⟩
    exact ⟨left, c₁, h.size_le, h, h'⟩

/-- **What becomes of an expression that is complete so far**: it is left as it
is where the next token stops the reading, and otherwise a continuation takes
it and the reading goes on. -/
theorem Expr.gives_extend {p : Precedence} {left : Expr} {c d : Cursor}
    {e : Expr} : (Expr.extend p left c).Gives e d
      ↔ c.Stops p ∧ left = e ∧ c = d
        ∨ ∃ t c₁, c = Cursor.before c₁ [t] ∧ ∃ k e₁ c₂,
          t.kind.continuation? = some k ∧ p < k.precedence
          ∧ (Expr.continueWith k left c₁).Gives e₁ c₂
          ∧ (Expr.extend p e₁ c₂).Gives e d := by
  match c with
  | ⟨[], n⟩ =>
    have hstop : Cursor.Stops p ⟨[], n⟩ := by simp [Cursor.Stops]
    rw [Expr.extend, gives_succeed,
      or_iff_left Cursor.not_exists_mk_nil_eq_before, and_iff_right hstop]
  | ⟨t :: ts, n⟩ =>
    have hstop : Cursor.Stops p ⟨t :: ts, n⟩ ↔ t.kind.precedence ≤ p := by
      simp [Cursor.Stops]
    rw [Cursor.exists_mk_cons_eq_before, hstop, Expr.extend]
    split
    · rename_i hk
      have hle : t.kind.precedence ≤ p := by
        rw [Kind.precedence_of_none hk]
        exact Nat.zero_le _
      rw [gives_succeed]
      simp [hk, hle]
    · rename_i k hk
      rw [Kind.precedence_of_some hk]
      split
      · rename_i hlt
        rw [gives_after, gives_andThen, or_iff_right (by
          rintro ⟨hle, -⟩
          exact Nat.not_le.2 hlt hle)]
        constructor
        · rintro ⟨e₁, c₂, -, h, h'⟩
          exact ⟨k, e₁, c₂, hk, hlt, h, h'⟩
        · rintro ⟨k', e₁, c₂, hk', -, h, h'⟩
          cases hk.symm.trans hk'
          exact ⟨e₁, c₂, h.size_le, h, h'⟩
      · rename_i hnlt
        have hle : k.precedence ≤ p := Nat.not_lt.1 hnlt
        rw [gives_succeed, and_iff_right hle, or_iff_left]
        rintro ⟨k', e₁, c₂, hk', hlt, -⟩
        cases hk.symm.trans hk'
        exact hnlt hlt

/-- **What comes next in an open block**: a semicolon, its closing brace or a
statement. -/
theorem Block.gives_readRest {c d : Cursor} {ss : Block} :
    (Block.readRest c).Gives ss d ↔ ∃ t c₁, c = Cursor.before c₁ [t]
      ∧ (t.kind = .semicolon ∧ (Block.readRest c₁).Gives ss d
        ∨ t.kind = .rightBrace ∧ [] = ss ∧ c₁.closeBlock = d
        ∨ t.kind ≠ .semicolon ∧ t.kind ≠ .rightBrace
          ∧ ∃ s c₂, (Stmt.readFrom t c₁).Gives s c₂
            ∧ ∃ ss', (Block.readRest c₂).Gives ss' d ∧ s :: ss' = ss) := by
  match c with
  | ⟨[], n⟩ =>
    rw [Block.readRest]
    exact iff_of_false not_gives_fail Cursor.not_exists_mk_nil_eq_before
  | ⟨t :: ts, n⟩ =>
    rw [Cursor.exists_mk_cons_eq_before, Block.readRest]
    split
    · rename_i hk
      rw [gives_after]
      simp [hk]
    · rename_i hk
      split
      · rename_i hk'
        refine (gives_weaken.trans gives_succeed).trans ?_
        simp [hk']
      · rename_i hk'
        rw [gives_after, gives_andThen]
        simp only [hk, hk', false_and, false_or, ne_eq, not_false_iff,
          true_and, gives_map]
        constructor
        · rintro ⟨s, c₂, -, h, h'⟩
          exact ⟨s, c₂, h, h'⟩
        · rintro ⟨s, c₂, h, h'⟩
          exact ⟨s, c₂, h.size_le, h, h'⟩

/-- An alternative is there if and only if the next token says so. -/
theorem Expr.gives_readElse {c d : Cursor} {alternative : Option Block} :
    (Expr.readElse c).Gives alternative d
      ↔ (∀ t ∈ c.tokens.head?, t.kind ≠ .kwElse) ∧ none = alternative ∧ c = d
        ∨ ∃ t c₁, c = Cursor.before c₁ [t] ∧ t.kind = .kwElse
          ∧ ∃ u c₂, u.kind = .leftBrace ∧ c₁ = Cursor.before c₂ [u]
            ∧ ∃ b, (Block.read c₂).Gives b d ∧ some b = alternative := by
  match c with
  | ⟨[], n⟩ =>
    rw [Expr.readElse, gives_succeed,
      or_iff_left Cursor.not_exists_mk_nil_eq_before]
    simp
  | ⟨t :: ts, n⟩ =>
    rw [Cursor.exists_mk_cons_eq_before, Expr.readElse]
    split
    · rename_i hk
      simp only [gives_after, gives_andThen, gives_map, gives_expect]
      constructor
      · rintro ⟨-, c₂, -, ⟨u, hu, h⟩, b, hb⟩
        exact .inr ⟨hk, u, c₂, hu, h, b, hb⟩
      · rintro (⟨hne, -⟩ | ⟨-, u, c₂, hu, h, b, hb⟩)
        · exact absurd hk (hne t rfl)
        · have hle : c₂.size ≤ (Cursor.mk ts n).size := by
            rw [h, Cursor.size_before]
            exact Nat.le_add_left _ _
          exact ⟨(), c₂, hle, ⟨u, hu, h⟩, b, hb⟩
    · rename_i hk
      rw [gives_succeed]
      simp [hk]

section

variable {t : Token} {ts : List Token} {k : Nat} {s : Stmt} {d : Cursor}

@[simp] theorem Stmt.readAll_nil : Stmt.readAll ⟨[], k⟩ = ([], []) := by
  rw [Stmt.readAll]

theorem Stmt.readAll_semicolon (ht : t.kind = .semicolon) :
    Stmt.readAll ⟨t :: ts, k⟩ = Stmt.readAll ⟨ts, k⟩ := by
  rw [Stmt.readAll, if_pos ht]

theorem Stmt.readAll_statement (ht : t.kind ≠ .semicolon)
    (h : (Stmt.readFrom t ⟨ts, k⟩).Gives s d) :
    Stmt.readAll ⟨t :: ts, k⟩
      = (s :: (Stmt.readAll d).1, (Stmt.readAll d).2) := by
  obtain ⟨hresult, rfl⟩ := h
  rw [Stmt.readAll, if_neg ht]
  split
  · rename_i hr
    rw [hr] at hresult ⊢
    cases hresult
    rfl
  · rename_i hr
    rw [hr] at hresult
    cases hresult

end

/-- **What comes next in a program that is read without an error**: nothing, a
semicolon or a statement. -/
theorem Stmt.readAll_eq_iff {c : Cursor} {ss : Block} :
    Stmt.readAll c = (ss, []) ↔ c.tokens = [] ∧ [] = ss
      ∨ ∃ t c₁, c = Cursor.before c₁ [t]
        ∧ (t.kind = .semicolon ∧ Stmt.readAll c₁ = (ss, [])
          ∨ t.kind ≠ .semicolon ∧ ∃ s c₂, (Stmt.readFrom t c₁).Gives s c₂
            ∧ ∃ ss', Stmt.readAll c₂ = (ss', []) ∧ s :: ss' = ss) := by
  match c with
  | ⟨[], n⟩ =>
    rw [Stmt.readAll, or_iff_left Cursor.not_exists_mk_nil_eq_before]
    simp
  | ⟨t :: ts, n⟩ =>
    rw [Cursor.exists_mk_cons_eq_before, Stmt.readAll, or_iff_right (by simp)]
    split
    · rename_i hk
      simp [hk]
    · rename_i hk
      split
      · rename_i s c₂ hle hs
        have hgives : (Stmt.readFrom t ⟨ts, n⟩).Gives s c₂ := by
          rw [hs]
          exact ⟨rfl, rfl⟩
        rw [or_iff_right (fun h => hk h.1), and_iff_right hk]
        constructor
        · intro h
          obtain ⟨rfl, herrors⟩ := Prod.mk.inj h
          exact ⟨s, c₂, hgives, _, Prod.ext rfl herrors, rfl⟩
        · rintro ⟨s', c', hs', ss', hss, rfl⟩
          obtain ⟨rfl, rfl⟩ := hgives.unique hs'
          rw [hss]
      · rename_i e c₂ hle hs
        refine iff_of_false (by simp) ?_
        rintro (⟨hk', -⟩ | ⟨-, s, c', hs', -⟩)
        · exact hk hk'
        · rw [hs] at hs'
          cases hs'.1

/-! ## What is read is derived -/

/-- Nothing binds more tightly than a call. -/
theorem Cursor.stops_call (c : Cursor) : c.Stops .call := by
  intro t _
  unfold Kind.precedence
  split
  · rename_i k _
    rcases k with op | _ | _
    · cases op <;> decide
    · decide
    · decide
  · decide

/-- Where a statement stops, the next one is apart from it. -/
theorem Cursor.Stops.apart {c : Cursor} (h : c.Stops .lowest)
    {ts us : List Token} (hts : c.tokens = ts ++ us) :
    Apart (ts.map Token.kind) := by
  cases ts with
  | nil => simp [Apart]
  | cons t ts =>
    have ht : t.kind.precedence ≤ .lowest := h t (by rw [hts]; rfl)
    intro k hk
    obtain rfl : t.kind = k := by simpa using hk
    refine ⟨?_, ?_, ?_⟩ <;> intro heq <;> rw [heq] at ht <;>
      exact absurd ht (by decide)

/-- **The tokens are an expression** as it is read for the precedence `p`, and
the cursor `c` behind them is where the reading stops. -/
def Expr.ReadAs (p : Precedence) (ts : List Token) (e : Expr) (c : Cursor) :
    Prop :=
  (∃ l : Layer, p ≤ l.floor ∧ Expr.Derives l (ts.map Token.kind) e)
    ∧ c.Stops p

/-- Every layer is contained in the loosest. -/
theorem Expr.ReadAs.derives {p : Precedence} {ts : List Token} {e : Expr}
    {c : Cursor} (h : Expr.ReadAs p ts e c) :
    Expr.Derives .equality (ts.map Token.kind) e := by
  obtain ⟨⟨l, -, hl⟩, -⟩ := h
  exact hl.loosenTo (Nat.zero_le _)

/-- **What is read from fewer than `n` tokens is derived.** Every function of
the reader reaches the next expression through `Expr.readFrom` behind at least
one token, so this is the hypothesis that carries all of them. -/
def Expr.DerivedBelow (n : Nat) : Prop :=
  ∀ ⦃p : Precedence⦄ ⦃t : Token⦄ ⦃c d : Cursor⦄ ⦃e : Expr⦄, p ≤ .unary →
    c.size < n → (Expr.readFrom p t c).Gives e d →
    ∃ ts, c = d.before ts ∧ Expr.ReadAs p (t :: ts) e d

section

variable {n : Nat} (ih : Expr.DerivedBelow n)

include ih

theorem Expr.readAs_of_read {p : Precedence} (hp : p ≤ .unary) {c d : Cursor}
    (hc : c.size ≤ n) {e : Expr} (h : (Expr.read p c).Gives e d) :
    ∃ ts, c = d.before ts ∧ Expr.ReadAs p ts e d := by
  obtain ⟨t, c, rfl, hfrom⟩ := Expr.gives_read.1 h
  rw [Cursor.size_before, List.length_singleton] at hc
  obtain ⟨ts, rfl, hr⟩ := ih hp (by omega) hfrom
  exact ⟨t :: ts, by simp, hr⟩

theorem Expr.listed_of_list {close : Kind} (hclose : close ≠ .comma)
    {c d : Cursor} (hc : c.size ≤ n) {es : List Expr} {hle : c.size ≤ c.size}
    (h : (list close (fun t c _ => Expr.readFrom .lowest t c) c hle).Gives es
      d) :
    ∃ ts t, t.kind = close ∧ c = d.before (ts ++ [t])
      ∧ Listed (Expr.Derives .equality) (ts.map Token.kind) es := by
  refine h.listed hclose ?_
  intro t c' hlt e d he
  obtain ⟨ts, hts, hr⟩ := ih (by decide) (Nat.lt_of_lt_of_le hlt hc) he
  exact ⟨ts, hts, hr.derives⟩

theorem Expr.paired_of_readPair {t : Token} {c d : Cursor} (hc : c.size < n)
    {a : Expr × Expr} (h : (Expr.readPair t c).Gives a d) :
    ∃ ts, c = d.before ts
      ∧ Paired (Expr.Derives .equality) ((t :: ts).map Token.kind) a := by
  rw [Expr.readPair] at h
  simp only [gives_andThen, gives_map, gives_expect] at h
  obtain ⟨key, c₁, hle₁, hkey, -, c₂, hle₂, ⟨u, hu, rfl⟩, value, hvalue, rfl⟩ :=
    h
  obtain ⟨ts, rfl, hr⟩ := ih (by decide) hc hkey
  obtain ⟨us, rfl, hr'⟩ := Expr.readAs_of_read ih (by decide)
    (Nat.le_trans hle₂ (Nat.le_trans hle₁ (Nat.le_of_lt hc))) hvalue
  refine ⟨ts ++ u :: us, by simp, ?_⟩
  simpa [hu] using Paired.pair hr.derives hr'.derives

theorem Stmt.derives_of_readFrom {t : Token} {c d : Cursor} (hc : c.size < n)
    {s : Stmt} (h : (Stmt.readFrom t c).Gives s d) :
    ∃ ts, c = d.before ts ∧ Stmt.Derives ((t :: ts).map Token.kind) s
      ∧ d.Stops .lowest := by
  rw [Stmt.readFrom] at h
  split at h
  · rename_i hk
    simp only [gives_andThen, gives_map, gives_expect, gives_name] at h
    obtain ⟨x, c₁, hle₁, ⟨u, hu, rfl⟩, -, c₂, hle₂, ⟨v, hv, rfl⟩, e, he, rfl⟩ :=
      h
    obtain ⟨ts, rfl, hr⟩ := Expr.readAs_of_read ih (by decide)
      (Nat.le_trans hle₂ (Nat.le_trans hle₁ (Nat.le_of_lt hc))) he
    refine ⟨u :: v :: ts, by simp, ?_, hr.2⟩
    simpa [hk, hu, hv] using Stmt.Derives.bind hr.derives
  · rename_i hk
    obtain ⟨e, he, rfl⟩ := gives_map.1 h
    obtain ⟨ts, rfl, hr⟩ :=
      Expr.readAs_of_read ih (by decide) (Nat.le_of_lt hc) he
    refine ⟨ts, rfl, ?_, hr.2⟩
    simpa [hk] using Stmt.Derives.ret hr.derives
  · obtain ⟨e, he, rfl⟩ := gives_map.1 h
    obtain ⟨ts, rfl, hr⟩ := ih (by decide) hc he
    exact ⟨ts, rfl, .expr hr.derives, hr.2⟩

theorem Block.body_of_readRest {c d : Cursor} (hc : c.size ≤ n) {b : Block}
    (h : (Block.readRest c).Gives b d) :
    ∃ ts t, t.kind = .rightBrace ∧ c.tokens = ts ++ t :: d.tokens
      ∧ d.nesting = c.nesting - 1 ∧ Body (ts.map Token.kind) b := by
  obtain ⟨t, c₁, hct, hnext⟩ := Block.gives_readRest.1 h
  have hlt : c₁.size < c.size := by simp [hct, Cursor.size_before]
  obtain ⟨hk, h₁⟩ | ⟨hk, rfl, rfl⟩ | ⟨-, -, s, c₂, hs, ss, hss, rfl⟩ := hnext
  · obtain ⟨ts, u, hu, hts, hn, hbody⟩ :=
      Block.body_of_readRest (Nat.le_trans (Nat.le_of_lt hlt) hc) h₁
    refine ⟨t :: ts, u, hu, by simp [hct, hts], by simp [hct, hn], ?_⟩
    simpa [hk] using Body.semicolon hbody
  · exact ⟨[], t, hk, by simp [hct, Cursor.closeBlock],
      by simp [hct, Cursor.closeBlock], .nil⟩
  · have hle := hs.size_le
    obtain ⟨ts, hts, hstmt, hstops⟩ :=
      Stmt.derives_of_readFrom ih (Nat.lt_of_lt_of_le hlt hc) hs
    obtain ⟨us, u, hu, hus, hn, hbody⟩ :=
      Block.body_of_readRest (by omega) hss
    refine ⟨t :: ts ++ us, u, hu, by simp [hct, hts, hus],
      by simp [hct, hts, hn], ?_⟩
    rw [List.map_append]
    exact .cons hstmt (hstops.apart hus) hbody
termination_by c.size

theorem Block.body_of_read {c d : Cursor} (hc : c.size ≤ n) {b : Block}
    (h : (Block.read c).Gives b d) :
    ∃ ts t, t.kind = .rightBrace ∧ c = d.before (ts ++ [t])
      ∧ Body (ts.map Token.kind) b := by
  rw [Block.read] at h
  obtain ⟨ts, t, ht, hts, hn, hbody⟩ :=
    Block.body_of_readRest ih (c := c.openBlock) hc h
  refine ⟨ts, t, ht, ?_, hbody⟩
  obtain ⟨us, k⟩ := c
  obtain ⟨vs, m⟩ := d
  obtain rfl : us = ts ++ t :: vs := hts
  obtain rfl : m = k := hn
  simp [Cursor.before]

/-- **A continuation makes an expression of the layer of its operator.** The
expression that it takes is of the layer `m`, whose ceiling says that all of
the expression is a left operand. -/
theorem Expr.derives_of_continueWith {t : Token} {k : Continuation}
    (hk : t.kind.continuation? = some k) {m : Layer}
    (hm : k.precedence ≤ m.ceiling) {ts : List Token} {left : Expr}
    (hleft : Expr.Derives m (ts.map Token.kind) left) {c d : Cursor}
    (hc : c.size ≤ n) {e : Expr} (h : (Expr.continueWith k left c).Gives e d) :
    ∃ (l : Layer) (us : List Token), c = d.before us
      ∧ k.precedence = l.ceiling
      ∧ Expr.Derives l ((ts ++ t :: us).map Token.kind) e
      ∧ d.Stops l.ceiling := by
  rw [Expr.continueWith.eq_def] at h
  cases k with
  | binary op =>
    obtain ⟨right, hright, rfl⟩ := gives_map.1 h
    obtain ⟨us, rfl, ⟨l, hl, hr⟩, hstops⟩ :=
      Expr.readAs_of_read ih op.precedence_le_unary hc hright
    have hmem := BinaryOp.mem_operators_layer hk
    have hop := (Layer.continuation?_of_mem_operators hmem).2.1
    refine ⟨op.layer, us, rfl, hop, ?_, by rwa [← hop]⟩
    rw [List.map_append]
    refine .binary hmem (hleft.loosenTo ?_)
      (hr.loosenTo (op.rank_next_layer_le hl))
    exact Layer.rank_le_of_ceiling_le op.layer_ne_primary (by rwa [← hop])
  | call =>
    obtain ⟨args, ha, rfl⟩ := gives_map.1 h
    obtain ⟨us, u, hu, rfl, hl⟩ := Expr.listed_of_list ih (by decide) hc ha
    refine ⟨.applied, us ++ [u], rfl, rfl, ?_, d.stops_call⟩
    simpa [Kind.eq_of_continuation?_call hk, hu] using
      Expr.Derives.call (hleft.loosenTo (Layer.rank_applied_le hm)) hl
  | index =>
    simp only [gives_andThen, gives_map, gives_expect] at h
    obtain ⟨position, c₁, hle, hp, -, ⟨u, hu, rfl⟩, rfl⟩ := h
    obtain ⟨us, rfl, hr⟩ := Expr.readAs_of_read ih (by decide) hc hp
    refine ⟨.applied, us ++ [u], by simp, rfl, ?_, d.stops_call⟩
    simpa [Kind.eq_of_continuation?_index hk, hu] using
      Expr.Derives.index (hleft.loosenTo (Layer.rank_applied_le hm)) hr.derives

/-- **The loop of the reader**: its invariant is that the tokens so far are an
expression of a layer that is read for `p`, and that the next token does not
bind more tightly than the layer allows. -/
theorem Expr.readAs_of_extend {p : Precedence} {m : Layer} (hm : p ≤ m.floor)
    {ts : List Token} {left : Expr}
    (hleft : Expr.Derives m (ts.map Token.kind) left) {c d : Cursor}
    (hc : c.size ≤ n) (hstops : c.Stops m.ceiling) {e : Expr}
    (h : (Expr.extend p left c).Gives e d) :
    ∃ us, c = d.before us ∧ Expr.ReadAs p (ts ++ us) e d := by
  rcases Expr.gives_extend.1 h with
    ⟨hend, rfl, rfl⟩ | ⟨t, c₁, rfl, k, e₁, c₂, hk, hlt, h₁, h₂⟩
  · exact ⟨[], rfl, ⟨m, hm, by simpa using hleft⟩, hend⟩
  · have hle := h₁.size_le
    rw [Cursor.size_before, List.length_singleton] at hc
    have hceil : k.precedence ≤ m.ceiling := by
      rw [← Kind.precedence_of_some hk]
      exact hstops t rfl
    obtain ⟨l, us, rfl, hkl, hl, hstops'⟩ :=
      Expr.derives_of_continueWith ih hk hceil hleft (by omega) h₁
    rw [hkl] at hlt
    obtain ⟨vs, rfl, hr⟩ := Expr.readAs_of_extend
      (Layer.le_floor_of_lt_ceiling hlt) hl (by omega) hstops' h₂
    exact ⟨t :: us ++ vs, by simp, by simpa using hr⟩
termination_by c.size
decreasing_by grind [Cursor.size_before]

/-- **An operand** is a primary, or an operator before an operand. -/
theorem Expr.derives_of_readOperand {t : Token} {c d : Cursor}
    (hc : c.size ≤ n) {e : Expr} (h : (Expr.readOperand t c).Gives e d) :
    ∃ (l : Layer) (ts : List Token), c = d.before ts ∧ .unary ≤ l.floor
      ∧ Expr.Derives l ((t :: ts).map Token.kind) e ∧ d.Stops l.ceiling := by
  have primary (ts : List Token) (hc : c = d.before ts)
      (hd : Expr.Derives .primary ((t :: ts).map Token.kind) e) :
      ∃ (l : Layer) (ts : List Token), c = d.before ts ∧ .unary ≤ l.floor
        ∧ Expr.Derives l ((t :: ts).map Token.kind) e ∧ d.Stops l.ceiling :=
    ⟨.primary, ts, hc, by decide, hd, d.stops_call⟩
  have unary (op : UnaryOp) (hk : t.kind = op.kind)
      (h : ((Expr.read .unary c).map (.unary op)).Gives e d) :
      ∃ (l : Layer) (ts : List Token), c = d.before ts ∧ .unary ≤ l.floor
        ∧ Expr.Derives l ((t :: ts).map Token.kind) e ∧ d.Stops l.ceiling := by
    obtain ⟨e, he, rfl⟩ := gives_map.1 h
    obtain ⟨ts, rfl, ⟨l, hl, hd⟩, hstops⟩ :=
      Expr.readAs_of_read ih (Nat.le_refl _) hc he
    refine ⟨.unary, ts, rfl, Nat.le_refl _, ?_, hstops⟩
    rw [List.map_cons, hk]
    exact .unary (hd.loosenTo (Layer.rank_unary_le hl))
  cases hk : t.kind with
  | ident x =>
    rw [Expr.readOperand, hk] at h
    obtain ⟨rfl, rfl⟩ := gives_succeed.1 h
    exact primary [] rfl (by simpa [hk] using Expr.Derives.ident)
  | int digits =>
    rw [Expr.readOperand, hk] at h
    obtain ⟨value, hvalue, rfl⟩ := gives_map.1 h
    obtain ⟨hv, rfl⟩ := gives_ofOption.1 hvalue
    obtain ⟨hle, rfl⟩ := Integer.parse?_eq_some_iff.1 hv
    exact primary [] rfl (by simpa [hk] using Expr.Derives.int hle)
  | str text =>
    rw [Expr.readOperand, hk] at h
    obtain ⟨rfl, rfl⟩ := gives_succeed.1 h
    exact primary [] rfl (by simpa [hk] using Expr.Derives.str)
  | kwTrue =>
    rw [Expr.readOperand, hk] at h
    obtain ⟨rfl, rfl⟩ := gives_succeed.1 h
    exact primary [] rfl (by simpa [hk] using Expr.Derives.true)
  | kwFalse =>
    rw [Expr.readOperand, hk] at h
    obtain ⟨rfl, rfl⟩ := gives_succeed.1 h
    exact primary [] rfl (by simpa [hk] using Expr.Derives.false)
  | minus =>
    rw [Expr.readOperand, hk] at h
    exact unary .minus hk h
  | bang =>
    rw [Expr.readOperand, hk] at h
    exact unary .bang hk h
  | leftParen =>
    rw [Expr.readOperand, hk] at h
    simp only [gives_andThen, gives_map, gives_expect] at h
    obtain ⟨e, c₁, hle, he, -, ⟨u, hu, rfl⟩, rfl⟩ := h
    obtain ⟨ts, rfl, hr⟩ := Expr.readAs_of_read ih (by decide) hc he
    refine primary (ts ++ [u]) (by simp) ?_
    simpa [hk, hu] using Expr.Derives.group hr.derives
  | leftBracket =>
    rw [Expr.readOperand, hk] at h
    obtain ⟨elements, he, rfl⟩ := gives_map.1 h
    obtain ⟨ts, u, hu, rfl, hl⟩ := Expr.listed_of_list ih (by decide) hc he
    refine primary (ts ++ [u]) rfl ?_
    simpa [hk, hu] using Expr.Derives.array hl
  | leftBrace =>
    rw [Expr.readOperand, hk] at h
    obtain ⟨pairs, he, rfl⟩ := gives_map.1 h
    obtain ⟨ts, u, hu, hts, hl⟩ := he.listed (by decide)
      (fun {t c' hlt a d} h =>
        Expr.paired_of_readPair ih (Nat.lt_of_lt_of_le hlt hc) h)
    refine primary (ts ++ [u]) hts ?_
    simpa [hk, hu] using Expr.Derives.hash hl
  | kwIf =>
    rw [Expr.readOperand, hk] at h
    simp only [gives_andThen, gives_map, gives_expect] at h
    obtain ⟨e, c₁, hle₁, he, -, c₂, hle₂, ⟨u, hu, rfl⟩, b, c₃, hle₃, hb, a, ha,
      rfl⟩ := h
    obtain ⟨ts, rfl, hr⟩ := Expr.readAs_of_read ih (by decide) hc he
    obtain ⟨us, v, hv, rfl, hbody⟩ := Block.body_of_read ih (by omega) hb
    rcases Expr.gives_readElse.1 ha with
      ⟨-, rfl, rfl⟩ | ⟨w, c₄, rfl, hw, x, c₅, hx, rfl, b', hb', rfl⟩
    · refine primary (ts ++ u :: us ++ [v]) (by simp) ?_
      simpa [hk, hu, hv] using Expr.Derives.cond hr.derives hbody
    · obtain ⟨vs, y, hy, rfl, hbody'⟩ :=
        Block.body_of_read ih (by grind [Cursor.size_before]) hb'
      refine primary (ts ++ u :: us ++ v :: w :: x :: vs ++ [y]) (by simp) ?_
      simpa [hk, hu, hv, hw, hx, hy] using
        Expr.Derives.condElse hr.derives hbody hbody'
  | kwFn =>
    rw [Expr.readOperand, hk] at h
    simp only [gives_andThen, gives_map, gives_expect] at h
    obtain ⟨-, c₁, hle₁, ⟨u, hu, rfl⟩, params, c₂, hle₂, hps, -, c₃, hle₃,
      ⟨v, hv, rfl⟩, b, hb, rfl⟩ := h
    obtain ⟨ts, w, hw, rfl, hl⟩ := hps.listed (by decide) (D := Named)
      (fun {t c hc a d} h => by
        obtain ⟨ht, rfl⟩ := gives_nameOf.1 h
        exact ⟨[], rfl, by simpa [ht] using Named.name⟩)
    obtain ⟨us, x, hx, rfl, hbody⟩ := Block.body_of_read ih (by omega) hb
    refine primary (u :: ts ++ w :: v :: us ++ [x]) (by simp) ?_
    simpa [hk, hu, hv, hw, hx] using Expr.Derives.fn hl hbody
  | _ =>
    rw [Expr.readOperand, hk] at h
    exact absurd h not_gives_fail

end

theorem Expr.derivedBelow (n : Nat) : Expr.DerivedBelow n := by
  induction n with
  | zero =>
    intro p t c d e _ hc
    exact absurd hc (Nat.not_lt_zero _)
  | succ n ih =>
    intro p t c d e hp hc h
    have hcn : c.size ≤ n := Nat.le_of_lt_succ hc
    obtain ⟨left, c₁, hleft, hextend⟩ := Expr.gives_readFrom.1 h
    have hle := hleft.size_le
    obtain ⟨l, ts, rfl, hl, hd, hstops⟩ :=
      Expr.derives_of_readOperand ih hcn hleft
    obtain ⟨us, rfl, hr⟩ := Expr.readAs_of_extend ih (Nat.le_trans hp hl) hd
      (Nat.le_trans hle hcn) hstops hextend
    exact ⟨ts ++ us, by simp, hr⟩

/-- **What is read without an error is a body.** -/
theorem Stmt.body_of_readAll {c : Cursor} {ss : Block}
    (h : Stmt.readAll c = (ss, [])) : Body (c.tokens.map Token.kind) ss := by
  obtain ⟨hc, rfl⟩ | ⟨t, c₁, hct, hnext⟩ := Stmt.readAll_eq_iff.1 h
  · rw [hc]
    exact .nil
  · have hlt : c₁.size < c.size := by simp [hct, Cursor.size_before]
    obtain ⟨hk, h₁⟩ | ⟨-, s, c₂, hs, ss', hss, rfl⟩ := hnext
    · simpa [hct, hk] using Body.semicolon (Stmt.body_of_readAll h₁)
    · have hle := hs.size_le
      obtain ⟨ts, hts, hstmt, hstops⟩ :=
        Stmt.derives_of_readFrom (Expr.derivedBelow c.size) hlt hs
      have hbody := Stmt.body_of_readAll hss
      have hapart := hstops.apart (List.append_nil c₂.tokens).symm
      simpa [hct, hts] using Body.cons hstmt hapart hbody
termination_by c.size

end Monkey
