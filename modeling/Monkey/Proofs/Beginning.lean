import Monkey.Proofs.Derivation
import Monkey.Proofs.Failure

/-!
# What is read before a fault

A reading that fails has read the beginning of a phrase. The beginnings are
given by a grammar of their own, rule by rule beside that of the phrases: the
parts of a phrase up to one that is itself only begun. A beginning may be
empty, and it may be the whole phrase, if what is asked for next is what comes
behind the phrase.

A beginning is given together with the braces it has opened and not closed, the
innermost first. It is the rule that says what a brace is: `fn`, `if` and `else`
open blocks, and a brace where an expression is asked for opens a hash.

The main result, `Stmt.begun_of_readFrom`, is proved like its counterpart for
readings that succeed: by induction on the number of tokens, with a hypothesis
about `Expr.readFrom` alone.
-/

namespace Monkey

open Token (Kind)
open Reading

/-! ## The grammar of beginnings -/

/-- **The beginning of a list with commas**: elements with commas behind them,
and the beginning of one more, which is what `B` says. -/
inductive Listed.Begun {α : Type} (D : List Kind → α → Prop)
    (B : List Kind → List Brace → Prop) : List Kind → List Brace → Prop where
  | element {ts : List Kind} {bs : List Brace} : B ts bs → Listed.Begun D B ts bs
  | more {ts us : List Kind} {bs : List Brace} {a : α} :
      D ts a → Listed.Begun D B us bs →
      Listed.Begun D B (ts ++ .comma :: us) bs

/-- The beginning of a key and a value. -/
inductive Paired.Begun (D : List Kind → Expr → Prop)
    (B : List Kind → List Brace → Prop) : List Kind → List Brace → Prop where
  | key {ts : List Kind} {bs : List Brace} : B ts bs → Paired.Begun D B ts bs
  | value {ts us : List Kind} {bs : List Brace} {key : Expr} :
      D ts key → B us bs → Paired.Begun D B (ts ++ .colon :: us) bs

/-- The beginning of a name: nothing, or the name. -/
inductive Named.Begun : List Kind → List Brace → Prop where
  | nothing : Named.Begun [] []
  | whole {n : String} : Named.Begun [.ident n] []

mutual

/-- **The beginnings of the expressions of a layer.** -/
inductive Expr.Begun : Layer → List Kind → List Brace → Prop where
  | nothing {l : Layer} : Expr.Begun l [] []
  | whole {l : Layer} {ts : List Kind} {e : Expr} :
      Expr.Derives l ts e → Expr.Begun l ts []
  | loosen {l : Layer} {ts : List Kind} {bs : List Brace} :
      Expr.Begun l.next ts bs → Expr.Begun l ts bs
  | binary {l : Layer} {k : Kind} {op : BinaryOp} {ts us : List Kind}
      {bs : List Brace} {left : Expr} :
      (k, op) ∈ l.operators → Expr.Derives l ts left →
      Expr.Begun l.next us bs → Expr.Begun l (ts ++ k :: us) bs
  | unary {op : UnaryOp} {ts : List Kind} {bs : List Brace} :
      Expr.Begun .unary ts bs → Expr.Begun .unary (op.kind :: ts) bs
  | call {ts us : List Kind} {bs : List Brace} {callee : Expr} :
      Expr.Derives .applied ts callee →
      Listed.Begun (Expr.Derives .equality) (Expr.Begun .equality) us bs →
      Expr.Begun .applied (ts ++ .leftParen :: us) bs
  | index {ts us : List Kind} {bs : List Brace} {collection : Expr} :
      Expr.Derives .applied ts collection → Expr.Begun .equality us bs →
      Expr.Begun .applied (ts ++ .leftBracket :: us) bs
  | group {ts : List Kind} {bs : List Brace} :
      Expr.Begun .equality ts bs → Expr.Begun .primary (.leftParen :: ts) bs
  | array {ts : List Kind} {bs : List Brace} :
      Listed.Begun (Expr.Derives .equality) (Expr.Begun .equality) ts bs →
      Expr.Begun .primary (.leftBracket :: ts) bs
  /-- A brace where an expression is asked for opens a hash. -/
  | hash {ts : List Kind} {bs : List Brace} :
      Listed.Begun (Paired (Expr.Derives .equality))
        (Paired.Begun (Expr.Derives .equality) (Expr.Begun .equality)) ts bs →
      Expr.Begun .primary (.leftBrace :: ts) (bs ++ [.hash])
  | condition {ts : List Kind} {bs : List Brace} :
      Expr.Begun .equality ts bs → Expr.Begun .primary (.kwIf :: ts) bs
  | consequence {ts us : List Kind} {bs : List Brace} {condition : Expr} :
      Expr.Derives .equality ts condition → Body.Begun us bs →
      Expr.Begun .primary (.kwIf :: (ts ++ .leftBrace :: us)) (bs ++ [.block])
  | otherwise {ts us : List Kind} {condition : Expr} {consequence : Block} :
      Expr.Derives .equality ts condition → Body us consequence →
      Expr.Begun .primary
        (.kwIf :: (ts ++ .leftBrace :: (us ++ [.rightBrace, .kwElse]))) []
  | alternative {ts us vs : List Kind} {bs : List Brace} {condition : Expr}
      {consequence : Block} :
      Expr.Derives .equality ts condition → Body us consequence →
      Body.Begun vs bs →
      Expr.Begun .primary
        (.kwIf :: (ts ++ .leftBrace :: (us ++ .rightBrace :: .kwElse ::
          .leftBrace :: vs))) (bs ++ [.block])
  | fn : Expr.Begun .primary [.kwFn] []
  | params {ts : List Kind} {bs : List Brace} :
      Listed.Begun Named Named.Begun ts bs →
      Expr.Begun .primary (.kwFn :: .leftParen :: ts) bs
  | signature {ts : List Kind} {params : List String} :
      Listed Named ts params →
      Expr.Begun .primary (.kwFn :: .leftParen :: (ts ++ [.rightParen])) []
  | body {ts us : List Kind} {bs : List Brace} {params : List String} :
      Listed Named ts params → Body.Begun us bs →
      Expr.Begun .primary
        (.kwFn :: .leftParen :: (ts ++ .rightParen :: .leftBrace :: us))
        (bs ++ [.block])

/-- **The beginnings of statements.** -/
inductive Stmt.Begun : List Kind → List Brace → Prop where
  | bind : Stmt.Begun [.kwLet] []
  | target {n : String} : Stmt.Begun [.kwLet, .ident n] []
  | value {ts : List Kind} {bs : List Brace} {n : String} :
      Expr.Begun .equality ts bs →
      Stmt.Begun (.kwLet :: .ident n :: .assign :: ts) bs
  | ret {ts : List Kind} {bs : List Brace} :
      Expr.Begun .equality ts bs → Stmt.Begun (.kwReturn :: ts) bs
  | expr {ts : List Kind} {bs : List Brace} :
      Expr.Begun .equality ts bs → Stmt.Begun ts bs

/-- **The beginnings of bodies**: the last statement is only begun. -/
inductive Body.Begun : List Kind → List Brace → Prop where
  | stmt {ts : List Kind} {bs : List Brace} :
      Stmt.Begun ts bs → Body.Begun ts bs
  | semicolon {ts : List Kind} {bs : List Brace} :
      Body.Begun ts bs → Body.Begun (.semicolon :: ts) bs
  | cons {ts us : List Kind} {bs : List Brace} {s : Stmt} :
      Stmt.Derives ts s → Apart us → Body.Begun us bs →
      Body.Begun (ts ++ us) bs

end

/-- The beginning of an expression of a tighter layer is one of every looser
layer. -/
theorem Expr.Begun.loosenTo {l m : Layer} {ts : List Kind} {bs : List Brace}
    (h : Expr.Begun m ts bs) (hle : l.rank ≤ m.rank) :
    Expr.Begun l ts bs :=
  Layer.of_tighter (P := fun l => Expr.Begun l ts bs) (fun _ => .loosen) hle h

/-! ## Breaking off in a phrase -/

/-- **The reading breaks off in a beginning**, which is what `B` says. -/
def Cursor.BreaksIn (B : List Kind → List Brace → Prop) (c : Cursor)
    (e : ParseError) (d : Cursor) : Prop :=
  ∃ us bs, B (us.map Token.kind) bs ∧ c.Breaks us bs e d

namespace Cursor.BreaksIn

variable {B B' : List Kind → List Brace → Prop} {c d : Cursor} {e : ParseError}

/-- Where a beginning stands in a larger one, behind the tokens `ts`. -/
theorem before (h : c.BreaksIn B e d) (ts : List Token)
    (hB : ∀ {us bs}, B us bs → B' (ts.map Token.kind ++ us) bs) :
    (c.before ts).BreaksIn B' e d := by
  obtain ⟨us, bs, hus, hbreaks⟩ := h
  refine ⟨ts ++ us, bs, ?_, hbreaks.before ts⟩
  rw [List.map_append]
  exact hB hus

/-- Where a beginning stands in a block that a larger one has opened. -/
theorem block (h : c.openBlock.BreaksIn B e d) (ts : List Token)
    (hB : ∀ {us bs}, B us bs →
      B' (ts.map Token.kind ++ us) (bs ++ [.block])) :
    (c.before ts).BreaksIn B' e d := by
  obtain ⟨us, bs, hus, hbreaks⟩ := h
  refine ⟨ts ++ us, bs ++ [.block], ?_, hbreaks.block.before ts⟩
  rw [List.map_append]
  exact hB hus

/-- Where a beginning stands in a hash that a larger one has opened. -/
theorem hash (h : c.BreaksIn B e d) (ts : List Token)
    (hB : ∀ {us bs}, B us bs →
      B' (ts.map Token.kind ++ us) (bs ++ [.hash])) :
    (c.before ts).BreaksIn B' e d := by
  obtain ⟨us, bs, hus, hbreaks⟩ := h
  refine ⟨ts ++ us, bs ++ [.hash], ?_, hbreaks.hash.before ts⟩
  rw [List.map_append]
  exact hB hus

theorem mono (h : c.BreaksIn B e d) (hB : ∀ {us bs}, B us bs → B' us bs) :
    c.BreaksIn B' e d :=
  h.before [] hB

/-- What is asked for behind the tokens `ts` is not there. -/
theorem behind (h : c.Breaks [] [] e d) (ts : List Token)
    (hB : B (ts.map Token.kind) []) : (c.before ts).BreaksIn B e d := by
  refine ⟨ts ++ [], [], ?_, h.before ts⟩
  rwa [List.append_nil]

end Cursor.BreaksIn

/-- **The reading breaks off in an expression** as it is read for the
precedence `p`. -/
def Expr.BreaksAs (p : Precedence) (c : Cursor) (e : ParseError) (d : Cursor) :
    Prop :=
  ∃ l : Layer, p ≤ l.floor ∧ c.BreaksIn (Expr.Begun l) e d

/-- Every layer is contained in the loosest. -/
theorem Expr.BreaksAs.equality {p : Precedence} {c d : Cursor} {e : ParseError}
    (h : Expr.BreaksAs p c e d) : c.BreaksIn (Expr.Begun .equality) e d := by
  obtain ⟨l, -, hl⟩ := h
  exact hl.mono fun h => h.loosenTo (Nat.zero_le _)

/-! ## Lists -/

/-- **A list that breaks off is the beginning of a list with commas**, if its
elements are what `D` says and their beginnings what `B` says. -/
theorem Reading.Fails.breaksIn_list {α : Type} {n : Nat}
    {D : List Kind → α → Prop} {B : List Kind → List Brace → Prop}
    {close : Kind}
    {element : Token → (c : Cursor) → c.size < n → Reading α c.size}
    (hclose : close ≠ .comma) (hnothing : B [] [])
    (hwhole : ∀ {ts a}, D ts a → B ts [])
    (hD : ∀ {t c h a d}, (element t c h).Gives a d →
      ∃ ts, c = d.before ts ∧ D ((t :: ts).map Token.kind) a)
    (hB : ∀ {t c h e d}, (element t c h).Fails e d →
      (c.before [t]).BreaksIn B e d)
    {c : Cursor} {hc : c.size ≤ n} {e : ParseError} {d : Cursor}
    (h : (list close element c hc).Fails e d) :
    c.BreaksIn (Listed.Begun D B) e d := by
  match c, hc, h with
  | ⟨[], k⟩, hc, h =>
    rw [list] at h
    obtain ⟨rfl, rfl⟩ := fails_fail.1 h
    exact ⟨[], [], .element hnothing, .atEnd⟩
  | ⟨t :: ts, k⟩, hc, h =>
    rw [list] at h
    split at h
    · exact absurd h not_fails_succeed
    · simp only [fails_after, fails_andThen, gives_separator hclose] at h
      obtain h | ⟨a, c₁, hle, ha, h⟩ := h
      · exact (hB h).mono .element
      · obtain ⟨us, hus, hDa⟩ := hD ha
        rw [Cursor.mk_cons_eq_of_eq t hus]
        obtain h | ⟨more, c₂, hle', ⟨s, hs, rfl⟩, h⟩ := h
        · exact .behind h.breaks_separator (t :: us) (.element (hwhole hDa))
        · cases more with
          | true =>
            simp only [if_true, fails_map] at hs h
            have hrest := Fails.breaksIn_list (D := D) (B := B) hclose hnothing
              hwhole hD hB h
            rw [Cursor.before_before]
            refine hrest.before (t :: us ++ [s]) fun hbegun => ?_
            simpa [hs] using Listed.Begun.more hDa hbegun
          | false =>
            simp only [Bool.false_eq_true, if_false] at h
            exact absurd h not_fails_succeed
termination_by c.size
decreasing_by exact Nat.lt_succ_of_le (Nat.le_trans hle' hle)

/-! ## One step of a reader that fails -/

theorem Expr.fails_readFrom {p : Precedence} {t : Token} {c d : Cursor}
    {e : ParseError} : (Expr.readFrom p t c).Fails e d
      ↔ (Expr.readOperand t c).Fails e d
        ∨ ∃ left c₁, (Expr.readOperand t c).Gives left c₁
          ∧ (Expr.extend p left c₁).Fails e d := by
  rw [Expr.readFrom, fails_andThen]
  refine or_congr_right ?_
  constructor
  · rintro ⟨left, c₁, -, h, h'⟩
    exact ⟨left, c₁, h, h'⟩
  · rintro ⟨left, c₁, h, h'⟩
    exact ⟨left, c₁, h.size_le, h, h'⟩

/-- **Going on with an expression fails** in a continuation, the next one or one
behind it. -/
theorem Expr.fails_extend {p : Precedence} {left : Expr} {c d : Cursor}
    {e : ParseError} (h : (Expr.extend p left c).Fails e d) :
    ∃ t c₁, c = Cursor.before c₁ [t] ∧ ∃ k,
      t.kind.continuation? = some k ∧ p < k.precedence
      ∧ ((Expr.continueWith k left c₁).Fails e d
        ∨ ∃ e₁ c₂, (Expr.continueWith k left c₁).Gives e₁ c₂
          ∧ (Expr.extend p e₁ c₂).Fails e d) := by
  match c with
  | ⟨[], n⟩ =>
    rw [Expr.extend] at h
    exact absurd h not_fails_succeed
  | ⟨t :: ts, n⟩ =>
    rw [Expr.extend] at h
    split at h
    · exact absurd h not_fails_succeed
    · rename_i k hk
      split at h
      · rename_i hlt
        refine ⟨t, ⟨ts, n⟩, rfl, k, hk, hlt, ?_⟩
        obtain h | ⟨e₁, c₂, -, h₁, h₂⟩ := fails_andThen.1 (fails_after.1 h)
        · exact .inl h
        · exact .inr ⟨e₁, c₂, h₁, h₂⟩
      · exact absurd h not_fails_succeed

/-- **An open block breaks off** where the tokens end, or in a statement. -/
theorem Block.fails_readRest {c d : Cursor} {e : ParseError}
    (h : (Block.readRest c).Fails e d) : c.Breaks [] [] e d
      ∨ ∃ t c₁, c = Cursor.before c₁ [t]
        ∧ (t.kind = .semicolon ∧ (Block.readRest c₁).Fails e d
          ∨ (Stmt.readFrom t c₁).Fails e d
          ∨ ∃ s c₂, (Stmt.readFrom t c₁).Gives s c₂
            ∧ (Block.readRest c₂).Fails e d) := by
  match c with
  | ⟨[], n⟩ =>
    rw [Block.readRest] at h
    obtain ⟨rfl, rfl⟩ := fails_fail.1 h
    exact .inl .atEnd
  | ⟨t :: ts, n⟩ =>
    rw [Block.readRest] at h
    refine .inr ⟨t, ⟨ts, n⟩, rfl, ?_⟩
    split at h
    · rename_i hk
      exact .inl ⟨hk, h⟩
    · split at h
      · exact absurd h not_fails_succeed
      · obtain h | ⟨s, c₂, -, hs, h⟩ := fails_andThen.1 (fails_after.1 h)
        · exact .inr (.inl h)
        · exact .inr (.inr ⟨s, c₂, hs, fails_map.1 h⟩)

/-- An alternative breaks off behind its first token. -/
theorem Expr.fails_readElse {c d : Cursor} {e : ParseError}
    (h : (Expr.readElse c).Fails e d) :
    ∃ t c₁, c = Cursor.before c₁ [t] ∧ t.kind = .kwElse
      ∧ (c₁.Breaks [] [] e d
        ∨ ∃ u c₂, u.kind = .leftBrace ∧ c₁ = Cursor.before c₂ [u]
          ∧ (Block.read c₂).Fails e d) := by
  match c with
  | ⟨[], n⟩ =>
    rw [Expr.readElse] at h
    exact absurd h not_fails_succeed
  | ⟨t :: ts, n⟩ =>
    rw [Expr.readElse] at h
    split at h
    · rename_i hk
      refine ⟨t, ⟨ts, n⟩, rfl, hk, ?_⟩
      obtain h | ⟨_, c₂, -, hu, h⟩ := fails_andThen.1 (fails_after.1 h)
      · exact .inl h.breaks_expect
      · obtain ⟨u, hu, hc⟩ := gives_expect.1 hu
        exact .inr ⟨u, c₂, hu, hc, fails_map.1 h⟩
    · exact absurd h not_fails_succeed

/-! ## What is read before a fault is a beginning -/

/-- **What breaks off within fewer than `n` tokens is the beginning of an
expression.** As for readings that succeed, this is the hypothesis that carries
all functions of the reader. -/
def Expr.BegunBelow (n : Nat) : Prop :=
  ∀ ⦃p : Precedence⦄ ⦃t : Token⦄ ⦃c d : Cursor⦄ ⦃e : ParseError⦄,
    p ≤ .unary → c.size < n → (Expr.readFrom p t c).Fails e d →
    Expr.BreaksAs p (c.before [t]) e d

section

variable {n : Nat} (ih : Expr.BegunBelow n)

include ih

theorem Expr.breaksAs_of_read {p : Precedence} (hp : p ≤ .unary)
    {c d : Cursor} (hc : c.size ≤ n) {e : ParseError}
    (h : (Expr.read p c).Fails e d) : Expr.BreaksAs p c e d := by
  match c with
  | ⟨[], k⟩ =>
    rw [Expr.read] at h
    obtain ⟨rfl, rfl⟩ := fails_fail.1 h
    have hfloor : p ≤ Layer.primary.floor := Nat.le_trans hp (by decide)
    exact ⟨.primary, hfloor, [], [], .nothing, .atEnd⟩
  | ⟨t :: ts, k⟩ =>
    rw [Expr.read] at h
    exact ih hp (show (Cursor.mk ts k).size < n from hc) (fails_after.1 h)

/-- An expression for which nothing else is asked. -/
theorem Expr.breaksIn_of_read {c d : Cursor} (hc : c.size ≤ n) {e : ParseError}
    (h : (Expr.read .lowest c).Fails e d) :
    c.BreaksIn (Expr.Begun .equality) e d :=
  (Expr.breaksAs_of_read ih (by decide) hc h).equality

theorem Expr.breaksIn_of_list {close : Kind} (hclose : close ≠ .comma)
    {c d : Cursor} (hc : c.size ≤ n) {e : ParseError} {hle : c.size ≤ c.size}
    (h : (list close (fun t c _ => Expr.readFrom .lowest t c) c hle).Fails e
      d) :
    c.BreaksIn (Listed.Begun (Expr.Derives .equality) (Expr.Begun .equality)) e
      d := by
  refine h.breaksIn_list hclose .nothing .whole ?_ ?_
  · intro t c' hlt a d ha
    obtain ⟨ts, hts, hr⟩ :=
      Expr.derivedBelow n (by decide) (Nat.lt_of_lt_of_le hlt hc) ha
    exact ⟨ts, hts, hr.derives⟩
  · intro t c' hlt e d he
    exact (ih (by decide) (Nat.lt_of_lt_of_le hlt hc) he).equality

theorem Expr.breaksIn_of_readPair {t : Token} {c d : Cursor} (hc : c.size < n)
    {e : ParseError} (h : (Expr.readPair t c).Fails e d) :
    (c.before [t]).BreaksIn
      (Paired.Begun (Expr.Derives .equality) (Expr.Begun .equality)) e d := by
  rw [Expr.readPair] at h
  simp only [fails_andThen, fails_map] at h
  obtain h | ⟨key, c₁, hle₁, hgives, h⟩ := h
  · exact (ih (by decide) hc h).equality.mono .key
  · obtain ⟨ts, rfl, hr⟩ := Expr.derivedBelow n (by decide) hc hgives
    have hkey := hr.derives
    rw [Cursor.before_before]
    obtain h | ⟨_, c₂, hle₂, hcolon, h⟩ := h
    · exact .behind h.breaks_expect (t :: ts) (.key (.whole hkey))
    · obtain ⟨u, hu, rfl⟩ := gives_expect.1 hcolon
      have hvalue := Expr.breaksIn_of_read ih
        (Nat.le_trans hle₂ (Nat.le_trans hle₁ (Nat.le_of_lt hc))) h
      rw [Cursor.before_before]
      refine hvalue.before ([t] ++ ts ++ [u]) fun hbegun => ?_
      simpa [hu] using Paired.Begun.value hkey hbegun

/-- **A statement that breaks off is the beginning of a statement.** -/
theorem Stmt.breaksIn_of_readFrom {t : Token} {c d : Cursor} (hc : c.size < n)
    {e : ParseError} (h : (Stmt.readFrom t c).Fails e d) :
    (c.before [t]).BreaksIn Stmt.Begun e d := by
  rw [Stmt.readFrom] at h
  split at h
  · rename_i hk
    simp only [fails_andThen, fails_map] at h
    obtain h | ⟨x, c₁, hle₁, hname, h⟩ := h
    · refine .behind h.breaks_name [t] ?_
      simpa [hk] using Stmt.Begun.bind
    · obtain ⟨u, hu, rfl⟩ := gives_name.1 hname
      rw [Cursor.before_before]
      obtain h | ⟨_, c₂, hle₂, hassign, h⟩ := h
      · refine .behind h.breaks_expect ([t] ++ [u]) ?_
        simpa [hk, hu] using Stmt.Begun.target
      · obtain ⟨v, hv, rfl⟩ := gives_expect.1 hassign
        have hvalue := Expr.breaksIn_of_read ih
          (Nat.le_trans hle₂ (Nat.le_trans hle₁ (Nat.le_of_lt hc))) h
        rw [Cursor.before_before]
        refine hvalue.before ([t] ++ [u] ++ [v]) fun hbegun => ?_
        simpa [hk, hu, hv] using Stmt.Begun.value hbegun
  · rename_i hk
    have hvalue :=
      Expr.breaksIn_of_read ih (Nat.le_of_lt hc) (fails_map.1 h)
    refine hvalue.before [t] fun hbegun => ?_
    simpa [hk] using Stmt.Begun.ret hbegun
  · exact (ih (by decide) hc (fails_map.1 h)).equality.mono .expr

/-- The statements before the one that breaks off are complete. -/
theorem Block.breaksIn_of_readRest {c d : Cursor} (hc : c.size ≤ n)
    {e : ParseError} (hfails : (Block.readRest c).Fails e d) :
    c.BreaksIn Body.Begun e d := by
  obtain h | ⟨t, c₁, rfl, h⟩ := Block.fails_readRest hfails
  · exact ⟨[], [], .stmt (.expr .nothing), h⟩
  · rw [Cursor.size_before, List.length_singleton] at hc
    obtain ⟨hk, h⟩ | h | ⟨s, c₂, hs, h⟩ := h
    · refine (Block.breaksIn_of_readRest (by omega) h).before [t] fun hb => ?_
      simpa [hk] using Body.Begun.semicolon hb
    · exact (Stmt.breaksIn_of_readFrom ih (by omega) h).mono .stmt
    · have hle := hs.size_le
      obtain ⟨ts, rfl, hstmt, hstops⟩ :=
        Stmt.derives_of_readFrom (Expr.derivedBelow n) (by omega) hs
      obtain ⟨us, bs, hbegun, hbreaks⟩ :=
        Block.breaksIn_of_readRest (by omega) h
      have hapart : Apart (us.map Token.kind) := by
        cases hbreaks with
        | atEnd => exact hstops.apart (List.append_nil _).symm
        | atToken _ => exact hstops.apart rfl
      refine ⟨t :: ts ++ us, bs, ?_, ?_⟩
      · rw [List.map_append]
        exact .cons hstmt hapart hbegun
      · rw [Cursor.before_before]
        exact hbreaks.before (t :: ts)
termination_by c.size
decreasing_by all_goals grind [Cursor.size_before]

theorem Block.breaksIn_of_read {c d : Cursor} (hc : c.size ≤ n)
    {e : ParseError} (h : (Block.read c).Fails e d) :
    c.openBlock.BreaksIn Body.Begun e d := by
  rw [Block.read] at h
  exact Block.breaksIn_of_readRest ih (by rwa [Cursor.size_openBlock]) h

/-- **A continuation that breaks off** is the beginning of an expression of the
layer of its operator, behind the expression that it takes. -/
theorem Expr.breaksIn_of_continueWith {t : Token} {k : Continuation}
    (hk : t.kind.continuation? = some k) {m : Layer}
    (hm : k.precedence ≤ m.ceiling) {ts : List Token} {left : Expr}
    (hleft : Expr.Derives m (ts.map Token.kind) left) {c d : Cursor}
    (hc : c.size ≤ n) {e : ParseError}
    (h : (Expr.continueWith k left c).Fails e d) :
    ∃ l : Layer, k.precedence = l.ceiling
      ∧ (c.before (ts ++ [t])).BreaksIn (Expr.Begun l) e d := by
  rw [Expr.continueWith.eq_def] at h
  cases k with
  | binary op =>
    obtain ⟨l, hl, hright⟩ := Expr.breaksAs_of_read ih op.precedence_le_unary hc
      (fails_map.1 h)
    have hmem := BinaryOp.mem_operators_layer hk
    have hop := (Layer.continuation?_of_mem_operators hmem).2.1
    have hrank := Layer.rank_le_of_ceiling_le (m := m) op.layer_ne_primary
      (by rwa [← hop])
    refine ⟨op.layer, hop, hright.before (ts ++ [t]) fun hbegun => ?_⟩
    simpa using Expr.Begun.binary hmem (hleft.loosenTo hrank)
      (hbegun.loosenTo (op.rank_next_layer_le hl))
  | call =>
    have hcallee := hleft.loosenTo (Layer.rank_applied_le hm)
    refine ⟨.applied, rfl, (Expr.breaksIn_of_list ih (by decide) hc
      (fails_map.1 h)).before (ts ++ [t]) fun hbegun => ?_⟩
    simpa [Kind.eq_of_continuation?_call hk] using
      Expr.Begun.call hcallee hbegun
  | index =>
    have hcollection := hleft.loosenTo (Layer.rank_applied_le hm)
    refine ⟨.applied, rfl, ?_⟩
    simp only [fails_andThen, fails_map] at h
    obtain h | ⟨position, c₁, hle, hposition, h⟩ := h
    · refine (Expr.breaksIn_of_read ih hc h).before (ts ++ [t]) fun hbegun => ?_
      simpa [Kind.eq_of_continuation?_index hk] using
        Expr.Begun.index hcollection hbegun
    · obtain ⟨us, rfl, hr⟩ := Expr.readAs_of_read (Expr.derivedBelow n)
        (by decide) hc hposition
      rw [Cursor.before_before]
      refine .behind h.breaks_expect (ts ++ [t] ++ us) ?_
      simpa [Kind.eq_of_continuation?_index hk] using
        Expr.Begun.index hcollection (.whole hr.derives)

/-- **The loop of the reader**, with the invariant it has for readings that
succeed. -/
theorem Expr.breaksAs_of_extend {p : Precedence} {m : Layer}
    {ts : List Token} {left : Expr}
    (hleft : Expr.Derives m (ts.map Token.kind) left) {c d : Cursor}
    (hc : c.size ≤ n) (hstops : c.Stops m.ceiling) {e : ParseError}
    (h : (Expr.extend p left c).Fails e d) :
    Expr.BreaksAs p (c.before ts) e d := by
  obtain ⟨t, c₁, rfl, k, hk, hlt, h⟩ := Expr.fails_extend h
  rw [Cursor.size_before, List.length_singleton] at hc
  have hceil : k.precedence ≤ m.ceiling := by
    rw [← Kind.precedence_of_some hk]
    exact hstops t rfl
  rw [Cursor.before_before]
  obtain h | ⟨e₁, c₂, h₁, h₂⟩ := h
  · obtain ⟨l, hkl, hbreaks⟩ :=
      Expr.breaksIn_of_continueWith ih hk hceil hleft (by omega) h
    rw [hkl] at hlt
    exact ⟨l, Layer.le_floor_of_lt_ceiling hlt, hbreaks⟩
  · have hle := h₁.size_le
    obtain ⟨l, us, rfl, -, hl, hstops'⟩ := Expr.derives_of_continueWith
      (Expr.derivedBelow n) hk hceil hleft (by omega) h₁
    have hrest := Expr.breaksAs_of_extend hl (by omega) hstops' h₂
    rw [Cursor.before_before]
    simpa using hrest
termination_by c.size
decreasing_by grind [Cursor.size_before]

/-- **A conditional that breaks off**: in its condition, in its consequence or
in its alternative. -/
theorem Expr.breaksIn_of_conditional {t : Token} (hk : t.kind = .kwIf)
    {c d : Cursor} (hc : c.size ≤ n) {e : ParseError}
    (h : (Expr.readOperand t c).Fails e d) :
    (c.before [t]).BreaksIn (Expr.Begun .primary) e d := by
  rw [Expr.readOperand, hk] at h
  simp only [fails_andThen, fails_map] at h
  obtain h | ⟨condition, c₁, hle₁, hcondition, h⟩ := h
  · refine (Expr.breaksIn_of_read ih hc h).before [t] fun hbegun => ?_
    simpa [hk] using Expr.Begun.condition hbegun
  obtain ⟨ts, rfl, hr⟩ :=
    Expr.readAs_of_read (Expr.derivedBelow n) (by decide) hc hcondition
  have hderives := hr.derives
  rw [Cursor.before_before]
  obtain h | ⟨_, c₂, hle₂, hbrace, h⟩ := h
  · refine .behind h.breaks_expect ([t] ++ ts) ?_
    simpa [hk] using Expr.Begun.condition (.whole hderives)
  obtain ⟨u, hu, rfl⟩ := gives_expect.1 hbrace
  rw [Cursor.before_before]
  obtain h | ⟨consequence, c₃, hle₃, hconsequence, h⟩ := h
  · refine (Block.breaksIn_of_read ih (by omega) h).block ([t] ++ ts ++ [u])
      fun hbegun => ?_
    simpa [hk, hu] using Expr.Begun.consequence hderives hbegun
  obtain ⟨us, v, hv, rfl, hbody⟩ :=
    Block.body_of_read (Expr.derivedBelow n) (by omega) hconsequence
  obtain ⟨w, c₄, rfl, hw, helse⟩ := Expr.fails_readElse h
  rw [Cursor.before_before, Cursor.before_before]
  obtain h | ⟨x, c₅, hx, rfl, hblock⟩ := helse
  · refine .behind h ([t] ++ ts ++ [u] ++ (us ++ [v]) ++ [w]) ?_
    simpa [hk, hu, hv, hw] using Expr.Begun.otherwise hderives hbody
  · have hsize : c₅.size ≤ n := by grind [Cursor.size_before]
    rw [Cursor.before_before]
    refine (Block.breaksIn_of_read ih hsize hblock).block
      ([t] ++ ts ++ [u] ++ (us ++ [v]) ++ [w] ++ [x]) fun hbegun => ?_
    simpa [hk, hu, hv, hw, hx] using
      Expr.Begun.alternative hderives hbody hbegun

/-- **A function that breaks off**: in its parameters or in its body. -/
theorem Expr.breaksIn_of_function {t : Token} (hk : t.kind = .kwFn)
    {c d : Cursor} (hc : c.size ≤ n) {e : ParseError}
    (h : (Expr.readOperand t c).Fails e d) :
    (c.before [t]).BreaksIn (Expr.Begun .primary) e d := by
  have hnamed {t : Token} {c d : Cursor} {a : String}
      (hname : (nameOf t c).Gives a d) :
      ∃ ts, c = d.before ts ∧ Named ((t :: ts).map Token.kind) a := by
    obtain ⟨ht, rfl⟩ := gives_nameOf.1 hname
    exact ⟨[], rfl, by simpa [ht] using Named.name⟩
  rw [Expr.readOperand, hk] at h
  simp only [fails_andThen, fails_map] at h
  obtain h | ⟨_, c₁, hle₁, hparen, h⟩ := h
  · refine .behind h.breaks_expect [t] ?_
    simpa [hk] using Expr.Begun.fn
  obtain ⟨u, hu, rfl⟩ := gives_expect.1 hparen
  rw [Cursor.before_before]
  obtain h | ⟨params, c₂, hle₂, hparams, h⟩ := h
  · have hlist := h.breaksIn_list (D := Named) (B := Named.Begun)
      (by decide) .nothing (by rintro _ _ ⟨⟩; exact .whole) hnamed
      (fun hname => by
        obtain ⟨habout, rfl⟩ := hname.about_nameOf
        exact ⟨[], [], .nothing, .here habout _⟩)
    refine hlist.before ([t] ++ [u]) fun hbegun => ?_
    simpa [hk, hu] using Expr.Begun.params hbegun
  obtain ⟨ts, v, hv, rfl, hlisted⟩ :=
    hparams.listed (by decide) (D := Named) hnamed
  rw [Cursor.before_before]
  obtain h | ⟨_, c₃, hle₃, hbrace, h⟩ := h
  · refine .behind h.breaks_expect ([t] ++ [u] ++ (ts ++ [v])) ?_
    simpa [hk, hu, hv] using Expr.Begun.signature hlisted
  · obtain ⟨w, hw, rfl⟩ := gives_expect.1 hbrace
    rw [Cursor.before_before]
    refine (Block.breaksIn_of_read ih (by omega) h).block
      ([t] ++ [u] ++ (ts ++ [v]) ++ [w]) fun hbegun => ?_
    simpa [hk, hu, hv, hw] using Expr.Begun.body hlisted hbegun

/-- **An operand that breaks off.** -/
theorem Expr.breaksAs_of_readOperand {t : Token} {c d : Cursor}
    (hc : c.size ≤ n) {e : ParseError}
    (h : (Expr.readOperand t c).Fails e d) :
    Expr.BreaksAs .unary (c.before [t]) e d := by
  have primary (h : (c.before [t]).BreaksIn (Expr.Begun .primary) e d) :
      Expr.BreaksAs .unary (c.before [t]) e d := ⟨.primary, by decide, h⟩
  have here (habout : e.About t) (hd : c = d) :
      Expr.BreaksAs .unary (c.before [t]) e d := by
    subst hd
    exact primary ⟨[], [], .nothing, .here habout c⟩
  have unary (op : UnaryOp) (hk : t.kind = op.kind)
      (h : (Expr.read .unary c).Fails e d) :
      Expr.BreaksAs .unary (c.before [t]) e d := by
    obtain ⟨l, hl, hbreaks⟩ :=
      Expr.breaksAs_of_read ih (Nat.le_refl _) hc h
    refine ⟨.unary, Nat.le_refl _, hbreaks.before [t] fun hbegun => ?_⟩
    rw [List.map_singleton, hk]
    exact .unary (hbegun.loosenTo (Layer.rank_unary_le hl))
  cases hk : t.kind with
  | ident _ | str _ | kwTrue | kwFalse =>
    rw [Expr.readOperand, hk] at h
    exact absurd h not_fails_succeed
  | int digits =>
    rw [Expr.readOperand, hk] at h
    obtain ⟨-, rfl, hd⟩ := fails_ofOption.1 (fails_map.1 h)
    exact here hk hd
  | minus =>
    rw [Expr.readOperand, hk] at h
    exact unary .minus hk (fails_map.1 h)
  | bang =>
    rw [Expr.readOperand, hk] at h
    exact unary .bang hk (fails_map.1 h)
  | leftParen =>
    rw [Expr.readOperand, hk] at h
    simp only [fails_andThen, fails_map] at h
    refine primary ?_
    obtain h | ⟨inner, c₁, hle, hinner, h⟩ := h
    · refine (Expr.breaksIn_of_read ih hc h).before [t] fun hbegun => ?_
      simpa [hk] using Expr.Begun.group hbegun
    · obtain ⟨ts, rfl, hr⟩ :=
        Expr.readAs_of_read (Expr.derivedBelow n) (by decide) hc hinner
      rw [Cursor.before_before]
      refine .behind h.breaks_expect ([t] ++ ts) ?_
      simpa [hk] using Expr.Begun.group (.whole hr.derives)
  | leftBracket =>
    rw [Expr.readOperand, hk] at h
    refine primary ((Expr.breaksIn_of_list ih (by decide) hc
      (fails_map.1 h)).before [t] fun hbegun => ?_)
    simpa [hk] using Expr.Begun.array hbegun
  | leftBrace =>
    rw [Expr.readOperand, hk] at h
    have hpairs := (fails_map.1 h).breaksIn_list
      (D := Paired (Expr.Derives .equality)) (by decide) (.key .nothing)
      (fun hpair => by
        cases hpair with
        | pair hkey hvalue => exact .value hkey (.whole hvalue))
      (fun hpair => Expr.paired_of_readPair (Expr.derivedBelow n)
        (Nat.lt_of_lt_of_le ‹_› hc) hpair)
      (fun hpair => Expr.breaksIn_of_readPair ih
        (Nat.lt_of_lt_of_le ‹_› hc) hpair)
    refine primary (hpairs.hash [t] fun hbegun => ?_)
    simpa [hk] using Expr.Begun.hash hbegun
  | kwIf => exact primary (Expr.breaksIn_of_conditional ih hk hc h)
  | kwFn => exact primary (Expr.breaksIn_of_function ih hk hc h)
  | illegal text =>
    rw [Expr.readOperand, hk] at h
    obtain ⟨rfl, hd⟩ := fails_fail.1 h
    exact here (.inl hk) hd
  | unclosedString =>
    rw [Expr.readOperand, hk] at h
    obtain ⟨rfl, hd⟩ := fails_fail.1 h
    exact here (.inr ⟨hk, rfl⟩) hd
  | _ =>
    rw [Expr.readOperand, hk] at h
    obtain ⟨rfl, hd⟩ := fails_fail.1 h
    exact here rfl hd

end

theorem Expr.begunBelow (n : Nat) : Expr.BegunBelow n := by
  induction n with
  | zero =>
    intro p t c d e _ hc
    exact absurd hc (Nat.not_lt_zero _)
  | succ n ih =>
    intro p t c d e hp hc h
    have hcn : c.size ≤ n := Nat.le_of_lt_succ hc
    obtain h | ⟨left, c₁, hleft, hextend⟩ := Expr.fails_readFrom.1 h
    · obtain ⟨l, hl, hbreaks⟩ := Expr.breaksAs_of_readOperand ih hcn h
      exact ⟨l, Nat.le_trans hp hl, hbreaks⟩
    · have hle := hleft.size_le
      obtain ⟨l, ts, rfl, -, hd, hstops⟩ :=
        Expr.derives_of_readOperand (Expr.derivedBelow n) hcn hleft
      rw [Cursor.before_before]
      exact Expr.breaksAs_of_extend ih hd (by omega) hstops hextend

/-- **What is read of a faulty statement** before the fault is the beginning of
a statement, and the blocks that it has opened and not closed are those counted
as nesting. -/
theorem Stmt.begun_of_readFrom {t : Token} {c d : Cursor} {e : ParseError}
    (h : (Stmt.readFrom t c).Fails e d) :
    (c.before [t]).BreaksIn Stmt.Begun e d :=
  Stmt.breaksIn_of_readFrom (Expr.begunBelow _) (Nat.lt_succ_self _) h

end Monkey
