import Monkey.Program.Read
import Monkey.Proofs.Failure

/-!
# What a reading depends on

A reading depends on the tokens it reads and on the one behind them, and of
these it looks at the kinds only. So two token lists with a common front are
read alike as far as the reading stays within the front, and relabelling tokens
relabels the errors and changes nothing else.

Both are said at once. Two cursors are *alike* (`Cursor.Alike`) if the tokens
ahead of them have the same front, up to a relabelling `f` that keeps kinds;
behind the front stand `rest` and `rest'`, which may be anything. Two readings
*agree* (`Reading.Agrees`) if the second does what the first does, provided the
first is *settled* within the front: it stops with a token of the front still
ahead, or it fails at the last token of the front, or there is nothing behind
the front. What agrees is closed under putting readings after each other, and
the readers are put together in that way.
-/

namespace Monkey

open Token (Kind)
open Reading

/-- Whether an error is the end of the tokens. -/
def ParseError.isEnd : ParseError → Bool
  | unexpectedEnd _ => true
  | _ => false

/-- The error about the token that `f` makes of the one it is about. -/
def ParseError.relabel (f : Token → Token) : ParseError → ParseError
  | unexpectedToken expected got => unexpectedToken expected (f got)
  | noOperand got => noOperand (f got)
  | error => error

/-- The end of the tokens is about no token. -/
theorem ParseError.relabel_of_isEnd {e : ParseError} (h : e.isEnd)
    (f : Token → Token) : e.relabel f = e := by
  cases e with
  | unexpectedEnd _ => rfl
  | _ => cases h

@[simp] theorem ParseError.relabel_id (e : ParseError) : e.relabel id = e := by
  cases e <;> rfl

/-- **A reading is strict** if it fails behind the token that the error is
about, unless the error is the end of the tokens. -/
def Reading.Strict {α : Type} {n : Nat} (r : Reading α n) : Prop :=
  ∀ e, r.result = .error e → ¬ e.isEnd → r.cursor.size < n

section

variable {α β : Type} {m n : Nat}

theorem Reading.strict_of_ok {r : Reading α n} {a : α} (h : r.result = .ok a) :
    r.Strict := by
  intro e he
  rw [h] at he
  cases he

theorem Reading.strict_of_isEnd {r : Reading α n} {e : ParseError}
    (h : r.result = .error e) (he : e.isEnd) : r.Strict := by
  intro e' he' hend
  rw [h] at he'
  cases he'
  exact absurd he hend

/-- Behind a token that has been read, every reading is strict. -/
theorem Reading.strict_after {ts : List Token} {k : Nat} (t : Token)
    (r : Reading α (Cursor.mk ts k).size) : (r.after t).Strict :=
  fun _ _ _ => Nat.lt_succ_of_le r.size_le

/-- What is done with the result does not matter for strictness. -/
theorem Reading.Strict.map {r : Reading α n} (h : r.Strict) (f : α → β) :
    (r.map f).Strict :=
  fun e he => h e (result_map_eq_error_iff.1 he)

/-- **Strict readings put after each other are strict**: an error of the second
is behind its token, and so behind the start of the first. -/
theorem Reading.Strict.andThen {r : Reading α n}
    {g : α → (c : Cursor) → c.size ≤ n → Reading β c.size} (h : r.Strict)
    (hg : ∀ a c hle, (g a c hle).Strict) : (r.andThen g).Strict := by
  cases hr : r.result with
  | ok a =>
    rw [andThen_of_ok hr]
    intro e he hend
    exact Nat.lt_of_lt_of_le (hg a _ r.size_le e he hend) r.size_le
  | error e =>
    rw [andThen_of_error hr]
    intro e' he'
    cases he'
    exact h e hr

theorem Reading.strict_expect (kind : Kind) (c : Cursor) :
    (expect kind c).Strict := by
  match c with
  | ⟨[], k⟩ => exact strict_of_isEnd rfl rfl
  | ⟨t :: ts, k⟩ =>
    rw [expect]
    split
    · exact strict_after t _
    · exact strict_after t _

theorem Reading.strict_name (c : Cursor) : (name c).Strict := by
  match c with
  | ⟨[], k⟩ => exact strict_of_isEnd rfl rfl
  | ⟨t :: ts, k⟩ => exact strict_after t _

theorem Reading.strict_separator (close : Kind) (c : Cursor) :
    (separator close c).Strict := by
  match c with
  | ⟨[], k⟩ => exact strict_of_isEnd rfl rfl
  | ⟨t :: ts, k⟩ =>
    rw [separator]
    split
    · exact strict_after t _
    · split
      · exact strict_after t _
      · exact strict_after t _

/-- A list is read strictly whatever its elements are, since its first token is
read before the first element. -/
theorem Reading.strict_list (close : Kind)
    (element : Token → (c : Cursor) → c.size < n → Reading α c.size)
    (c : Cursor) (hc : c.size ≤ n) : (list close element c hc).Strict := by
  match c, hc with
  | ⟨[], k⟩, hc =>
    rw [list]
    exact strict_of_isEnd rfl rfl
  | ⟨t :: ts, k⟩, hc =>
    rw [list]
    split
    · exact strict_after t _
    · exact strict_after t _

/-- The reader of expressions is strict. -/
theorem Expr.strict_read (p : Precedence) (c : Cursor) :
    (Expr.read p c).Strict := by
  match c with
  | ⟨[], k⟩ =>
    rw [Expr.read]
    exact strict_of_isEnd rfl rfl
  | ⟨t :: ts, k⟩ =>
    rw [Expr.read]
    exact strict_after t _

/-- The reader of blocks is strict. -/
theorem Block.strict_readRest (c : Cursor) : (Block.readRest c).Strict := by
  match c with
  | ⟨[], k⟩ =>
    rw [Block.readRest]
    exact strict_of_isEnd rfl rfl
  | ⟨t :: ts, k⟩ =>
    rw [Block.readRest]
    split
    · exact strict_after t _
    · split
      · exact strict_of_ok rfl
      · exact strict_after t _

theorem Block.strict_read (c : Cursor) : (Block.read c).Strict := by
  rw [Block.read]
  exact Block.strict_readRest c.openBlock

/-- Looking for an alternative is strict; if there is none, nothing is read. -/
theorem Expr.strict_readElse (c : Cursor) : (Expr.readElse c).Strict := by
  match c with
  | ⟨[], k⟩ =>
    rw [Expr.readElse]
    exact strict_of_ok rfl
  | ⟨t :: ts, k⟩ =>
    rw [Expr.readElse]
    split
    · exact strict_after t _
    · exact strict_of_ok rfl

/-- Extending an operand is strict; it stops without an error before a token
that does not continue the operand. -/
theorem Expr.strict_extend (p : Precedence) (left : Expr) (c : Cursor) :
    (Expr.extend p left c).Strict := by
  match c with
  | ⟨[], k⟩ =>
    rw [Expr.extend]
    exact strict_of_ok rfl
  | ⟨t :: ts, k⟩ =>
    rw [Expr.extend]
    split
    · exact strict_of_ok rfl
    · split
      · exact strict_after t _
      · exact strict_of_ok rfl

end

/-! ## Agreement -/

section

variable (f : Token → Token) (rest rest' : List Token)

/-- **The cursors are alike**: the tokens ahead of them have a common front, up
to the relabelling, with `rest` and `rest'` behind it. -/
inductive Cursor.Alike : Cursor → Cursor → Prop where
  | mk (us : List Token) (k : Nat) :
      Cursor.Alike ⟨us ++ rest, k⟩ ⟨us.map f ++ rest', k⟩

theorem Cursor.Alike.exists_eq {f : Token → Token} {rest rest' : List Token}
    {c c' : Cursor} (h : Cursor.Alike f rest rest' c c') :
    ∃ us k, c = ⟨us ++ rest, k⟩ ∧ c' = ⟨us.map f ++ rest', k⟩ := by
  obtain ⟨us, k⟩ := h
  exact ⟨us, k, rfl, rfl⟩

/-- A cursor within the front has more ahead of it than what stands behind the
front. -/
theorem Cursor.length_lt_size {us : List Token} (h : us ≠ [])
    (rest : List Token) (k : Nat) :
    rest.length < (Cursor.mk (us ++ rest) k).size := by
  have hpos := List.length_pos_iff.2 h
  rw [Cursor.size_mk, List.length_append]
  omega

variable {α β : Type} {n n' : Nat}

/-- **The reading is settled within the front.** -/
def Reading.Settled (r : Reading α n) : Prop :=
  rest.length < r.cursor.size ∨ (rest = [] ∧ rest' = [])
    ∨ rest.length = r.cursor.size ∧ ∃ e, r.result = .error e ∧ ¬ e.isEnd

/-- **The readings agree**: if the first is settled, the second ends alike. -/
def Reading.Agrees (r : Reading α n) (r' : Reading α n') : Prop :=
  r.Settled rest rest' →
    r'.result = r.result.mapError (ParseError.relabel f)
      ∧ Cursor.Alike f rest rest' r.cursor r'.cursor

end

section

variable {f : Token → Token} {rest rest' : List Token} {α β : Type}
  {m m' n n' : Nat}

/-- Readings that take nothing and succeed agree. -/
theorem Reading.agrees_succeed {c c' : Cursor}
    (h : Cursor.Alike f rest rest' c c') (a : α) :
    Agrees f rest rest' (succeed a c) (succeed a c') :=
  fun _ => ⟨rfl, h⟩

/-- Readings that take nothing and fail agree if the errors are about a token
and the token that is made of it. -/
theorem Reading.agrees_fail {c c' : Cursor}
    (h : Cursor.Alike f rest rest' c c') (e : ParseError) :
    Agrees f rest rest' (fail e c : Reading α c.size) (fail (e.relabel f) c') :=
  fun _ => ⟨rfl, h⟩

theorem Reading.Agrees.weaken {r : Reading α m} {r' : Reading α m'}
    (h : Agrees f rest rest' r r') (hn : m ≤ n) (hn' : m' ≤ n') :
    Agrees f rest rest' (r.weaken hn) (r'.weaken hn') := h

/-- Readings agree after the same is done with their results. -/
theorem Reading.Agrees.map {r : Reading α n} {r' : Reading α n'}
    (h : Agrees f rest rest' r r') (g : α → β) :
    Agrees f rest rest' (r.map g) (r'.map g) := by
  intro hsettled
  have hr : r.Settled rest rest' := by
    refine hsettled.imp_right (Or.imp_right ?_)
    rintro ⟨hsize, e, he, hend⟩
    exact ⟨hsize, e, result_map_eq_error_iff.1 he, hend⟩
  obtain ⟨hresult, hcursor⟩ := h hr
  refine ⟨?_, hcursor⟩
  rw [result_map, result_map, hresult]
  cases r.result <;> rfl

/-- **Readings put after each other agree** as their parts do. The first part is
settled if the whole is: what comes after it only reads on. -/
theorem Reading.Agrees.andThen {r : Reading α n} {r' : Reading α n'}
    {g : α → (c : Cursor) → c.size ≤ n → Reading β c.size}
    {g' : α → (c : Cursor) → c.size ≤ n' → Reading β c.size}
    (h : Agrees f rest rest' r r') (hstrict : ∀ a c hle, (g a c hle).Strict)
    (hg : ∀ a c c' hle hle', Cursor.Alike f rest rest' c c' →
      Agrees f rest rest' (g a c hle) (g' a c' hle')) :
    Agrees f rest rest' (r.andThen g) (r'.andThen g') := by
  cases hr : r.result with
  | error e =>
    rw [andThen_of_error hr]
    intro hsettled
    have hr' : r.Settled rest rest' := by
      refine hsettled.imp_right (Or.imp_right ?_)
      rintro ⟨hsize, e', he', hend⟩
      cases he'
      exact ⟨hsize, e, hr, hend⟩
    obtain ⟨hresult, hcursor⟩ := h hr'
    rw [hr] at hresult
    rw [andThen_of_error hresult]
    exact ⟨rfl, hcursor⟩
  | ok a =>
    rw [andThen_of_ok hr]
    intro hsettled
    have hle := (g a r.cursor r.size_le).size_le
    have hr' : r.Settled rest rest' := by
      obtain hlt | hnil | ⟨hsize, e, he, hend⟩ := hsettled
      · exact .inl (Nat.lt_of_lt_of_le hlt hle)
      · exact .inr (.inl hnil)
      · have hlt := hstrict a r.cursor r.size_le e he hend
        exact .inl (hsize ▸ hlt)
    obtain ⟨hresult, hcursor⟩ := h hr'
    rw [hr] at hresult
    rw [andThen_of_ok hresult]
    exact hg a _ _ _ _ hcursor hsettled

/-- Readings agree behind any tokens: being settled is about where they end. -/
theorem Reading.Agrees.after {ts ts' : List Token} {k k' : Nat}
    {r : Reading α (Cursor.mk ts k).size}
    {r' : Reading α (Cursor.mk ts' k').size} (h : Agrees f rest rest' r r')
    (t t' : Token) : Agrees f rest rest' (r.after t) (r'.after t') := h

/-- **Where the front ends**, a strict reading is settled only if nothing stands
behind the front; and there all that is read is the end. -/
theorem Reading.agrees_nil {k : Nat} {r : Reading α (Cursor.mk rest k).size}
    {r' : Reading α (Cursor.mk rest' k).size} (hstrict : r.Strict)
    (heq : rest = [] → rest' = [] →
      r'.result = r.result ∧ r'.cursor = r.cursor) :
    Agrees f rest rest' r r' := by
  intro hsettled
  have hle := r.size_le
  have hnil : rest = [] ∧ rest' = [] := by
    obtain hlt | hnil | ⟨hsize, e, he, hend⟩ := hsettled
    · exact absurd hle (Nat.not_le.2 hlt)
    · exact hnil
    · exact absurd hsize (Nat.ne_of_gt (hstrict e he hend))
  obtain ⟨rfl, rfl⟩ := hnil
  obtain ⟨hresult, hcursor⟩ := heq rfl rfl
  rw [hresult, hcursor]
  constructor
  · cases hr : r.result with
    | ok a => rfl
    | error e =>
      by_cases hend : e.isEnd
      · exact congrArg Except.error (ParseError.relabel_of_isEnd hend f).symm
      · exact absurd (hstrict e hr hend) (Nat.not_lt_zero _)
  · generalize r.cursor = d at hle
    obtain ⟨ts, k'⟩ := d
    obtain rfl : ts = [] := List.length_eq_zero_iff.1 (Nat.le_zero.1 hle)
    exact .mk [] k'

/-- **A strict reader agrees with itself on alike cursors** if it does behind a
common first token. -/
theorem Reading.agrees_of_cons (read : (c : Cursor) → Reading α c.size)
    (hstrict : ∀ c, (read c).Strict) {c c' : Cursor}
    (h : Cursor.Alike f rest rest' c c')
    (hcons : ∀ t us k, c = ⟨t :: (us ++ rest), k⟩ →
      Agrees f rest rest' (read ⟨t :: (us ++ rest), k⟩)
        (read ⟨f t :: (us.map f ++ rest'), k⟩)) :
    Agrees f rest rest' (read c) (read c') := by
  obtain ⟨us, k⟩ := h
  cases us with
  | nil =>
    refine agrees_nil (hstrict _) ?_
    rintro rfl rfl
    exact ⟨rfl, rfl⟩
  | cons t us => exact hcons t us k rfl

end

/-! ## Tokens, names and lists -/

section

variable {f : Token → Token} (hf : ∀ t, (f t).kind = t.kind)
  {rest rest' : List Token} {α : Type} {n n' : Nat}

include hf

/-- A token of a certain kind is found in both lists or in neither. -/
theorem Reading.agrees_expect (kind : Kind) {c c' : Cursor}
    (h : Cursor.Alike f rest rest' c c') :
    Agrees f rest rest' (expect kind c) (expect kind c') := by
  refine agrees_of_cons (expect kind) (strict_expect kind) h ?_
  intro t us k _
  rw [expect, expect, hf]
  split
  · exact (agrees_succeed (.mk us k) ()).after t (f t)
  · exact (agrees_fail (.mk us k) _).after t (f t)

/-- A name is a matter of the token's kind. -/
theorem Reading.agrees_nameOf (t : Token) {c c' : Cursor}
    (h : Cursor.Alike f rest rest' c c') :
    Agrees f rest rest' (nameOf t c) (nameOf (f t) c') := by
  unfold nameOf
  rw [hf]
  split
  · exact agrees_succeed h _
  · exact agrees_fail h _

theorem Reading.agrees_name {c c' : Cursor}
    (h : Cursor.Alike f rest rest' c c') :
    Agrees f rest rest' (name c) (name c') := by
  refine agrees_of_cons name strict_name h ?_
  intro t us k _
  exact (agrees_nameOf hf t (.mk us k)).after t (f t)

theorem Reading.agrees_separator (close : Kind) {c c' : Cursor}
    (h : Cursor.Alike f rest rest' c c') :
    Agrees f rest rest' (separator close c) (separator close c') := by
  refine agrees_of_cons (separator close) (strict_separator close) h ?_
  intro t us k _
  rw [separator, separator, hf]
  split
  · exact (agrees_succeed (.mk us k) true).after t (f t)
  · split
    · exact (agrees_succeed (.mk us k) false).after t (f t)
    · exact (agrees_fail (.mk us k) _).after t (f t)

/-- **Lists agree** as their elements do. -/
theorem Reading.agrees_list (close : Kind)
    {element : Token → (c : Cursor) → c.size < n → Reading α c.size}
    {element' : Token → (c : Cursor) → c.size < n' → Reading α c.size}
    (helement : ∀ t c c' hlt hlt', Cursor.Alike f rest rest' c c' →
      Agrees f rest rest' (element t c hlt) (element' (f t) c' hlt'))
    {c c' : Cursor} (h : Cursor.Alike f rest rest' c c') (hc : c.size ≤ n)
    (hc' : c'.size ≤ n') :
    Agrees f rest rest' (list close element c hc)
      (list close element' c' hc') := by
  have hmore (a : α) (more : Bool) (c : Cursor) (hle : c.size ≤ n) :
      (if more then (list close element c hle).map (a :: ·)
        else succeed [a] c).Strict := by
    split
    · exact (strict_list close element c hle).map _
    · exact strict_of_ok rfl
  obtain ⟨s, hs⟩ : ∃ s, c.size < s := ⟨_, Nat.lt_succ_self _⟩
  induction s generalizing c c' with
  | zero => exact absurd hs (Nat.not_lt_zero _)
  | succ s ih =>
    obtain ⟨us, k⟩ := h
    cases us with
    | nil =>
      refine agrees_nil (strict_list close element _ hc) ?_
      rintro rfl rfl
      show (list close element' ⟨[], k⟩ hc').result
          = (list close element ⟨[], k⟩ hc).result
        ∧ (list close element' ⟨[], k⟩ hc').cursor
          = (list close element ⟨[], k⟩ hc).cursor
      rw [list, list]
      exact ⟨rfl, rfl⟩
    | cons t us =>
      show Agrees f rest rest' (list close element ⟨t :: (us ++ rest), k⟩ hc)
        (list close element' ⟨f t :: (us.map f ++ rest'), k⟩ hc')
      rw [list, list, hf]
      split
      · exact (agrees_succeed (.mk us k) []).after t (f t)
      · refine Agrees.after ?_ t (f t)
        refine (helement t _ _ _ _ (.mk us k)).andThen
          (fun a d _ => (strict_separator close d).andThen
            fun more d _ => hmore a more d _) ?_
        intro a d d' hle _ hd
        refine (agrees_separator hf close hd).andThen
          (fun more d _ => hmore a more d _) ?_
        · intro more d₁ d₁' hle₁ _ hd₁
          have hlt : d₁.size < s := Nat.lt_of_le_of_lt
            (Nat.le_trans hle₁ hle) (Nat.lt_of_succ_lt_succ hs)
          split
          · exact (ih hd₁ _ _ hlt).map _
          · exact agrees_succeed hd₁ _

end

/-! ## Expressions and statements -/

/-- **Expressions agree** if fewer than `n` tokens are ahead. As for what is
read, all functions of the reader reach the next expression through
`Expr.readFrom`. -/
def Expr.AgreesBelow (f : Token → Token) (rest rest' : List Token) (n : Nat) :
    Prop :=
  ∀ ⦃p : Precedence⦄ ⦃t : Token⦄ ⦃c c' : Cursor⦄, c.size < n →
    Cursor.Alike f rest rest' c c' →
    Agrees f rest rest' (Expr.readFrom p t c) (Expr.readFrom p (f t) c')

section

variable {f : Token → Token} (hf : ∀ t, (f t).kind = t.kind)
  {rest rest' : List Token} {n : Nat}
  (ih : Expr.AgreesBelow f rest rest' n)

include ih

/-- An expression is read from a cursor as from behind its first token. -/
theorem Expr.agrees_read (p : Precedence) {c c' : Cursor} (hc : c.size ≤ n)
    (h : Cursor.Alike f rest rest' c c') :
    Agrees f rest rest' (Expr.read p c) (Expr.read p c') := by
  refine agrees_of_cons (Expr.read p) (Expr.strict_read p) h ?_
  rintro t us k rfl
  rw [Expr.read, Expr.read]
  exact (ih (show (Cursor.mk (us ++ rest) k).size < n from hc)
    (.mk us k)).after t (f t)

include hf

theorem Expr.agrees_list (close : Kind) {c c' : Cursor} (hc : c.size ≤ n)
    (h : Cursor.Alike f rest rest' c c') (hle : c.size ≤ c.size)
    (hle' : c'.size ≤ c'.size) :
    Agrees f rest rest'
      (list close (fun t c _ => Expr.readFrom .lowest t c) c hle)
      (list close (fun t c _ => Expr.readFrom .lowest t c) c' hle') := by
  refine Reading.agrees_list hf close ?_ h hle hle'
  intro t d d' hlt _ hd
  exact ih (Nat.lt_of_lt_of_le hlt hc) hd

theorem Expr.agrees_readPair (t : Token) {c c' : Cursor} (hc : c.size < n)
    (h : Cursor.Alike f rest rest' c c') :
    Agrees f rest rest' (Expr.readPair t c) (Expr.readPair (f t) c') := by
  rw [Expr.readPair, Expr.readPair]
  refine (ih hc h).andThen ?_ ?_
  · intro key d _
    exact (strict_expect .colon d).andThen fun _ d' _ =>
      (Expr.strict_read .lowest d').map _
  · intro key d d' hle _ hd
    refine (agrees_expect hf .colon hd).andThen ?_ ?_
    · intro _ d' _
      exact (Expr.strict_read .lowest d').map _
    · intro _ d₁ d₁' hle₁ _ hd₁
      exact (Expr.agrees_read ih .lowest
        (Nat.le_trans hle₁ (Nat.le_trans hle (Nat.le_of_lt hc))) hd₁).map _

/-- **Statements agree** if the expressions in them do. -/
theorem Stmt.agrees_readFrom (t : Token) {c c' : Cursor} (hc : c.size < n)
    (h : Cursor.Alike f rest rest' c c') :
    Agrees f rest rest' (Stmt.readFrom t c) (Stmt.readFrom (f t) c') := by
  rw [Stmt.readFrom, Stmt.readFrom, hf]
  split
  · refine (agrees_name hf h).andThen ?_ ?_
    · intro name d _
      exact (strict_expect .assign d).andThen fun _ d' _ =>
        (Expr.strict_read .lowest d').map _
    · intro name d d' hle _ hd
      refine (agrees_expect hf .assign hd).andThen ?_ ?_
      · intro _ d' _
        exact (Expr.strict_read .lowest d').map _
      · intro _ d₁ d₁' hle₁ _ hd₁
        exact (Expr.agrees_read ih .lowest
          (Nat.le_trans hle₁ (Nat.le_trans hle (Nat.le_of_lt hc))) hd₁).map _
  · exact (Expr.agrees_read ih .lowest (Nat.le_of_lt hc) h).map _
  · exact (ih hc h).map _

/-- **Blocks agree** if the expressions in them do, by recursion on the tokens
ahead. -/
theorem Block.agrees_readRest {c c' : Cursor} (hc : c.size ≤ n)
    (h : Cursor.Alike f rest rest' c c') :
    Agrees f rest rest' (Block.readRest c) (Block.readRest c') := by
  refine agrees_of_cons Block.readRest Block.strict_readRest h ?_
  rintro t us k rfl
  have hlt : (Cursor.mk (us ++ rest) k).size < n := hc
  rw [Block.readRest, Block.readRest, hf]
  split
  · exact (Block.agrees_readRest (Nat.le_of_lt hlt) (.mk us k)).after t (f t)
  · split
    · exact (agrees_succeed (.mk us (k - 1)) []).weaken _ _
    · refine Agrees.after ?_ t (f t)
      refine (Stmt.agrees_readFrom hf ih t hlt (.mk us k)).andThen ?_ ?_
      · intro s d _
        exact (Block.strict_readRest d).map _
      · intro s d d' hle _ hd
        exact (Block.agrees_readRest
          (Nat.le_trans hle (Nat.le_of_lt hlt)) hd).map _
termination_by c.size
decreasing_by
  all_goals grind [Cursor.size_mk]

theorem Block.agrees_read {c c' : Cursor} (hc : c.size ≤ n)
    (h : Cursor.Alike f rest rest' c c') :
    Agrees f rest rest' (Block.read c) (Block.read c') := by
  rw [Block.read, Block.read]
  obtain ⟨us, k⟩ := h
  exact Block.agrees_readRest hf ih hc (.mk us (k + 1))

theorem Expr.agrees_readElse {c c' : Cursor} (hc : c.size ≤ n)
    (h : Cursor.Alike f rest rest' c c') :
    Agrees f rest rest' (Expr.readElse c) (Expr.readElse c') := by
  refine agrees_of_cons Expr.readElse Expr.strict_readElse h ?_
  rintro t us k rfl
  have hlt : (Cursor.mk (us ++ rest) k).size < n := hc
  rw [Expr.readElse, Expr.readElse, hf]
  split
  · refine Agrees.after ?_ t (f t)
    refine (agrees_expect hf .leftBrace (.mk us k)).andThen ?_ ?_
    · intro _ d _
      exact (Block.strict_read d).map _
    · intro _ d d' hle _ hd
      exact (Block.agrees_read hf ih
        (Nat.le_trans hle (Nat.le_of_lt hlt)) hd).map _
  · exact agrees_succeed (.mk (t :: us) k) none

theorem Expr.agrees_continueWith (k : Continuation) (left : Expr)
    {c c' : Cursor} (hc : c.size ≤ n) (h : Cursor.Alike f rest rest' c c') :
    Agrees f rest rest' (Expr.continueWith k left c)
      (Expr.continueWith k left c') := by
  rw [Expr.continueWith.eq_def, Expr.continueWith.eq_def]
  cases k with
  | binary op => exact (Expr.agrees_read ih op.precedence hc h).map _
  | call => exact (Expr.agrees_list hf ih .rightParen hc h _ _).map _
  | index =>
    refine (Expr.agrees_read ih .lowest hc h).andThen ?_ ?_
    · intro position d _
      exact (strict_expect .rightBracket d).map _
    · intro position d d' _ _ hd
      exact (agrees_expect hf .rightBracket hd).map _

/-- **Operands are extended alike** if the expressions behind the operators
agree, by recursion on the tokens ahead. -/
theorem Expr.agrees_extend (p : Precedence) (left : Expr) {c c' : Cursor}
    (hc : c.size ≤ n) (h : Cursor.Alike f rest rest' c c') :
    Agrees f rest rest' (Expr.extend p left c) (Expr.extend p left c') := by
  refine agrees_of_cons (Expr.extend p left) (Expr.strict_extend p left) h ?_
  rintro t us k rfl
  have hlt : (Cursor.mk (us ++ rest) k).size < n := hc
  rw [Expr.extend, Expr.extend, hf]
  split
  · exact agrees_succeed (.mk (t :: us) k) left
  · rename_i continuation _
    split
    · refine Agrees.after ?_ t (f t)
      refine (Expr.agrees_continueWith hf ih continuation left
        (Nat.le_of_lt hlt) (.mk us k)).andThen ?_ ?_
      · intro e d _
        exact Expr.strict_extend p e d
      · intro e d d' hle _ hd
        exact Expr.agrees_extend p e (Nat.le_trans hle (Nat.le_of_lt hlt)) hd
    · exact agrees_succeed (.mk (t :: us) k) left
termination_by c.size
decreasing_by
  grind [Cursor.size_mk]

/-- **Operands agree** if the expressions in them do: which operand is read is a
matter of the kind of its first token. -/
theorem Expr.agrees_readOperand (t : Token) {c c' : Cursor} (hc : c.size ≤ n)
    (h : Cursor.Alike f rest rest' c c') :
    Agrees f rest rest' (Expr.readOperand t c) (Expr.readOperand (f t) c') := by
  rw [Expr.readOperand.eq_def, Expr.readOperand.eq_def, hf]
  cases t.kind with
  | ident name => exact agrees_succeed h _
  | int digits =>
    refine Agrees.map ?_ Expr.int
    cases Integer.parse? digits with
    | some value => exact agrees_succeed h value
    | none => exact agrees_fail h (.integerRange digits)
  | str text => exact agrees_succeed h _
  | kwTrue => exact agrees_succeed h _
  | kwFalse => exact agrees_succeed h _
  | minus => exact (Expr.agrees_read ih .unary hc h).map _
  | bang => exact (Expr.agrees_read ih .unary hc h).map _
  | leftParen =>
    refine (Expr.agrees_read ih .lowest hc h).andThen ?_ ?_
    · intro e d _
      exact (strict_expect .rightParen d).map _
    · intro e d d' _ _ hd
      exact (agrees_expect hf .rightParen hd).map _
  | leftBracket => exact (Expr.agrees_list hf ih .rightBracket hc h _ _).map _
  | leftBrace =>
    refine Agrees.map ?_ Expr.hash
    refine Reading.agrees_list hf .rightBrace ?_ h _ _
    intro t d d' hlt _ hd
    exact Expr.agrees_readPair hf ih t (Nat.lt_of_lt_of_le hlt hc) hd
  | kwIf =>
    refine (Expr.agrees_read ih .lowest hc h).andThen ?_ ?_
    · intro condition d _
      exact (strict_expect .leftBrace d).andThen fun _ d _ =>
        (Block.strict_read d).andThen fun _ d _ =>
          (Expr.strict_readElse d).map _
    · intro condition d d' hle _ hd
      refine (agrees_expect hf .leftBrace hd).andThen ?_ ?_
      · intro _ d _
        exact (Block.strict_read d).andThen fun _ d _ =>
          (Expr.strict_readElse d).map _
      · intro _ d₁ d₁' hle₁ _ hd₁
        refine (Block.agrees_read hf ih (by omega) hd₁).andThen ?_ ?_
        · intro _ d _
          exact (Expr.strict_readElse d).map _
        · intro consequence d₂ d₂' hle₂ _ hd₂
          exact (Expr.agrees_readElse hf ih (by omega) hd₂).map _
  | kwFn =>
    refine (agrees_expect hf .leftParen h).andThen ?_ ?_
    · intro _ d _
      exact (strict_list .rightParen _ d _).andThen fun _ d _ =>
        (strict_expect .leftBrace d).andThen fun _ d _ =>
          (Block.strict_read d).map _
    · intro _ d d' hle _ hd
      refine Agrees.andThen ?_ ?_ ?_
      · exact Reading.agrees_list hf .rightParen
          (fun t _ _ _ _ hcc => agrees_nameOf hf t hcc) hd _ _
      · intro _ d _
        exact (strict_expect .leftBrace d).andThen fun _ d _ =>
          (Block.strict_read d).map _
      · intro params d₁ d₁' hle₁ _ hd₁
        refine (agrees_expect hf .leftBrace hd₁).andThen ?_ ?_
        · intro _ d _
          exact (Block.strict_read d).map _
        · intro _ d₂ d₂' hle₂ _ hd₂
          exact (Block.agrees_read hf ih (by omega) hd₂).map _
  | illegal text => exact agrees_fail h (.illegal text)
  | unclosedString => exact agrees_fail h (.illegal Kind.unclosedReason)
  | _ => exact agrees_fail h (.noOperand t)

end

/-- **Expressions agree**, however many tokens are ahead. -/
theorem Expr.agreesBelow {f : Token → Token} (hf : ∀ t, (f t).kind = t.kind)
    (rest rest' : List Token) (n : Nat) :
    Expr.AgreesBelow f rest rest' n := by
  induction n with
  | zero =>
    intro p t c c' hc
    exact absurd hc (Nat.not_lt_zero _)
  | succ n ih =>
    intro p t c c' hc h
    have hcn : c.size ≤ n := Nat.le_of_lt_succ hc
    rw [Expr.readFrom, Expr.readFrom]
    refine (Expr.agrees_readOperand hf ih t hcn h).andThen ?_ ?_
    · intro left d _
      exact Expr.strict_extend p left d
    · intro left d d' hle _ hd
      exact Expr.agrees_extend hf ih p left (Nat.le_trans hle hcn) hd

/-- **A statement is read alike** from cursors that are alike. -/
theorem Stmt.agrees {f : Token → Token} (hf : ∀ t, (f t).kind = t.kind)
    {rest rest' : List Token} (t : Token) {c c' : Cursor}
    (h : Cursor.Alike f rest rest' c c') :
    Agrees f rest rest' (Stmt.readFrom t c) (Stmt.readFrom (f t) c') :=
  Stmt.agrees_readFrom hf (Expr.agreesBelow hf rest rest' _) t
    (Nat.lt_succ_self _) h

/-- **A reading that is settled does not depend on what stands behind.** -/
theorem Stmt.readFrom_append {t : Token} {us rest rest' : List Token} {k : Nat}
    (h : (Stmt.readFrom t ⟨us ++ rest, k⟩).Settled rest rest') :
    (Stmt.readFrom t ⟨us ++ rest', k⟩).result
        = (Stmt.readFrom t ⟨us ++ rest, k⟩).result
      ∧ ∃ vs m, (Stmt.readFrom t ⟨us ++ rest, k⟩).cursor = ⟨vs ++ rest, m⟩
        ∧ (Stmt.readFrom t ⟨us ++ rest', k⟩).cursor = ⟨vs ++ rest', m⟩ := by
  have halike : Cursor.Alike id rest rest' ⟨us ++ rest, k⟩
      ⟨us.map id ++ rest', k⟩ := .mk us k
  obtain ⟨hresult, hcursor⟩ := Stmt.agrees (f := id) (fun _ => rfl) t halike h
  rw [List.map_id] at hresult hcursor
  constructor
  · refine hresult.trans ?_
    cases (Stmt.readFrom t ⟨us ++ rest, k⟩).result with
    | ok s => rfl
    | error e => exact congrArg Except.error e.relabel_id
  · obtain ⟨vs, m, hd, hd'⟩ := hcursor.exists_eq
    rw [List.map_id] at hd'
    exact ⟨vs, m, hd, hd'⟩

/-- **A fault is met whatever stands behind the token it is met at.** -/
theorem Stmt.fails_replace {t : Token} {us vs rest : List Token} {k m : Nat}
    {e : ParseError}
    (h : (Stmt.readFrom t ⟨us ++ rest, k⟩).Fails e ⟨vs ++ rest, m⟩)
    (hend : ¬ e.isEnd) (rest' : List Token) :
    (Stmt.readFrom t ⟨us ++ rest', k⟩).Fails e ⟨vs ++ rest', m⟩ := by
  have hsettled : (Stmt.readFrom t ⟨us ++ rest, k⟩).Settled rest rest' := by
    rw [Reading.Settled, h.1, h.2]
    by_cases hvs : vs = []
    · rw [hvs]
      exact .inr (.inr ⟨rfl, e, rfl, hend⟩)
    · exact .inl (Cursor.length_lt_size hvs rest m)
  obtain ⟨hresult, vs', m', hd, hd'⟩ := Stmt.readFrom_append hsettled
  obtain ⟨hvs, rfl⟩ := Cursor.mk.inj (h.2.symm.trans hd)
  obtain rfl := List.append_cancel_right hvs
  exact ⟨hresult.trans h.1, hd'⟩

/-- A fault that is met before the tokens end is met with more tokens behind. -/
theorem Stmt.fails_append {t : Token} {us vs : List Token} {k m : Nat}
    {e : ParseError} (h : (Stmt.readFrom t ⟨us, k⟩).Fails e ⟨vs, m⟩)
    (hend : ¬ e.isEnd) (rest : List Token) :
    (Stmt.readFrom t ⟨us ++ rest, k⟩).Fails e ⟨vs ++ rest, m⟩ := by
  have h' : (Stmt.readFrom t ⟨us ++ [], k⟩).Fails e ⟨vs ++ [], m⟩ := by
    rwa [List.append_nil, List.append_nil]
  exact Stmt.fails_replace h' hend rest

/-- **A statement that ends before a token ends there whatever stands behind the
token.** -/
theorem Stmt.gives_replace {t : Token} {us vs rest : List Token} {k m : Nat}
    {s : Stmt} (h : (Stmt.readFrom t ⟨us ++ rest, k⟩).Gives s ⟨vs ++ rest, m⟩)
    (hvs : vs ≠ []) (rest' : List Token) :
    (Stmt.readFrom t ⟨us ++ rest', k⟩).Gives s ⟨vs ++ rest', m⟩ := by
  have hsettled : (Stmt.readFrom t ⟨us ++ rest, k⟩).Settled rest rest' := by
    rw [Reading.Settled, h.2]
    exact .inl (Cursor.length_lt_size hvs rest m)
  obtain ⟨hresult, vs', m', hd, hd'⟩ := Stmt.readFrom_append hsettled
  obtain ⟨hvs', rfl⟩ := Cursor.mk.inj (h.2.symm.trans hd)
  obtain rfl := List.append_cancel_right hvs'
  exact ⟨hresult.trans h.1, hd'⟩

/-- A statement that ends before a token does so with more tokens behind. -/
theorem Stmt.gives_append {t : Token} {us vs : List Token} {k m : Nat}
    {s : Stmt} (h : (Stmt.readFrom t ⟨us, k⟩).Gives s ⟨vs, m⟩) (hvs : vs ≠ [])
    (rest : List Token) :
    (Stmt.readFrom t ⟨us ++ rest, k⟩).Gives s ⟨vs ++ rest, m⟩ := by
  have h' : (Stmt.readFrom t ⟨us ++ [], k⟩).Gives s ⟨vs ++ [], m⟩ := by
    rwa [List.append_nil, List.append_nil]
  exact Stmt.gives_replace h' hvs rest

end Monkey
