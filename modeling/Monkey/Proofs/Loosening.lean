import Monkey.Proofs.Beginning

/-!
# Reading for a looser precedence

An expression that is read for a precedence ends before the first token that
does not bind more tightly. Read for a looser precedence, the same tokens begin
with the same expression: up to there both readings do the same, and from there
on the looser one takes the expression as the left operand of what follows. So
there is one reading, for the loosest precedence, and the readings for tighter
ones are its front parts.

That operators of one precedence group to the left, and tighter ones first,
rests on this: the right operand of an operator is read for the precedence of
the operator, and what stops that reading goes on with the whole.
-/

namespace Monkey

open Reading

/-! ## Readings that end alike -/

/-- **The readings end alike**: with the same result, at the same cursor. They
may have been allowed different numbers of tokens. -/
def Reading.Alike {α : Type} {m n : Nat} (r : Reading α m)
    (r' : Reading α n) : Prop :=
  r.result = r'.result ∧ r.cursor = r'.cursor

namespace Reading.Alike

variable {α : Type} {l m n : Nat} {r : Reading α l} {r' : Reading α m}
  {r'' : Reading α n}

theorem refl (r : Reading α l) : r.Alike r := ⟨rfl, rfl⟩

theorem symm (h : r.Alike r') : r'.Alike r := ⟨h.1.symm, h.2.symm⟩

theorem trans (h : r.Alike r') (h' : r'.Alike r'') : r.Alike r'' :=
  ⟨h.1.trans h'.1, h.2.trans h'.2⟩

theorem fails (h : r.Alike r') {e : ParseError} {d : Cursor}
    (hfails : r'.Fails e d) : r.Fails e d :=
  ⟨h.1.trans hfails.1, h.2.trans hfails.2⟩

end Reading.Alike

/-- After a success, a reading ends as what comes next does. -/
theorem Reading.Gives.alike {α β : Type} {n : Nat} {r : Reading α n} {a : α}
    {c : Cursor} (h : r.Gives a c)
    (f : α → (c : Cursor) → c.size ≤ n → Reading β c.size) :
    (r.andThen f).Alike (f a c h.size_le) := by
  obtain ⟨hresult, rfl⟩ := h
  rw [andThen_of_ok hresult]
  exact ⟨rfl, rfl⟩

/-! ## One round of the loop -/

section

variable {p q : Precedence}

/-- **A round of the loop**: a token that binds more tightly than `p` goes on
with the expression read so far. -/
theorem Expr.extend_before {t : Token} {k : Continuation}
    (hk : t.kind.continuation? = some k) (hp : p < k.precedence) (left : Expr)
    (c : Cursor) :
    (Expr.extend p left (c.before [t])).Alike
      ((Expr.continueWith k left c).andThen fun e d _ => Expr.extend p e d) := by
  show (Expr.extend p left ⟨t :: c.tokens, c.nesting⟩).Alike _
  rw [Expr.extend]
  split
  · rename_i hnone
    rw [hnone] at hk
    cases hk
  · rename_i k' hk'
    cases hk'.symm.trans hk
    rw [if_pos hp]
    exact ⟨rfl, rfl⟩

/-- **A looser loop goes on where a tighter one stops.** The rounds of the
tighter loop are the first rounds of the looser one. -/
theorem Expr.extend_alike_of_gives (hpq : p ≤ q) {left e : Expr} {c d : Cursor}
    (h : (Expr.extend q left c).Gives e d) :
    d.Stops q ∧ (Expr.extend p left c).Alike (Expr.extend p e d) := by
  obtain ⟨hstops, rfl, rfl⟩ | ⟨t, c₁, rfl, k, e₁, c₂, hk, hq, h₁, h₂⟩ :=
    Expr.gives_extend.1 h
  · exact ⟨hstops, .refl _⟩
  · have hp : p < k.precedence := Nat.lt_of_le_of_lt hpq hq
    have hround := (Expr.extend_before hk hp left c₁).trans
      (h₁.alike fun e d _ => Expr.extend p e d)
    have hle := h₁.size_le
    obtain ⟨hstops, hrest⟩ := Expr.extend_alike_of_gives hpq h₂
    exact ⟨hstops, hround.trans hrest⟩
termination_by c.size
decreasing_by grind [Cursor.size_before]

/-- **A looser loop fails where a tighter one fails.** -/
theorem Expr.extend_fails_of_le (hpq : p ≤ q) {left : Expr} {c d : Cursor}
    {x : ParseError} (h : (Expr.extend q left c).Fails x d) :
    (Expr.extend p left c).Fails x d := by
  obtain ⟨t, c₁, rfl, k, hk, hq, h⟩ := Expr.fails_extend h
  have hp : p < k.precedence := Nat.lt_of_le_of_lt hpq hq
  refine (Expr.extend_before hk hp left c₁).fails (fails_andThen.2 ?_)
  obtain h | ⟨e₁, c₂, h₁, h₂⟩ := h
  · exact .inl h
  · have hle := h₁.size_le
    exact .inr ⟨e₁, c₂, hle, h₁, Expr.extend_fails_of_le hpq h₂⟩
termination_by c.size
decreasing_by grind [Cursor.size_before]

end

/-! ## Whole expressions -/

/-- An expression is its operand, and what the loop makes of it. -/
theorem Expr.read_before (p : Precedence) (t : Token) (c : Cursor) :
    (Expr.read p (c.before [t])).Alike
      ((Expr.readOperand t c).andThen fun left d _ => Expr.extend p left d) := by
  show (Expr.read p ⟨t :: c.tokens, c.nesting⟩).Alike _
  rw [Expr.read, Expr.readFrom]
  exact ⟨rfl, rfl⟩

/-- Where there is no token, nothing is read for any precedence. -/
theorem Expr.read_alike_of_nil (p q : Precedence) (k : Nat) :
    (Expr.read p ⟨[], k⟩).Alike (Expr.read q ⟨[], k⟩) := by
  rw [Expr.read, Expr.read]
  exact .refl _

/-- **Reading for a looser precedence extends reading for a tighter one.** If
the tighter reading fails, the looser one fails with the same error at the same
place. If it gives an expression, the next token binds no more tightly than was
asked for, and the looser reading is what the loop makes of that expression:
the same tree or the same error, at the same place. -/
theorem Expr.read_extends_tighter {p q : Precedence} (hpq : p ≤ q)
    (c : Cursor) :
    (∀ x d, (Expr.read q c).Fails x d → (Expr.read p c).Fails x d)
      ∧ ∀ e d, (Expr.read q c).Gives e d →
        d.Stops q ∧ (Expr.read p c).Alike (Expr.extend p e d) := by
  match c with
  | ⟨[], k⟩ =>
    have hnil := Expr.read_alike_of_nil p q k
    refine ⟨fun x d h => hnil.fails h, fun e d h => ?_⟩
    rw [Expr.read] at h
    exact absurd h not_gives_fail
  | ⟨t :: ts, k⟩ =>
    have htighter := Expr.read_before q t ⟨ts, k⟩
    have hlooser := Expr.read_before p t ⟨ts, k⟩
    constructor
    · intro x d h
      refine hlooser.fails (fails_andThen.2 ?_)
      obtain h | ⟨left, c₁, hle, hleft, h⟩ :=
        fails_andThen.1 (htighter.symm.fails h)
      · exact .inl h
      · exact .inr ⟨left, c₁, hle, hleft, Expr.extend_fails_of_le hpq h⟩
    · intro e d h
      obtain ⟨t', c', hc, h⟩ := Expr.gives_read.1 h
      obtain ⟨rfl, rfl⟩ := Cursor.mk_cons_eq_before.1 hc
      obtain ⟨left, c₁, hleft, h⟩ := Expr.gives_readFrom.1 h
      obtain ⟨hstops, hrest⟩ := Expr.extend_alike_of_gives hpq h
      exact ⟨hstops, (hlooser.trans (hleft.alike _)).trans hrest⟩

/-- The product in `a * b + c` that is read for the precedence of sums is the
left operand of the sum that is read for the loosest precedence; and where the
tokens end behind an operator, both readings fail there. -/
theorem Expr.read_extends_product :
    Precedence.lowest ≤ .sum
      ∧ (Cursor.mk [⟨.plus, 6, 7⟩, ⟨.ident "c", 8, 9⟩] 0).Stops .sum
      ∧ (Expr.read .lowest ⟨[⟨.ident "a", 0, 1⟩, ⟨.asterisk, 2, 3⟩,
          ⟨.ident "b", 4, 5⟩, ⟨.plus, 6, 7⟩, ⟨.ident "c", 8, 9⟩], 0⟩).Alike
        (Expr.extend .lowest (.binary .multiply (.ident "a") (.ident "b"))
          ⟨[⟨.plus, 6, 7⟩, ⟨.ident "c", 8, 9⟩], 0⟩)
      ∧ (Expr.read .lowest ⟨[⟨.ident "a", 0, 1⟩, ⟨.asterisk, 2, 3⟩], 0⟩).Fails
        (.unexpectedEnd .expression) ⟨[], 0⟩ := by
  have hle : Precedence.lowest ≤ .sum := by decide
  have hgives : (Expr.read .sum ⟨[⟨.ident "a", 0, 1⟩, ⟨.asterisk, 2, 3⟩,
      ⟨.ident "b", 4, 5⟩, ⟨.plus, 6, 7⟩, ⟨.ident "c", 8, 9⟩], 0⟩).Gives
      (.binary .multiply (.ident "a") (.ident "b"))
      ⟨[⟨.plus, 6, 7⟩, ⟨.ident "c", 8, 9⟩], 0⟩ := ⟨by cbv, by cbv⟩
  have hfails : (Expr.read .sum ⟨[⟨.ident "a", 0, 1⟩,
      ⟨.asterisk, 2, 3⟩], 0⟩).Fails
      (.unexpectedEnd .expression) ⟨[], 0⟩ := ⟨by cbv, by cbv⟩
  obtain ⟨hstops, halike⟩ := (Expr.read_extends_tighter hle _).2 _ _ hgives
  exact ⟨hle, hstops, halike, (Expr.read_extends_tighter hle _).1 _ _ hfails⟩

end Monkey
