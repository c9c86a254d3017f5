import Monkey.Proofs.Success

/-!
# Readings that fail

`Reading.Fails r e c` says that the reading `r` fails with the error `e` and
stops at the cursor `c`. A composed reading fails where its first failing part
does, with the parts before it successful.

A reading fails in one of two ways (`Cursor.Breaks`). Either the tokens end
where something is asked for, and the reading stops at the end; or the next
token cannot go on with what has been read, and the reading stops *behind* that
token. The token is read although it does not fit, and the error is about it
(`ParseError.About`).
-/

namespace Monkey

open Token (Kind)

/-! ## What an error is about -/

/-- Whether a token is what was asked for. Nothing asks for an expression by
asking for a token. -/
def Expected.Accepts : Expected → Kind → Prop
  | token kind, k => k = kind
  | identifier, k => ∃ name, k = .ident name
  | expression, _ => False

/-- **The error is about the token**: the token is there, and is not what was
asked for, or is not what an expression can begin with. The end of the tokens is
about none. -/
def ParseError.About : ParseError → Token → Prop
  | unexpectedEnd _, _ => False
  | unexpectedToken expected got, t => got = t ∧ ¬ expected.Accepts t.kind
  | integerRange digits, t => t.kind = .int digits
  | noOperand got, t => got = t
  | illegal text, t =>
    t.kind = .illegal text
      ∨ t.kind = .unclosedString ∧ text = Kind.unclosedReason

/-- An error about a token that is written in one way only carries the token. -/
theorem ParseError.About.token? {e : ParseError} {t : Token} (h : e.About t)
    (hk : t.kind = .semicolon) : e.token? = some t := by
  cases e with
  | unexpectedEnd _ => exact h.elim
  | unexpectedToken expected got => exact congrArg some h.1
  | noOperand got => exact congrArg some h
  | integerRange digits =>
    rw [show t.kind = _ from h] at hk
    cases hk
  | illegal text =>
    obtain h | ⟨h, -⟩ := h <;> rw [h] at hk <;> cases hk

/-- The token an error carries is the one it is about. -/
theorem ParseError.About.eq_of_token? {e : ParseError} {t u : Token}
    (h : e.About t) (hu : e.token? = some u) : t = u := by
  cases e with
  | unexpectedEnd _ => exact h.elim
  | unexpectedToken expected got =>
    rw [← h.1]
    exact Option.some.inj hu
  | noOperand got =>
    rw [← show got = t from h]
    exact Option.some.inj hu
  | integerRange digits => cases hu
  | illegal text => cases hu

/-! ## Failing -/

namespace Reading

variable {α β : Type} {m n : Nat}

/-- **The reading fails** with `e` and stops at `c`. -/
def Fails (r : Reading α n) (e : ParseError) (c : Cursor) : Prop :=
  r.result = .error e ∧ r.cursor = c

@[simp] theorem not_fails_succeed {a : α} {e : ParseError} {c d : Cursor} :
    ¬ (succeed a c).Fails e d := by
  simp [Fails]

@[simp] theorem fails_fail {e e' : ParseError} {c d : Cursor} :
    (fail e c : Reading α c.size).Fails e' d ↔ e = e' ∧ c = d := by
  simp [Fails]

@[simp] theorem fails_ofOption {o : Option α} {e e' : ParseError}
    {c d : Cursor} :
    (ofOption o e c).Fails e' d ↔ o = none ∧ e = e' ∧ c = d := by
  cases o <;> simp [ofOption]

@[simp] theorem fails_weaken {r : Reading α m} {h : m ≤ n} {e : ParseError}
    {c : Cursor} : (r.weaken h).Fails e c ↔ r.Fails e c := Iff.rfl

@[simp] theorem fails_after {ts : List Token} {k : Nat} {t : Token}
    {r : Reading α (Cursor.mk ts k).size} {e : ParseError} {c : Cursor} :
    (r.after t).Fails e c ↔ r.Fails e c := Iff.rfl

theorem result_map_eq_error_iff {f : α → β} {r : Reading α n}
    {e : ParseError} : (r.map f).result = .error e ↔ r.result = .error e := by
  rw [result_map]
  cases r.result <;> simp [Except.map]

@[simp] theorem fails_map {f : α → β} {r : Reading α n} {e : ParseError}
    {c : Cursor} : (r.map f).Fails e c ↔ r.Fails e c :=
  and_congr_left' result_map_eq_error_iff

/-- **A reading in two parts fails** in the first part, or in the second behind
a success of the first. -/
@[simp] theorem fails_andThen {r : Reading α n}
    {f : α → (c : Cursor) → c.size ≤ n → Reading β c.size} {e : ParseError}
    {d : Cursor} : (r.andThen f).Fails e d
      ↔ r.Fails e d
        ∨ ∃ a c, ∃ h : c.size ≤ n, r.Gives a c ∧ (f a c h).Fails e d := by
  cases hr : r.result with
  | error e' =>
    rw [andThen_of_error hr, or_iff_left]
    · simp [Fails, hr]
    · rintro ⟨a, c, -, ⟨ha, -⟩, -⟩
      rw [hr] at ha
      cases ha
  | ok a =>
    rw [andThen_of_ok hr, or_iff_right]
    · constructor
      · intro h
        exact ⟨a, r.cursor, r.size_le, ⟨hr, rfl⟩, h⟩
      · rintro ⟨a', c, hle, ⟨ha, rfl⟩, hf⟩
        rw [hr] at ha
        cases ha
        exact hf
    · rintro ⟨he, -⟩
      rw [hr] at he
      cases he

/-- A reading gives something or fails. -/
theorem gives_or_fails (r : Reading α n) :
    (∃ a, r.Gives a r.cursor) ∨ ∃ e, r.Fails e r.cursor := by
  cases hr : r.result with
  | ok a => exact .inl ⟨a, hr, rfl⟩
  | error e => exact .inr ⟨e, hr, rfl⟩

end Reading

/-! ## Where a reading breaks off -/

/-- **A brace that has been opened**: that of a block, or that of a hash. -/
inductive Brace where
  | block
  | hash
  deriving DecidableEq, Repr

/-- **The reading breaks off** behind the tokens `us`, with the braces `bs`
open: at the end of the tokens, or at a token that the error is about and that
is read as well. The blocks among the braces count as nesting. -/
inductive Cursor.Breaks :
    Cursor → List Token → List Brace → ParseError → Cursor → Prop where
  | atEnd {us : List Token} {k : Nat} {bs : List Brace} {x : Expected} :
      Cursor.Breaks ⟨us, k⟩ us bs (.unexpectedEnd x)
        ⟨[], k + bs.count .block⟩
  | atToken {us ts : List Token} {t : Token} {k : Nat} {bs : List Brace}
      {e : ParseError} :
      e.About t →
      Cursor.Breaks ⟨us ++ t :: ts, k⟩ us bs e ⟨ts, k + bs.count .block⟩

namespace Cursor.Breaks

variable {c d : Cursor} {us : List Token} {bs : List Brace} {e : ParseError}

/-- Tokens that have been read before. -/
theorem before (h : c.Breaks us bs e d) (ts : List Token) :
    (c.before ts).Breaks (ts ++ us) bs e d := by
  cases h with
  | atEnd => exact .atEnd
  | atToken ht =>
    have heq (vs ws : List Token) (k : Nat) :
        (Cursor.mk (vs ++ ws) k).before ts = ⟨(ts ++ vs) ++ ws, k⟩ := by
      simp [Cursor.before]
    rw [heq]
    exact .atToken ht

/-- A block that was opened before is open where the reading breaks off. -/
theorem block (h : c.openBlock.Breaks us bs e d) :
    c.Breaks us (bs ++ [.block]) e d := by
  obtain ⟨ts, k⟩ := c
  have hcount : k + 1 + bs.count .block
      = k + (bs ++ [Brace.block]).count .block := by
    simp [List.count_append]
    omega
  cases h with
  | atEnd =>
    rw [hcount]
    exact .atEnd
  | atToken ht =>
    rw [hcount]
    exact .atToken ht

/-- The brace of a hash does not count as nesting. -/
theorem hash (h : c.Breaks us bs e d) : c.Breaks us (bs ++ [.hash]) e d := by
  have hcount (k : Nat) : k + bs.count .block
      = k + (bs ++ [Brace.hash]).count .block := by
    simp [List.count_append]
  cases h with
  | atEnd =>
    rw [hcount]
    exact .atEnd
  | atToken ht =>
    rw [hcount]
    exact .atToken ht

/-- What is asked for at the next token is not there. -/
theorem here {t : Token} (h : e.About t) (c : Cursor) :
    (c.before [t]).Breaks [] [] e c :=
  show Cursor.Breaks ⟨[] ++ t :: c.tokens, c.nesting⟩ [] [] e c from .atToken h

end Cursor.Breaks

namespace Reading

/-! ## Tokens and names -/

theorem Fails.breaks_expect {kind : Kind} {c d : Cursor} {e : ParseError}
    (h : (expect kind c).Fails e d) : c.Breaks [] [] e d := by
  obtain ⟨ts, k⟩ := c
  cases ts with
  | nil =>
    obtain ⟨rfl, rfl⟩ := fails_fail.1 h
    exact .atEnd
  | cons t ts =>
    rw [expect] at h
    split at h
    · exact absurd h not_fails_succeed
    · rename_i ht
      obtain ⟨rfl, rfl⟩ := fails_fail.1 (fails_after.1 h)
      have habout : ParseError.About (.unexpectedToken (.token kind) t) t :=
        ⟨rfl, ht⟩
      exact .here habout ⟨ts, k⟩

theorem Fails.about_nameOf {t : Token} {c d : Cursor} {e : ParseError}
    (h : (nameOf t c).Fails e d) : e.About t ∧ c = d := by
  unfold nameOf at h
  split at h
  · exact absurd h not_fails_succeed
  · rename_i ht
    obtain ⟨rfl, rfl⟩ := fails_fail.1 h
    refine ⟨⟨rfl, ?_⟩, rfl⟩
    rintro ⟨name, hname⟩
    exact ht name hname

theorem Fails.breaks_name {c d : Cursor} {e : ParseError}
    (h : (name c).Fails e d) : c.Breaks [] [] e d := by
  obtain ⟨ts, k⟩ := c
  cases ts with
  | nil =>
    obtain ⟨rfl, rfl⟩ := fails_fail.1 h
    exact .atEnd
  | cons t ts =>
    obtain ⟨ht, rfl⟩ := Fails.about_nameOf (fails_after.1 h)
    exact .here ht ⟨ts, k⟩

theorem Fails.breaks_separator {close : Kind} {c d : Cursor} {e : ParseError}
    (h : (separator close c).Fails e d) : c.Breaks [] [] e d := by
  obtain ⟨ts, k⟩ := c
  cases ts with
  | nil =>
    obtain ⟨rfl, rfl⟩ := fails_fail.1 h
    exact .atEnd
  | cons t ts =>
    rw [separator] at h
    split at h
    · exact absurd h not_fails_succeed
    · split at h
      · exact absurd h not_fails_succeed
      · rename_i ht
        obtain ⟨rfl, rfl⟩ := fails_fail.1 (fails_after.1 h)
        have habout : ParseError.About (.unexpectedToken (.token close) t) t :=
          ⟨rfl, ht⟩
        exact .here habout ⟨ts, k⟩

end Reading

end Monkey
