import Monkey.Proofs.Course

/-!
# The count of open blocks

A cursor counts the blocks that are open. The count goes up behind the brace
that opens a block and down at the brace that closes it, and nowhere else, so it
is a tally of the braces passed, as long as they are braces of blocks: a complete
part of a phrase leaves it as it is, and the braces of a hash are not counted.

What a reading leaves behind when it fails is the tally of the chain of calls
down to the fault. The chain opens blocks that it does not close, and the count
at the fault says how many (`Task.Fails.counts`). On the way the count never
goes below zero: where the closing brace of a block is read, the block has been
counted (`Task.Reaches.nesting_pos`).
-/

namespace Monkey

open Token (Kind)
open Reading

/-- **The count keeps pace with the braces** between two cursors. -/
def Cursor.Counts (c d : Cursor) : Prop :=
  ∃ us, c.tokens = us ++ d.tokens
    ∧ (d.nesting : Int) = c.nesting + braces (us.map Token.kind)

namespace Cursor.Counts

variable {c d d' : Cursor}

theorem of_passes (h : c.Passes d) : c.Counts d := by
  obtain ⟨us, rfl, hus⟩ := h
  exact ⟨us, rfl, by rw [hus, Int.add_zero]; rfl⟩

theorem trans (h : c.Counts d) (h' : d.Counts d') : c.Counts d' := by
  obtain ⟨us, hus, hd⟩ := h
  obtain ⟨vs, hvs, hd'⟩ := h'
  refine ⟨us ++ vs, by rw [hus, hvs, List.append_assoc], ?_⟩
  rw [hd', hd, List.map_append, braces_append, Int.add_assoc]

/-- Behind the brace that opens a block, the block is counted. -/
theorem openBlock {u : Token} (hu : u.kind = .leftBrace) (c : Cursor) :
    (c.before [u]).Counts c.openBlock :=
  ⟨[u], rfl, by simp [Cursor.openBlock, hu, Kind.brace]⟩

end Cursor.Counts

namespace Task

variable {τ σ : Task}

/-! ## The count is not at zero where a block is closed -/

theorem Calls.nesting_pos (h : τ.Calls σ)
    (hτ : τ.phrase = .rest → 0 < τ.cursor.nesting) (hσ : σ.phrase = .rest) :
    0 < σ.cursor.nesting := by
  cases h with
  | opened => exact Nat.succ_pos _
  | blockSemicolon => exact hτ rfl
  | behindBlockStatement _ _ hs =>
    rw [(Stmt.passes_of_readFrom hs).nesting_eq]
    exact hτ rfl
  | @item i => cases i <;> cases hσ
  | _ => cases hσ

/-- **The statements of a block are read while it is counted.** -/
theorem Reaches.nesting_pos (h : τ.Reaches σ) (hτ : τ.phrase ≠ .rest)
    (hσ : σ.phrase = .rest) : 0 < σ.cursor.nesting := by
  induction h with
  | refl => exact absurd hσ hτ
  | tail _ hcalls ih => exact hcalls.nesting_pos ih hσ

/-- **A block is closed in the course of the task**, its closing brace being the
token before the cursor. -/
def Closes (τ : Task) (c : Cursor) : Prop :=
  ∃ t : Token, t.kind = .rightBrace ∧ τ.Reaches ⟨.rest, c.before [t]⟩

/-! ## The statements of a program begin outside of all blocks -/

theorem Calls.program_nesting (h : τ.Calls σ)
    (hτ : τ.phrase = .program → τ.cursor.nesting = 0)
    (hσ : σ.phrase = .program) : σ.cursor.nesting = 0 := by
  cases h with
  | semicolon => exact hτ rfl
  | behindStatement _ hs =>
    rw [(Stmt.passes_of_readFrom hs).nesting_eq]
    exact hτ rfl
  | behindFault => rfl
  | @item i => cases i <;> cases hσ
  | _ => cases hσ

theorem Reaches.program_nesting (h : τ.Reaches σ)
    (hτ : τ.phrase = .program → τ.cursor.nesting = 0)
    (hσ : σ.phrase = .program) : σ.cursor.nesting = 0 := by
  induction h with
  | refl => exact hτ hσ
  | tail _ hcalls ih => exact hcalls.program_nesting ih hσ

end Task

namespace Program

variable {c d : Cursor} {ss : List Stmt} {es : List ParseError}

/-- Rounds are a chain of calls. -/
theorem Rounds.reaches (h : Rounds c ss es d) :
    Task.Reaches ⟨.program, c⟩ ⟨.program, d⟩ := by
  induction h with
  | refl => exact .refl
  | head hround _ ih => exact .head (Task.calls_program_iff.2 ⟨_, _, hround⟩) ih

/-- **The rounds of a program begin outside of all blocks.** -/
theorem Rounds.nesting_eq_zero {tokens : List Token}
    (h : Rounds (.start tokens) ss es c) : c.nesting = 0 :=
  h.reaches.program_nesting (fun _ => rfl) rfl

/-- **The result is what the rounds add**, the last of which ends outside of all
blocks as well. -/
theorem rounds_parseLenient (tokens : List Token) :
    Rounds (.start tokens) (parseLenient tokens).1.statements
      (parseLenient tokens).2 ⟨[], 0⟩ := by
  obtain ⟨k, hrounds⟩ := exists_rounds (.start tokens)
  obtain rfl : k = 0 := hrounds.nesting_eq_zero
  exact hrounds

end Program

namespace Task

variable {τ σ : Task}

/-! ## The count at a fault -/

/-- **A hash is begun in the course of the task**: there is a brace where an
operand is asked for. An opening brace that is read otherwise opens a block, or
it is where the reading fails. -/
def OpensHash (τ : Task) : Prop :=
  ∃ (t : Token) (c : Cursor),
    t.kind = .leftBrace ∧ τ.Reaches ⟨.operand, c.before [t]⟩

theorem Calls.phrase_ne_program (h : τ.Calls σ) (hτ : τ.phrase ≠ .program) :
    σ.phrase ≠ .program := by
  cases h with
  | semicolon | behindStatement | behindFault => exact absurd rfl hτ
  | @item i => cases i <;> exact Phrase.noConfusion
  | _ => exact Phrase.noConfusion

theorem Reaches.phrase_ne_program (h : τ.Reaches σ) (hτ : τ.phrase ≠ .program) :
    σ.phrase ≠ .program := by
  induction h with
  | refl => exact hτ
  | tail _ hcalls ih => exact hcalls.phrase_ne_program ih

/-- **The count keeps pace along a chain of calls**, as long as no hash is
begun. -/
theorem Reaches.counts (h : τ.Reaches σ) (hτ : τ.phrase ≠ .program)
    (hhash : ¬ τ.OpensHash) : τ.entry.Counts σ.entry := by
  induction h with
  | refl => exact .of_passes (.refl _)
  | @tail ρ σ hreaches hcalls ih =>
    -- What lies between is a part with its braces, which the count leaves
    -- alone, or the one brace that opens a block.
    cases hcalls.between with
    | part hpasses => exact ih.trans (.of_passes hpasses)
    | @block _ u c hpasses hu =>
      exact ih.trans ((Cursor.Counts.of_passes hpasses).trans (.openBlock hu c))
    | @hash u ts k hu => exact absurd ⟨u, ⟨ts, k⟩, hu, hreaches⟩ hhash
    | fault => exact absurd rfl (Reaches.phrase_ne_program hreaches hτ)

/-- **The count at a fault is the tally of the braces read**, if no hash has
been begun and the last token is no brace. -/
theorem Fails.counts {e : ParseError} {d : Cursor} (h : τ.Fails e d)
    (hτ : τ.phrase ≠ .program) (hhash : ¬ τ.OpensHash) :
    ∃ us, τ.cursor.tokens = us ++ d.tokens
      ∧ ((∀ t ∈ us.getLast?, t.kind ≠ .leftBrace ∧ t.kind ≠ .rightBrace) →
        (d.nesting : Int) = τ.entry.nesting + braces (us.map Token.kind)) := by
  obtain ⟨σ, c, hreaches, hpasses, hbreaks⟩ := h.reaches
  obtain ⟨us, hus, hnesting⟩ :=
    (hreaches.counts hτ hhash).trans (.of_passes hpasses)
  rw [tokens_entry] at hus
  cases hbreaks with
  | atEnd => exact ⟨us, hus, fun _ => hnesting⟩
  | @atToken _ ts t k =>
    refine ⟨us ++ [t], by simpa using hus, fun hlast => ?_⟩
    obtain ⟨hleft, hright⟩ := hlast t (by simp)
    have ht : t.kind.brace = 0 := by
      unfold Kind.brace
      split
      · rename_i hk
        exact absurd hk hleft
      · rename_i hk
        exact absurd hk hright
      · rfl
    simpa [ht] using hnesting

end Task

/-- **The count of open blocks is exact.** A statement or an expression that can
be read leaves it as it was. Where a block is closed it is not at zero, so that
closing takes one off; and every statement of a program begins with no block
open, as do all the rounds that add up to what is read of it. If a statement
fails without having begun a hash, and the last token read is no brace, the
count has grown by the braces opened less the braces closed among the tokens
read. -/
theorem Cursor.nesting_exact :
    (∀ c s d, (Stmt.read c).Gives s d → d.nesting = c.nesting)
      ∧ (∀ p c e d, (Expr.read p c).Gives e d → d.nesting = c.nesting)
      ∧ (∀ (τ : Task) c, τ.phrase ≠ .rest → τ.Closes c →
        c.closeBlock.nesting + 1 = c.nesting)
      ∧ (∀ tokens c c', Task.Reaches ⟨.program, .start tokens⟩ ⟨.program, c⟩ →
        Task.Calls ⟨.program, c⟩ ⟨.stmt, c'⟩ → c'.nesting = 0)
      ∧ (∀ tokens, Program.Rounds (.start tokens)
        (Program.parseLenient tokens).1.statements
        (Program.parseLenient tokens).2 ⟨[], 0⟩)
      ∧ (∀ tokens ss es c, Program.Rounds (.start tokens) ss es c →
        c.nesting = 0)
      ∧ ∀ c e d, (Stmt.read c).Fails e d → ¬ Task.OpensHash ⟨.stmt, c⟩ →
        ∃ us, c.tokens = us ++ d.tokens
          ∧ ((∀ t ∈ us.getLast?, t.kind ≠ .leftBrace ∧ t.kind ≠ .rightBrace) →
            (d.nesting : Int) = c.nesting + braces (us.map Token.kind)) := by
  refine ⟨fun c s d h => (Stmt.passes_of_read h).nesting_eq,
    fun p c e d h => (Expr.passes_of_read h).nesting_eq, ?_, ?_,
    Program.rounds_parseLenient, fun _ _ _ _ h => h.nesting_eq_zero, ?_⟩
  · intro τ c hτ ⟨t, _, hreaches⟩
    have hpos : 0 < c.nesting := hreaches.nesting_pos hτ rfl
    exact Nat.sub_add_cancel hpos
  · intro tokens c c' hreaches hcalls
    cases hcalls
    exact hreaches.program_nesting (fun _ => rfl) rfl
  · intro c e d h hhash
    exact (Task.Fails.stmt h).counts Phrase.noConfusion hhash

end Monkey
