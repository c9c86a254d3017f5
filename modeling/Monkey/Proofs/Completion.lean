import Monkey.Proofs.Beginning
import Monkey.Proofs.Juncture
import Monkey.Proofs.Rendering

/-!
# Beginnings can be completed

Every beginning of a phrase is the front of a whole phrase. What is missing can
be read off the rules of `Expr.Begun` and its companions, from the inside out:
an expression that has not begun is `true`, a name is `x`, and each open list,
hash or block gets the token that closes it. So a completion never needs a token
other than these few, and it can be written as a text (`exists_text`).

The one place where a completion could do harm is between two statements, where
a token that goes on with the first would change it. There the second statement
has begun with its own first token, or nothing is missing at all.
-/

namespace Monkey

open Token (Kind)

/-! ## The tokens of a completion -/

/-- **The tokens that completions consist of**: those with one spelling, and one
name. -/
def Token.Kind.isStock (k : Kind) : Bool :=
  k.isFixed || k == .ident "x"

theorem Token.Kind.isSpelled_of_isStock {k : Kind} (h : k.isStock) :
    k.IsSpelled ∧ k ≠ .unclosedString := by
  obtain hfixed | hname := Bool.or_eq_true_iff.1 h
  · refine ⟨Kind.isSpelled_of_isFixed hfixed, ?_⟩
    rintro rfl
    cases hfixed
  · rw [eq_of_beq hname]
    refine ⟨⟨['x'], rfl, ⟨'x', [], rfl, by decide, by simp⟩, by decide⟩, ?_⟩
    rintro ⟨⟩

/-- **The tokens of a completion can be written**, with a blank behind each. -/
theorem exists_text {ks : List Kind} (h : ks.all Kind.isStock) :
    ∃ text : String, (Token.scan text).map Token.kind = ks := by
  suffices ∃ cs : List Char, Text.kinds cs = ks by
    obtain ⟨cs, hcs⟩ := this
    refine ⟨String.ofList cs, ?_⟩
    rw [Token.scan, String.toList_ofList]
    exact hcs
  induction ks with
  | nil => exact ⟨[], Text.kinds_nil⟩
  | cons k ks ih =>
    rw [List.all_cons, Bool.and_eq_true] at h
    obtain ⟨⟨text, hspell⟩, hk⟩ := Kind.isSpelled_of_isStock h.1
    obtain ⟨cs, hcs⟩ := ih h.2
    have hends : k.EndsBefore (' ' :: cs) :=
      k.endsBefore_nil.append hk (Text.separates_space cs)
    refine ⟨text ++ ' ' :: cs, ?_⟩
    rw [Text.kinds_append hspell hends, Text.kinds_blank (by decide), hcs]

/-! ## Completing phrases -/

/-- **The tokens can be completed** to something that `D` says. -/
def Completable {α : Type} (D : List Kind → α → Prop) (ts : List Kind) : Prop :=
  ∃ us a, us.all Kind.isStock ∧ D (ts ++ us) a

namespace Completable

variable {α β : Type} {D : List Kind → α → Prop} {E : List Kind → β → Prop}
  {ts : List Kind}

/-- What is complete. -/
theorem whole {a : α} (h : D ts a) : Completable D ts :=
  ⟨[], a, rfl, by rwa [List.append_nil]⟩

/-- **A phrase that stands last in a larger one**, with the tokens `close`
behind it: `f` puts the other parts before it. -/
theorem within (h : Completable D ts) (f : List Kind → List Kind)
    (close : List Kind) (hclose : close.all Kind.isStock)
    (hf : ∀ us, f (ts ++ us) = f ts ++ us)
    (hE : ∀ {us a}, D us a → ∃ b, E (f us ++ close) b) :
    Completable E (f ts) := by
  obtain ⟨us, a, hus, ha⟩ := h
  obtain ⟨b, hb⟩ := hE ha
  refine ⟨us ++ close, b, ?_, ?_⟩
  · rw [List.all_append, hus, hclose]
    rfl
  · rwa [← List.append_assoc, ← hf]

end Completable

theorem Layer.rank_le_primary (l : Layer) : l.rank ≤ Layer.primary.rank := by
  cases l <;> decide

theorem Listed.Begun.completable_named {ts : List Kind} {bs : List Brace}
    (h : Listed.Begun Named Named.Begun ts bs) :
    Completable (Listed Named) ts := by
  induction h with
  | element h =>
    cases h with
    | nothing => exact .whole .nil
    | whole => exact .whole (.last .name)
  | @more ts us bs a h _ ih =>
    exact ih.within (fun us => ts ++ .comma :: us) [] rfl (by simp)
      fun hrest => ⟨_, by simpa using Listed.more h hrest⟩

mutual

/-- **The beginning of an expression can be completed** to an expression of the
same layer. -/
theorem Expr.Begun.completable {l : Layer} {ts : List Kind} {bs : List Brace}
    (h : Expr.Begun l ts bs) : Completable (Expr.Derives l) ts := by
  match h with
  | .nothing =>
    have htrue := Expr.Derives.true.loosenTo l.rank_le_primary
    exact ⟨[.kwTrue], _, rfl, htrue⟩
  | .whole h => exact .whole h
  | .loosen h =>
    exact h.completable.within id [] rfl (fun _ => rfl)
      fun he => ⟨_, by simpa using he.loosen⟩
  | @Expr.Begun.binary l k op ts us bs left hop hleft hright =>
    exact hright.completable.within (fun us => ts ++ k :: us) [] rfl (by simp)
      fun he => ⟨_, by simpa using Expr.Derives.binary hop hleft he⟩
  | @Expr.Begun.unary op ts bs h =>
    exact h.completable.within (op.kind :: ·) [] rfl (by simp)
      fun he => ⟨_, by simpa using Expr.Derives.unary he⟩
  | @Expr.Begun.call ts us bs callee hcallee hargs =>
    exact (Expr.Begun.completable_of_listed hargs).within
      (fun us => ts ++ .leftParen :: us) [.rightParen] rfl (by simp)
      fun hes => ⟨_, by simpa using Expr.Derives.call hcallee hes⟩
  | @Expr.Begun.index ts us bs collection hcollection hposition =>
    exact hposition.completable.within (fun us => ts ++ .leftBracket :: us)
      [.rightBracket] rfl (by simp)
      fun he => ⟨_, by simpa using Expr.Derives.index hcollection he⟩
  | .group h =>
    exact h.completable.within (.leftParen :: ·) [.rightParen] rfl (by simp)
      fun he => ⟨_, .group he⟩
  | .array h =>
    exact (Expr.Begun.completable_of_listed h).within (.leftBracket :: ·)
      [.rightBracket] rfl (by simp) fun hes => ⟨_, .array hes⟩
  | .hash h =>
    exact (Expr.Begun.completable_of_pairs h).within (.leftBrace :: ·)
      [.rightBrace] rfl (by simp) fun hps => ⟨_, .hash hps⟩
  | .condition h =>
    exact h.completable.within (.kwIf :: ·) [.leftBrace, .rightBrace] rfl
      (by simp) fun he => ⟨_, .cond he .nil⟩
  | @Expr.Begun.consequence ts us bs condition hcondition hblock =>
    exact hblock.completable.within (fun us => .kwIf :: (ts ++ .leftBrace :: us))
      [.rightBrace] rfl (by simp)
      fun hb => ⟨_, by simpa using Expr.Derives.cond hcondition hb⟩
  | @Expr.Begun.otherwise ts us condition consequence hcondition
      hconsequence =>
    refine ⟨[.leftBrace, .rightBrace], .cond condition consequence (some []),
      rfl, ?_⟩
    simpa using Expr.Derives.condElse hcondition hconsequence .nil
  | @Expr.Begun.alternative ts us vs bs condition consequence hcondition
      hconsequence hblock =>
    exact hblock.completable.within
      (fun vs => .kwIf :: (ts ++ .leftBrace :: (us ++ .rightBrace :: .kwElse ::
        .leftBrace :: vs))) [.rightBrace] rfl (by simp)
      fun hb => ⟨_, by
        simpa using Expr.Derives.condElse hcondition hconsequence hb⟩
  | .fn =>
    exact ⟨[.leftParen, .rightParen, .leftBrace, .rightBrace], _, rfl,
      .fn .nil .nil⟩
  | .params h =>
    exact h.completable_named.within (fun us => .kwFn :: .leftParen :: us)
      [.rightParen, .leftBrace, .rightBrace] rfl (by simp)
      fun hparams => ⟨_, .fn hparams .nil⟩
  | @Expr.Begun.signature ts params h =>
    refine ⟨[.leftBrace, .rightBrace], .fn params [], rfl, ?_⟩
    simpa using Expr.Derives.fn h .nil
  | @Expr.Begun.body ts us bs params hparams hblock =>
    exact hblock.completable.within
      (fun us => .kwFn :: .leftParen :: (ts ++ .rightParen :: .leftBrace :: us))
      [.rightBrace] rfl (by simp)
      fun hb => ⟨_, by simpa using Expr.Derives.fn hparams hb⟩

theorem Expr.Begun.completable_of_listed {ts : List Kind} {bs : List Brace}
    (h : Listed.Begun (Expr.Derives .equality) (Expr.Begun .equality) ts bs) :
    Completable (Listed (Expr.Derives .equality)) ts := by
  match h with
  | .element h =>
    exact h.completable.within id [] rfl (fun _ => rfl)
      fun he => ⟨_, by simpa using Listed.last he⟩
  | @Listed.Begun.more _ _ _ ts us bs a h hrest =>
    exact (Expr.Begun.completable_of_listed hrest).within
      (fun us => ts ++ .comma :: us) [] rfl (by simp)
      fun hes => ⟨_, by simpa using Listed.more h hes⟩

theorem Expr.Begun.completable_of_pairs {ts : List Kind} {bs : List Brace}
    (h : Listed.Begun (Paired (Expr.Derives .equality))
      (Paired.Begun (Expr.Derives .equality) (Expr.Begun .equality)) ts bs) :
    Completable (Listed (Paired (Expr.Derives .equality))) ts := by
  match h with
  | .element (.key h) =>
    exact h.completable.within id [.colon, .kwTrue] rfl (fun _ => rfl)
      fun hkey => ⟨_, .last (.pair hkey
        (Expr.Derives.true.loosenTo (Nat.zero_le _)))⟩
  | .element (@Paired.Begun.value _ _ ts us bs key hkey h) =>
    exact h.completable.within (fun us => ts ++ .colon :: us) [] rfl (by simp)
      fun hvalue => ⟨_, by simpa using Listed.last (Paired.pair hkey hvalue)⟩
  | @Listed.Begun.more _ _ _ ts us bs a h hrest =>
    exact (Expr.Begun.completable_of_pairs hrest).within
      (fun us => ts ++ .comma :: us) [] rfl (by simp)
      fun hps => ⟨_, by simpa using Listed.more h hps⟩

/-- **The beginning of a statement can be completed.** -/
theorem Stmt.Begun.completable {ts : List Kind} {bs : List Brace}
    (h : Stmt.Begun ts bs) : Completable Stmt.Derives ts := by
  have htrue := Expr.Derives.true.loosenTo Layer.equality.rank_le_primary
  match h with
  | .bind => exact ⟨[.ident "x", .assign, .kwTrue], _, rfl, .bind htrue⟩
  | .target => exact ⟨[.assign, .kwTrue], _, rfl, .bind htrue⟩
  | @Stmt.Begun.value ts bs n h =>
    exact h.completable.within (fun us => .kwLet :: .ident n :: .assign :: us)
      [] rfl (by simp) fun he => ⟨_, by simpa using Stmt.Derives.bind he⟩
  | .ret h =>
    exact h.completable.within (.kwReturn :: ·) [] rfl (by simp)
      fun he => ⟨_, by simpa using Stmt.Derives.ret he⟩
  | .expr h =>
    exact h.completable.within id [] rfl (fun _ => rfl)
      fun he => ⟨_, by simpa using Stmt.Derives.expr he⟩

/-- **The beginning of a body can be completed.** -/
theorem Body.Begun.completable {ts : List Kind} {bs : List Brace}
    (h : Body.Begun ts bs) : Completable Body ts := by
  match h with
  | .stmt h =>
    exact h.completable.within id [] rfl (fun _ => rfl)
      fun hs => ⟨_, .cons hs (by simp [Apart]) .nil⟩
  | .semicolon h =>
    exact h.completable.within (.semicolon :: ·) [] rfl (by simp)
      fun hb => ⟨_, by simpa using Body.semicolon hb⟩
  | @Body.Begun.cons ts us bs s hs hapart h =>
    obtain ⟨vs, ss, hvs, hbody⟩ := h.completable
    cases us with
    | nil => exact .whole (.cons hs hapart .nil)
    | cons k us =>
      -- the second statement keeps its first token, so it stays apart
      have hapart' : Apart (k :: us ++ vs) := hapart
      refine ⟨vs, s :: ss, hvs, ?_⟩
      rw [List.append_assoc]
      exact .cons hs hapart' hbody

end

end Monkey
