import Monkey.Proofs.Grammar
import Monkey.Reading

/-!
# Readings that succeed

`Reading.Gives r a c` says that the reading `r` succeeds with `a` and stops at
the cursor `c`. What a composed reading gives follows from what its parts give,
in both directions, so statements about readers can be taken apart and put
together without opening a reader twice.

A cursor is compared with a later one through the tokens between them:
`c.before ts` is the cursor with the tokens `ts` still ahead of `c`. Reading
something from it and stopping at `c` is reading exactly `ts`.
-/

namespace Monkey

open Token (Kind)

namespace Cursor

/-- **The cursor before some tokens**, with `c` behind them. -/
def before (c : Cursor) (ts : List Token) : Cursor :=
  ⟨ts ++ c.tokens, c.nesting⟩

@[simp] theorem before_nil (c : Cursor) : c.before [] = c := rfl

@[simp] theorem before_before (c : Cursor) (ts us : List Token) :
    (c.before us).before ts = c.before (ts ++ us) := by
  simp [before]

@[simp] theorem tokens_before (c : Cursor) (ts : List Token) :
    (c.before ts).tokens = ts ++ c.tokens := rfl

@[simp] theorem nesting_before (c : Cursor) (ts : List Token) :
    (c.before ts).nesting = c.nesting := rfl

theorem mk_cons_eq_before {t t' : Token} {ts : List Token} {k : Nat}
    {c : Cursor} : mk (t :: ts) k = c.before [t'] ↔ t = t' ∧ mk ts k = c := by
  obtain ⟨us, m⟩ := c
  simp [before, and_assoc]

/-- A token more ahead. -/
theorem mk_cons_eq_of_eq (t : Token) {ts us : List Token} {k : Nat}
    {c : Cursor} (h : mk ts k = c.before us) :
    mk (t :: ts) k = c.before (t :: us) := by
  cases h
  rfl

theorem mk_nil_ne_before {t : Token} {k : Nat} {c : Cursor} :
    mk [] k ≠ c.before [t] := by
  simp [before]

/-- A cursor that is not at the end stands before one token. -/
theorem exists_mk_cons_eq_before {t : Token} {ts : List Token} {k : Nat}
    {P : Token → Cursor → Prop} :
    (∃ t' c, mk (t :: ts) k = before c [t'] ∧ P t' c) ↔ P t ⟨ts, k⟩ := by
  simp only [mk_cons_eq_before]
  constructor
  · rintro ⟨_, _, ⟨rfl, rfl⟩, h⟩
    exact h
  · intro h
    exact ⟨t, ⟨ts, k⟩, ⟨rfl, rfl⟩, h⟩

theorem not_exists_mk_nil_eq_before {k : Nat} {P : Token → Cursor → Prop} :
    ¬ ∃ t' c, mk [] k = before c [t'] ∧ P t' c := by
  rintro ⟨_, _, h, -⟩
  exact mk_nil_ne_before h

theorem size_before (c : Cursor) (ts : List Token) :
    (c.before ts).size = ts.length + c.size := by
  simp [before, size]

end Cursor

namespace Reading

variable {α β : Type} {m n : Nat}

/-- **The reading succeeds** with `a` and stops at `c`. -/
def Gives (r : Reading α n) (a : α) (c : Cursor) : Prop :=
  r.result = .ok a ∧ r.cursor = c

@[simp] theorem gives_succeed {a b : α} {c d : Cursor} :
    (succeed a c).Gives b d ↔ a = b ∧ c = d := by
  simp [Gives]

@[simp] theorem not_gives_fail {e : ParseError} {b : α} {c d : Cursor} :
    ¬ (fail e c : Reading α c.size).Gives b d := by
  simp [Gives]

@[simp] theorem gives_ofOption {o : Option α} {e : ParseError} {a : α}
    {c d : Cursor} : (ofOption o e c).Gives a d ↔ o = some a ∧ c = d := by
  cases o <;> simp [ofOption]

@[simp] theorem gives_weaken {r : Reading α m} {h : m ≤ n} {a : α}
    {c : Cursor} : (r.weaken h).Gives a c ↔ r.Gives a c := Iff.rfl

@[simp] theorem gives_after {ts : List Token} {k : Nat} {t : Token}
    {r : Reading α (Cursor.mk ts k).size} {a : α} {c : Cursor} :
    (r.after t).Gives a c ↔ r.Gives a c := Iff.rfl

/-- What is done with a result is done with what the reading gives. -/
@[simp] theorem gives_map {f : α → β} {r : Reading α n} {b : β}
    {c : Cursor} : (r.map f).Gives b c ↔ ∃ a, r.Gives a c ∧ f a = b := by
  unfold Gives
  rw [result_map, cursor_map]
  constructor
  · rintro ⟨hb, hc⟩
    cases hr : r.result with
    | error e => rw [hr] at hb; cases hb
    | ok a => rw [hr] at hb; cases hb; exact ⟨a, ⟨rfl, hc⟩, rfl⟩
  · rintro ⟨a, ⟨ha, hc⟩, rfl⟩
    rw [ha]
    exact ⟨rfl, hc⟩

/-- **What comes after a reading** starts where the reading stopped. -/
@[simp] theorem gives_andThen {r : Reading α n}
    {f : α → (c : Cursor) → c.size ≤ n → Reading β c.size} {b : β}
    {d : Cursor} : (r.andThen f).Gives b d
      ↔ ∃ a c, ∃ h : c.size ≤ n, r.Gives a c ∧ (f a c h).Gives b d := by
  constructor
  · intro h
    cases hr : r.result with
    | error e =>
      rw [andThen_of_error hr] at h
      cases h.1
    | ok a =>
      rw [andThen_of_ok hr] at h
      exact ⟨a, r.cursor, r.size_le, ⟨hr, rfl⟩, h⟩
  · rintro ⟨a, c, hle, ⟨ha, rfl⟩, hb⟩
    rw [andThen_of_ok ha]
    exact hb

/-- A reading gives one thing only. -/
theorem Gives.unique {r : Reading α n} {a b : α} {c d : Cursor}
    (h : r.Gives a c) (h' : r.Gives b d) : a = b ∧ c = d :=
  ⟨Except.ok.inj (h.1.symm.trans h'.1), h.2.symm.trans h'.2⟩

/-- Where a reading stops, no more tokens are ahead than it was allowed. -/
theorem Gives.size_le {r : Reading α n} {a : α} {c : Cursor}
    (h : r.Gives a c) : c.size ≤ n :=
  h.2 ▸ r.size_le

/-- Readings put after each other. -/
theorem Gives.andThen {r : Reading α n} {a : α} {c : Cursor}
    (h : r.Gives a c)
    {f : α → (c : Cursor) → c.size ≤ n → Reading β c.size} {b : β}
    {d : Cursor} (hf : ∀ h, (f a c h).Gives b d) : (r.andThen f).Gives b d :=
  gives_andThen.2 ⟨a, c, h.size_le, h, hf _⟩

theorem Gives.map {r : Reading α n} {a : α} {c : Cursor} (h : r.Gives a c)
    (f : α → β) : (r.map f).Gives (f a) c :=
  gives_map.2 ⟨a, h, rfl⟩

/-! ## Tokens and names -/

/-- **A token is read** exactly if it is the next one, and of the kind asked
for. -/
theorem gives_expect {kind : Kind} {c d : Cursor} {u : Unit} :
    (expect kind c).Gives u d ↔ ∃ t, t.kind = kind ∧ c = d.before [t] := by
  obtain ⟨ts, k⟩ := c
  cases ts with
  | nil =>
    refine iff_of_false not_gives_fail ?_
    rintro ⟨_, -, h⟩
    exact Cursor.mk_nil_ne_before h
  | cons t ts =>
    simp only [Cursor.mk_cons_eq_before, expect]
    split
    · rename_i ht
      rw [gives_after, gives_succeed, and_iff_right rfl]
      constructor
      · intro h
        exact ⟨t, ht, rfl, h⟩
      · rintro ⟨_, -, -, h⟩
        exact h
    · rename_i ht
      refine iff_of_false not_gives_fail ?_
      rintro ⟨_, ht', rfl, -⟩
      exact ht ht'

/-- The token that is asked for is read. -/
theorem expect_before {kind : Kind} {t : Token} (ht : t.kind = kind)
    (c : Cursor) : (expect kind (c.before [t])).Gives () c :=
  gives_expect.2 ⟨t, ht, rfl⟩

/-- A name is read from a token that is one. -/
theorem gives_nameOf {t : Token} {c d : Cursor} {n : String} :
    (nameOf t c).Gives n d ↔ t.kind = .ident n ∧ c = d := by
  unfold nameOf
  split
  · rename_i hk
    rw [gives_succeed, hk, Kind.ident.injEq]
  · rename_i hk
    refine iff_of_false not_gives_fail ?_
    rintro ⟨ht, -⟩
    exact hk n ht

/-- A name is read exactly if the next token is one. -/
theorem gives_name {c d : Cursor} {n : String} :
    (name c).Gives n d ↔ ∃ t, t.kind = .ident n ∧ c = d.before [t] := by
  obtain ⟨ts, k⟩ := c
  cases ts with
  | nil =>
    refine iff_of_false not_gives_fail ?_
    rintro ⟨_, -, h⟩
    exact Cursor.mk_nil_ne_before h
  | cons t ts =>
    simp only [Cursor.mk_cons_eq_before]
    rw [name, gives_after, gives_nameOf]
    constructor
    · rintro ⟨ht, rfl⟩
      exact ⟨t, ht, rfl, rfl⟩
    · rintro ⟨_, ht, rfl, h⟩
      exact ⟨ht, h⟩

/-- Between the elements of a list stands a comma, or the list is closed. -/
theorem gives_separator {close : Kind} {c d : Cursor} {more : Bool}
    (hclose : close ≠ .comma) :
    (separator close c).Gives more d ↔ ∃ t,
      t.kind = (if more then .comma else close) ∧ c = d.before [t] := by
  obtain ⟨ts, k⟩ := c
  cases ts with
  | nil =>
    refine iff_of_false not_gives_fail ?_
    rintro ⟨_, -, h⟩
    exact Cursor.mk_nil_ne_before h
  | cons t ts =>
    simp only [Cursor.mk_cons_eq_before, separator]
    split
    · rename_i ht
      simp only [gives_after, gives_succeed]
      constructor
      · rintro ⟨rfl, h⟩
        exact ⟨t, ht, rfl, h⟩
      · rintro ⟨_, hm, rfl, h⟩
        cases more with
        | true => exact ⟨rfl, h⟩
        | false => exact absurd (hm.symm.trans ht) hclose
    · rename_i hcomma
      split
      · rename_i ht
        simp only [gives_after, gives_succeed]
        constructor
        · rintro ⟨rfl, h⟩
          exact ⟨t, ht, rfl, h⟩
        · rintro ⟨_, hm, rfl, h⟩
          cases more with
          | true => exact absurd hm hcomma
          | false => exact ⟨rfl, h⟩
      · rename_i ht
        refine iff_of_false not_gives_fail ?_
        rintro ⟨_, hm, rfl, -⟩
        cases more with
        | true => exact hcomma hm
        | false => exact ht hm

/-! ## Lists -/

section

variable {D : List Kind → α → Prop} {close : Kind}
  {element : Token → (c : Cursor) → c.size < n → Reading α c.size}

/-- **A list that is read is a list with commas**, if its elements are what
`D` says. -/
theorem Gives.listed (hclose : close ≠ .comma)
    (hD : ∀ {t c h a d}, (element t c h).Gives a d →
      ∃ ts, c = d.before ts ∧ D ((t :: ts).map Token.kind) a)
    {c : Cursor} {hc : c.size ≤ n} {as : List α} {d : Cursor}
    (h : (list close element c hc).Gives as d) :
    ∃ ts t, t.kind = close ∧ c = d.before (ts ++ [t])
      ∧ Listed D (ts.map Token.kind) as := by
  match c, hc, h with
  | ⟨[], k⟩, hc, h =>
    rw [list] at h
    exact absurd h not_gives_fail
  | ⟨t :: ts, k⟩, hc, h =>
    rw [list] at h
    split at h
    · rename_i ht
      simp only [gives_after, gives_succeed] at h
      obtain ⟨rfl, rfl⟩ := h
      exact ⟨[], t, ht, rfl, .nil⟩
    · simp only [gives_after, gives_andThen, gives_separator hclose] at h
      obtain ⟨a, c₁, hle, ha, more, c₂, hle', ⟨s, hs, rfl⟩, hrest⟩ := h
      obtain ⟨us, hus, hDa⟩ := hD ha
      cases more with
      | true =>
        simp only [if_true, gives_map] at hs hrest
        obtain ⟨as', has, rfl⟩ := hrest
        obtain ⟨vs, t', ht', rfl, hvs⟩ := Gives.listed hclose hD has
        refine ⟨t :: us ++ s :: vs, t', ht', ?_, ?_⟩
        · simpa using Cursor.mk_cons_eq_of_eq t hus
        · simpa [hs] using Listed.more hDa hvs
      | false =>
        simp only [Bool.false_eq_true, if_false, gives_succeed] at hs hrest
        obtain ⟨rfl, rfl⟩ := hrest
        refine ⟨t :: us, s, hs, ?_, .last hDa⟩
        simpa using Cursor.mk_cons_eq_of_eq t hus
termination_by c.size
decreasing_by exact Nat.lt_succ_of_le (Nat.le_trans hle' hle)

/-- A list that is closed at once is empty. -/
theorem gives_list_close {t : Token} {d : Cursor} {hc} (ht : t.kind = close) :
    (list close element ⟨t :: d.tokens, d.nesting⟩ hc).Gives [] d := by
  rw [list, if_pos ht]
  exact gives_succeed.2 ⟨rfl, rfl⟩

/-- A list that is closed behind its first element. -/
theorem gives_list_last {t s : Token} {c d : Cursor} {hc} {a : α}
    (hclose : close ≠ .comma) (ht : t.kind ≠ close) (hs : s.kind = close)
    (ha : ∀ h, (element t c h).Gives a (d.before [s])) :
    (list close element ⟨t :: c.tokens, c.nesting⟩ hc).Gives [a] d := by
  rw [list, if_neg ht]
  have hsep : (separator close (d.before [s])).Gives false d :=
    (gives_separator hclose).2 ⟨s, hs, rfl⟩
  exact (ha hc).andThen fun _ =>
    hsep.andThen fun _ => gives_succeed.2 ⟨rfl, rfl⟩

/-- A list that goes on behind a comma. -/
theorem gives_list_more {t s : Token} {c c' d : Cursor} {hc} {a : α}
    {as : List α} (hclose : close ≠ .comma) (ht : t.kind ≠ close)
    (hs : s.kind = .comma) (ha : ∀ h, (element t c h).Gives a (c'.before [s]))
    (has : ∀ h, (list close element c' h).Gives as d) :
    (list close element ⟨t :: c.tokens, c.nesting⟩ hc).Gives (a :: as) d := by
  rw [list, if_neg ht]
  have hsep : (separator close (c'.before [s])).Gives true c' :=
    (gives_separator hclose).2 ⟨s, hs, rfl⟩
  exact (ha hc).andThen fun _ => hsep.andThen fun _ => (has _).map _

/-- **A list with commas is read as that list**, if its elements are read as
`D` says wherever a comma or the closing token follows. -/
theorem gives_list_of_listed (hclose : close ≠ .comma)
    (hD : ∀ {ts : List Token} {a : α} {s : Token} {d : Cursor},
      D (ts.map Token.kind) a →
      s.kind = .comma ∨ s.kind = close →
      ∃ t us, ts = t :: us ∧ t.kind ≠ close
        ∧ ∀ h, (element t ((d.before [s]).before us) h).Gives a (d.before [s]))
    {ks : List Kind} {as : List α} (has : Listed D ks as) :
    ∀ {ts : List Token} {t : Token} {c d : Cursor} {hc},
      ts.map Token.kind = ks → t.kind = close → c = d.before (ts ++ [t]) →
      (list close element c hc).Gives as d := by
  induction has with
  | nil =>
    intro ts t c d hc hts ht hcd
    obtain rfl := List.map_eq_nil_iff.1 hts
    subst hcd
    exact gives_list_close ht
  | last h =>
    intro ts t c d hc hts ht hcd
    subst hts
    obtain ⟨t', us, rfl, ht', ha⟩ := hD h (.inr ht)
    obtain rfl : c = ((d.before [t]).before us).before [t'] := by
      rw [hcd]; simp
    exact gives_list_last hclose ht' ht ha
  | more h _ ih =>
    intro ts t c d hc hts ht hcd
    obtain ⟨us, vs, rfl, hus, hvs⟩ := List.map_eq_append_iff.1 hts
    obtain ⟨s, vs, rfl, hs, hvs⟩ := List.map_eq_cons_iff.1 hvs
    subst hus
    obtain ⟨t', us, rfl, ht', ha⟩ := hD h (.inl hs)
    obtain rfl : c
        = (((d.before (vs ++ [t])).before [s]).before us).before [t'] := by
      rw [hcd]; simp
    exact gives_list_more hclose ht' hs ha (fun _ => ih hvs ht rfl)

end

end Reading

end Monkey
