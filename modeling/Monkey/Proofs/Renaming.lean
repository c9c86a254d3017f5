import Monkey.Value.Render

/-!
# Relabelling values

The identities of objects are numbers, but nothing in the language computes with
them: they are handed out and compared. So replacing each identity by another
one changes nothing that can be observed of a value, its type, its truth and the
key it is in a hash, as long as different identities stay different. The same
goes for the numbers of the scopes that functions hold. A value is *relabelled*
by giving other identities to the objects in it and other numbers to the scopes
(`Value.relabel`).

The text of a value is another matter, since a hash shows its entries in an
order of its own. It is the same after relabelling if each hash is shown in the
order in which it has been shown before (`Arrangement.Alike`).

What a value depends on outside of itself is what its parts name. A value
*holds* itself and what its elements and entries hold (`Value.Holds`); it
*captures* the scopes of the functions that it holds, and *names* the identities
of the objects that it holds.
-/

namespace Monkey

/-! ## What a value holds -/

/-- **A value holds another**: it is the other, or one of its elements, keys or
entries holds the other. -/
inductive Value.Holds : Value → Value → Prop where
  | self {v : Value} : Value.Holds v v
  | element {id : ObjectId} {vs : List Value} {v u : Value} :
      v ∈ vs → Value.Holds v u → Value.Holds (.array id vs) u
  | key {id : ObjectId} {es : List (HashKey × Value × Value)} {k : HashKey}
      {key value u : Value} :
      (k, key, value) ∈ es → Value.Holds key u → Value.Holds (.hash id es) u
  | entry {id : ObjectId} {es : List (HashKey × Value × Value)} {k : HashKey}
      {key value u : Value} :
      (k, key, value) ∈ es → Value.Holds value u → Value.Holds (.hash id es) u

/-- **The value captures the scope**: it holds a function made there. -/
def Value.Captures (v : Value) (s : ScopeId) : Prop :=
  ∃ id closure, v.Holds (.fn id closure) ∧ closure.scope = s

/-- **The value names the identity**: it holds an object that has it. -/
def Value.Names (v : Value) (i : ObjectId) : Prop :=
  ∃ u, v.Holds u ∧ u.identity = .object i

/-- Whether a value is neither a collection nor a function of the program. -/
def Value.isAtom : Value → Bool
  | .array _ _ | .hash _ _ | .fn _ _ => false
  | _ => true

/-! ## Relabelling -/

/-- The identity that an object has after relabelling. Shared objects keep
theirs. -/
def Identity.rename (f : ObjectId → ObjectId) : Identity → Identity
  | .object id => .object (f id)
  | identity => identity

/-- An identity is kept if its number is. -/
theorem Identity.rename_eq_self {f : ObjectId → ObjectId} {a : Identity}
    (h : ∀ i, a = .object i → f i = i) : a.rename f = a := by
  cases a with
  | object i => exact congrArg Identity.object (h i rfl)
  | bool b => rfl
  | null => rfl

/-- The function, made in another scope. -/
def Closure.relabel (g : ScopeId → ScopeId) (f : Closure) : Closure :=
  ⟨f.params, f.body, g f.scope⟩

mutual

/-- **The value with other identities and other scopes.** -/
def Value.relabel (f : ObjectId → ObjectId) (g : ScopeId → ScopeId) :
    Value → Value
  | .int id value => .int (f id) value
  | .bool identity value => .bool (identity.rename f) value
  | .str id text => .str (f id) text
  | .array id elements => .array (f id) (relabelValues f g elements)
  | .hash id entries => .hash (f id) (relabelEntries f g entries)
  | .fn id closure => .fn (f id) (closure.relabel g)
  | .builtin id which => .builtin (f id) which
  | .null identity => .null (identity.rename f)

/-- The values with other identities and other scopes. -/
def relabelValues (f : ObjectId → ObjectId) (g : ScopeId → ScopeId) :
    List Value → List Value
  | [] => []
  | v :: vs => v.relabel f g :: relabelValues f g vs

/-- The entries with other identities and other scopes. Keys have neither. -/
def relabelEntries (f : ObjectId → ObjectId) (g : ScopeId → ScopeId) :
    List (HashKey × Value × Value) → List (HashKey × Value × Value)
  | [] => []
  | (k, key, value) :: entries =>
    (k, key.relabel f g, value.relabel f g) :: relabelEntries f g entries

end

/-- The pair of a key and a value with other identities and other scopes. -/
def relabelPair (f : ObjectId → ObjectId) (g : ScopeId → ScopeId)
    (p : Value × Value) : Value × Value :=
  (p.1.relabel f g, p.2.relabel f g)

section

variable (f : ObjectId → ObjectId) (g : ScopeId → ScopeId)

/-- A relabelled value has the relabelled identity. -/
theorem Value.identity_relabel (v : Value) :
    (v.relabel f g).identity = v.identity.rename f := by
  cases v <;> rfl

/-- Values are relabelled one by one. -/
theorem relabelValues_eq_map (vs : List Value) :
    relabelValues f g vs = vs.map (Value.relabel f g) := by
  induction vs with
  | nil => rfl
  | cons v vs ih => rw [relabelValues, ih, List.map_cons]

/-- Entries are relabelled one by one. -/
theorem relabelEntries_eq_map (es : List (HashKey × Value × Value)) :
    relabelEntries f g es = es.map fun e => (e.1, relabelPair f g e.2) := by
  induction es with
  | nil => rfl
  | cons e es ih =>
    rw [relabelEntries, ih, List.map_cons]
    rfl

/-! ### What does not change -/

@[simp] theorem Value.type_relabel (v : Value) :
    (v.relabel f g).type = v.type := by
  cases v <;> rfl

@[simp] theorem Value.truthy_relabel (v : Value) :
    (v.relabel f g).truthy = v.truthy := by
  cases v <;> rfl

@[simp] theorem Value.key?_relabel (v : Value) :
    (v.relabel f g).key? = v.key? := by
  cases v <;> rfl

end

/-! ### The text of a value -/

/-- **Hashes are shown alike**: those with the given identities show their
entries in the same order in both arrangements, where `f` says which identity
they have in the second. -/
def Arrangement.Alike (object : ObjectId → Prop) (f : ObjectId → ObjectId)
    (a b : Arrangement) : Prop :=
  ∀ i, object i → ∀ keys, b.arrange (f i) keys = a.arrange i keys

namespace Arrangement

variable {object object' : ObjectId → Prop} {f : ObjectId → ObjectId}
  {a b : Arrangement}

theorem Alike.mono (h : Alike object f a b) (hsub : ∀ i, object' i → object i) :
    Alike object' f a b :=
  fun i hi => h i (hsub i hi)

/-- An arrangement is like itself if identities are kept. -/
theorem alike_self (hf : ∀ i, object i → f i = i) (a : Arrangement) :
    Alike object f a a := by
  intro i hi keys
  rw [hf i hi]

theorem Alike.entries (h : Alike object f a b) {id : ObjectId}
    (hid : object id) {β : Type} (t : Table HashKey β) :
    b.entries (f id) t = a.entries id t := by
  unfold Arrangement.entries
  rw [h id hid]

end Arrangement

namespace Value

theorem names_self {v : Value} {i : ObjectId} (h : v.identity = .object i) :
    v.Names i :=
  ⟨v, .self, h⟩

/-- What an element names, the array names. -/
theorem names_element {id i : ObjectId} {vs : List Value} {v : Value}
    (hv : v ∈ vs) (h : v.Names i) : (array id vs).Names i := by
  obtain ⟨u, hu, hi⟩ := h
  exact ⟨u, .element hv hu, hi⟩

/-- What a key names, the hash names. -/
theorem names_key {id i : ObjectId} {es : List (HashKey × Value × Value)}
    {k : HashKey} {key value : Value} (he : (k, key, value) ∈ es)
    (h : key.Names i) : (hash id es).Names i := by
  obtain ⟨u, hu, hi⟩ := h
  exact ⟨u, .key he hu, hi⟩

/-- What an entry names, the hash names. -/
theorem names_entry {id i : ObjectId} {es : List (HashKey × Value × Value)}
    {k : HashKey} {key value : Value} (he : (k, key, value) ∈ es)
    (h : value.Names i) : (hash id es).Names i := by
  obtain ⟨u, hu, hi⟩ := h
  exact ⟨u, .entry he hu, hi⟩

end Value

section

variable {f : ObjectId → ObjectId} {a b : Arrangement} (g : ScopeId → ScopeId)

mutual

/-- **The text of a value** depends on scopes not at all, and on identities only
as far as hashes show their entries in another order. -/
theorem Value.render_relabel (v : Value) (h : Arrangement.Alike v.Names f a b) :
    (v.relabel f g).render b = v.render a := by
  match v with
  | .int _ _ | .bool _ _ | .str _ _ | .fn _ _ | .builtin _ _ | .null _ => rfl
  | .array id elements =>
    have helements := renderValues_relabel elements
      fun v hv => h.mono fun i => Value.names_element hv
    show "[" ++ ", ".intercalate (renderValues b (relabelValues f g elements))
        ++ "]"
      = "[" ++ ", ".intercalate (renderValues a elements) ++ "]"
    rw [helements]
  | .hash id entries =>
    have hentries := renderEntries_relabel entries
      fun k key value he => ⟨h.mono fun i => Value.names_key he,
        h.mono fun i => Value.names_entry he⟩
    show "\x7b" ++ ", ".intercalate (b.entries (f id)
          (renderEntries b (relabelEntries f g entries))) ++ "\x7d"
      = "\x7b" ++ ", ".intercalate (a.entries id (renderEntries a entries))
          ++ "\x7d"
    rw [hentries, h.entries (Value.names_self rfl)]

theorem renderValues_relabel (vs : List Value)
    (h : ∀ v ∈ vs, Arrangement.Alike v.Names f a b) :
    renderValues b (relabelValues f g vs) = renderValues a vs := by
  match vs with
  | [] => rfl
  | v :: vs =>
    obtain ⟨hv, hvs⟩ := List.forall_mem_cons.1 h
    rw [relabelValues, renderValues, renderValues, v.render_relabel hv,
      renderValues_relabel vs hvs]

theorem renderEntries_relabel (es : List (HashKey × Value × Value))
    (h : ∀ k key value, (k, key, value) ∈ es →
      Arrangement.Alike key.Names f a b ∧ Arrangement.Alike value.Names f a b) :
    renderEntries b (relabelEntries f g es) = renderEntries a es := by
  match es with
  | [] => rfl
  | (k, key, value) :: es =>
    obtain ⟨hkey, hvalue⟩ := h k key value List.mem_cons_self
    rw [relabelEntries, renderEntries, renderEntries, key.render_relabel hkey,
      value.render_relabel hvalue, renderEntries_relabel es
        fun k key value he => h k key value (List.mem_cons_of_mem _ he)]

end

end

/-! ### Relabellings that change nothing -/

mutual

/-- **A relabelling that keeps the identities a value names and the scopes it
captures keeps the value.** -/
theorem Value.relabel_eq_self {f : ObjectId → ObjectId}
    {g : ScopeId → ScopeId} (v : Value) (hf : ∀ i, v.Names i → f i = i)
    (hg : ∀ s, v.Captures s → g s = s) : v.relabel f g = v := by
  have hself (i : ObjectId) (hi : v.identity = .object i) : f i = i :=
    hf i ⟨v, .self, hi⟩
  match v, hf, hg, hself with
  | .bool identity _, _, _, hself | .null identity, _, _, hself =>
    rw [Value.relabel, Identity.rename_eq_self (a := identity) hself]
  | .int id _, _, _, hself | .str id _, _, _, hself
  | .builtin id _, _, _, hself =>
    rw [Value.relabel, hself id rfl]
  | .fn id closure, _, hg, hself =>
    rw [Value.relabel, hself id rfl, Closure.relabel,
      hg closure.scope ⟨id, closure, .self, rfl⟩]
  | .array id elements, hf, hg, hself =>
    rw [Value.relabel, hself id rfl, relabelValues_eq_self elements]
    intro v hv
    constructor
    · exact fun i hi => hf i (Value.names_element hv hi)
    · rintro s ⟨id, closure, hu, hs⟩
      exact hg s ⟨id, closure, .element hv hu, hs⟩
  | .hash id entries, hf, hg, hself =>
    rw [Value.relabel, hself id rfl, relabelEntries_eq_self entries]
    intro k key value hmem
    refine ⟨⟨?_, ?_⟩, ?_, ?_⟩
    · exact fun i hi => hf i (Value.names_key hmem hi)
    · rintro s ⟨id, closure, hu, hs⟩
      exact hg s ⟨id, closure, .key hmem hu, hs⟩
    · exact fun i hi => hf i (Value.names_entry hmem hi)
    · rintro s ⟨id, closure, hu, hs⟩
      exact hg s ⟨id, closure, .entry hmem hu, hs⟩

theorem relabelValues_eq_self {f : ObjectId → ObjectId}
    {g : ScopeId → ScopeId} (vs : List Value)
    (h : ∀ v ∈ vs, (∀ i, v.Names i → f i = i) ∧ ∀ s, v.Captures s → g s = s) :
    relabelValues f g vs = vs := by
  match vs with
  | [] => rfl
  | v :: vs =>
    have hfirst := h v List.mem_cons_self
    rw [relabelValues, v.relabel_eq_self hfirst.1 hfirst.2,
      relabelValues_eq_self vs fun v hv => h v (List.mem_cons_of_mem _ hv)]

theorem relabelEntries_eq_self {f : ObjectId → ObjectId}
    {g : ScopeId → ScopeId} (es : List (HashKey × Value × Value))
    (h : ∀ k key value, (k, key, value) ∈ es →
      ((∀ i, key.Names i → f i = i) ∧ ∀ s, key.Captures s → g s = s)
        ∧ (∀ i, value.Names i → f i = i)
        ∧ ∀ s, value.Captures s → g s = s) :
    relabelEntries f g es = es := by
  match es with
  | [] => rfl
  | (k, key, value) :: es =>
    have hfirst := h k key value List.mem_cons_self
    rw [relabelEntries, key.relabel_eq_self hfirst.1.1 hfirst.1.2,
      value.relabel_eq_self hfirst.2.1 hfirst.2.2, relabelEntries_eq_self es
        fun k key value hmem => h k key value (List.mem_cons_of_mem _ hmem)]

end

/-! ## Tables -/

/-- Looking up a key is the same after the values have been mapped. -/
theorem Table.get?_map {κ β γ : Type} [DecidableEq κ] (f : β → γ) (k : κ)
    (t : Table κ β) :
    Table.get? k (t.map fun e => (e.1, f e.2)) = (Table.get? k t).map f := by
  induction t with
  | nil => rfl
  | cons e t ih =>
    rw [List.map_cons, Table.get?, Table.get?, ih]
    split <;> rfl

/-- Entering a pair is the same after the values have been mapped. -/
theorem Table.insert_map {κ β γ : Type} [DecidableEq κ] [Ord κ] (f : β → γ)
    (k : κ) (b : β) (t : Table κ β) :
    Table.insert k (f b) (t.map fun e => (e.1, f e.2))
      = (Table.insert k b t).map fun e => (e.1, f e.2) := by
  induction t with
  | nil => rfl
  | cons e t ih =>
    rw [List.map_cons, Table.insert, Table.insert]
    split
    · rfl
    · split
      · rfl
      · rw [ih]
        rfl

/-- What is found is an entry. -/
theorem Table.mem_of_get? {κ β : Type} [DecidableEq κ] {k : κ} {b : β}
    {t : Table κ β} (h : Table.get? k t = some b) : (k, b) ∈ t := by
  induction t with
  | nil => cases h
  | cons e t ih =>
    rw [Table.get?] at h
    split at h
    · rename_i hk
      rw [hk, ← Option.some.inj h]
      exact List.mem_cons_self
    · exact List.mem_cons_of_mem e (ih h)

/-- An entry has just been entered, or has been there before. -/
theorem Table.eq_or_mem_of_mem_insert {κ β : Type} [DecidableEq κ] [Ord κ]
    {k : κ} {b : β} {t : Table κ β} {e : κ × β}
    (h : e ∈ Table.insert k b t) : e = (k, b) ∨ e ∈ t := by
  induction t with
  | nil => exact .inl (List.mem_singleton.1 h)
  | cons e' t ih =>
    rw [Table.insert] at h
    split at h
    · exact (List.mem_cons.1 h).imp_right (List.mem_cons_of_mem e')
    · split at h
      · exact List.mem_cons.1 h
      · obtain rfl | h := List.mem_cons.1 h
        · exact .inr List.mem_cons_self
        · exact (ih h).imp_right (List.mem_cons_of_mem e')

end Monkey
