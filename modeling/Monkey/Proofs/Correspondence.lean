import Monkey.Eval.Program
import Monkey.Proofs.Occurrence
import Monkey.Proofs.Renaming

/-!
# Corresponding runs

Two runs of the same evaluation can be compared although they take place in
different worlds: objects and scopes may be numbered differently, scopes may
bind other names, and there may be other scopes. What has to be the same is what
the evaluation looks at. A `Correspondence` says what that is: the code that may
be evaluated, the names it mentions, the scopes in which it may look them up and
the identities of the objects that it may find there; and it says by what number
a scope or an object of the first run goes in the second.

The worlds *correspond* (`Correspondence.Worlds`) if the scopes that count have
the same links, and bind the names that count to the same values. Functions are
values, so what a scope that counts binds must be *covered*: the functions in it
have been made by the code that may be evaluated, in scopes that count. Nothing
is asked of the orders of hashes. They decide whether both runs write the same
text, and about nothing else.

A correspondence between a world and itself says what an evaluation can come
across, and nothing else. That is what invariants are made of.
-/

namespace Monkey

/-- **What two runs have in common.** -/
structure Correspondence where
  /-- The identity that an object of the first run has in the second. -/
  rename : ObjectId → ObjectId
  /-- The number that a scope of the first run has in the second. -/
  rescope : ScopeId → ScopeId
  /-- The code that may be evaluated. -/
  code : Code
  /-- The names that count. -/
  name : String → Prop
  /-- The scopes that count. -/
  scope : ScopeId → Prop
  /-- The identities that count. -/
  object : ObjectId → Prop
  /-- Whether functions hold only scopes that have been made. -/
  strict : Prop
  /-- The names that the code mentions count. -/
  names : ∀ {n x}, code.node n → x ∈ n.names → name x
  /-- Different objects stay different. -/
  injective : ∀ {i j}, object i → object j → rename i = rename j → i = j
  /-- Scopes keep their order. -/
  increasing : ∀ {s t}, scope s → scope t → (rescope s < rescope t ↔ s < t)

namespace Correspondence

variable (C : Correspondence)

/-! ## Values -/

/-- The value as it is in the second run. -/
abbrev relabel (v : Value) : Value :=
  v.relabel C.rename C.rescope

/-- **Code may run in the scope**, where `n` scopes have been made. -/
def Available (n : Nat) (s : ScopeId) : Prop :=
  C.scope s ∧ (C.strict → s < n)

/-- **The function may be called**, where `n` scopes have been made. -/
def Callable (n : Nat) (f : Closure) : Prop :=
  C.Available n f.scope ∧ C.code.node (.expr (.fn f.params f.body))

/-- The value may be come across, whatever it holds. -/
structure Admits (n : Nat) (v : Value) : Prop where
  object : ∀ i, v.identity = .object i → C.object i
  callable : ∀ id f, v = .fn id f → C.Callable n f

/-- **The value is covered**: all that it holds may be come across. -/
def Covers (n : Nat) (v : Value) : Prop :=
  ∀ u, v.Holds u → C.Admits n u

/-- The value is the same in the second run. -/
def Values (n : Nat) (v w : Value) : Prop :=
  w = C.relabel v ∧ C.Covers n v

/-- The value, if there is one, is the same in the second run. -/
def Options (n : Nat) (o o' : Option Value) : Prop :=
  o' = o.map C.relabel ∧ ∀ v, o = some v → C.Covers n v

/-- The values are the same in the second run. -/
def Lists (n : Nat) (vs ws : List Value) : Prop :=
  ws = vs.map C.relabel ∧ ∀ v ∈ vs, C.Covers n v

/-- The entries are the same in the second run. -/
def Tables (n : Nat) (es fs : Table HashKey (Value × Value)) : Prop :=
  fs = es.map (fun e => (e.1, relabelPair C.rename C.rescope e.2))
    ∧ ∀ e ∈ es, C.Covers n e.2.1 ∧ C.Covers n e.2.2

variable {C}

/-! ### Making more scopes -/

section

variable {m n : Nat} (hmn : m ≤ n)

include hmn

theorem Available.mono {s : ScopeId} (h : C.Available m s) :
    C.Available n s :=
  ⟨h.1, fun hstrict => Nat.lt_of_lt_of_le (h.2 hstrict) hmn⟩

theorem Callable.mono {f : Closure} (h : C.Callable m f) : C.Callable n f :=
  ⟨h.1.mono hmn, h.2⟩

theorem Covers.mono {v : Value} (h : C.Covers m v) : C.Covers n v :=
  fun u hu =>
    ⟨(h u hu).object, fun id f hf => ((h u hu).callable id f hf).mono hmn⟩

theorem Values.mono {v w : Value} (h : C.Values m v w) : C.Values n v w :=
  ⟨h.1, h.2.mono hmn⟩

theorem Lists.mono {vs ws : List Value} (h : C.Lists m vs ws) :
    C.Lists n vs ws :=
  ⟨h.1, fun v hv => (h.2 v hv).mono hmn⟩

theorem Tables.mono {es fs : Table HashKey (Value × Value)}
    (h : C.Tables m es fs) : C.Tables n es fs :=
  ⟨h.1, fun e he => ⟨(h.2 e he).1.mono hmn, (h.2 e he).2.mono hmn⟩⟩

end

/-! ### Values by their form -/

section

variable {n : Nat} {id : ObjectId}

/-- **A value that holds only itself** and is no function is covered if its
identity counts. -/
theorem covers_atom {v : Value} (hatom : v.isAtom)
    (hobject : ∀ i, v.identity = .object i → C.object i) : C.Covers n v := by
  intro u hu
  have hself : u = v := by
    cases hu with
    | self => rfl
    | element | key | entry => cases hatom
  rw [hself]
  refine ⟨hobject, ?_⟩
  rintro id f rfl
  cases hatom

/-- **A value is covered by what it captures and names**, where any code may be
evaluated and functions may hold any scope. -/
theorem covers_of_captures (hcode : ∀ m, C.code.node m) (hstrict : ¬ C.strict)
    {v : Value} (hscope : ∀ s, v.Captures s → C.scope s)
    (hobject : ∀ i, v.Names i → C.object i) : C.Covers n v := by
  intro u hu
  refine ⟨fun i hi => hobject i ⟨u, hu, hi⟩, ?_⟩
  rintro id f rfl
  exact ⟨⟨hscope _ ⟨id, f, hu, rfl⟩, fun h => absurd h hstrict⟩, hcode _⟩

theorem covers_fn_iff {f : Closure} :
    C.Covers n (.fn id f) ↔ C.object id ∧ C.Callable n f := by
  constructor
  · intro h
    exact ⟨(h _ .self).object id rfl, (h _ .self).callable id f rfl⟩
  · rintro ⟨hobject, hcallable⟩ u ⟨⟩
    exact ⟨by rintro i ⟨⟩; exact hobject, by rintro _ _ ⟨⟩; exact hcallable⟩

theorem covers_array_iff {vs : List Value} :
    C.Covers n (.array id vs) ↔ C.object id ∧ ∀ v ∈ vs, C.Covers n v := by
  constructor
  · intro h
    exact ⟨(h _ .self).object id rfl, fun v hv u hu => h u (.element hv hu)⟩
  · rintro ⟨hobject, helements⟩ u hu
    cases hu with
    | self => exact ⟨by rintro i ⟨⟩; exact hobject, by rintro _ _ ⟨⟩⟩
    | element hv hu => exact helements _ hv u hu

theorem covers_hash_iff {es : Table HashKey (Value × Value)} :
    C.Covers n (.hash id es)
      ↔ C.object id ∧ ∀ e ∈ es, C.Covers n e.2.1 ∧ C.Covers n e.2.2 := by
  constructor
  · intro h
    refine ⟨(h _ .self).object id rfl, fun e he => ⟨?_, ?_⟩⟩
    · exact fun u hu => h u (.key he hu)
    · exact fun u hu => h u (.entry he hu)
  · rintro ⟨hobject, hentries⟩ u hu
    cases hu with
    | self => exact ⟨by rintro i ⟨⟩; exact hobject, by rintro _ _ ⟨⟩⟩
    | key he hu => exact (hentries _ he).1 u hu
    | entry he hu => exact (hentries _ he).2 u hu

theorem values_truth (b : Bool) : C.Values n (.truth b) (.truth b) :=
  ⟨rfl, covers_atom rfl (by rintro _ ⟨⟩)⟩

theorem values_nothing : C.Values n .nothing .nothing :=
  ⟨rfl, covers_atom rfl (by rintro _ ⟨⟩)⟩

theorem lists_nil : C.Lists n [] [] :=
  ⟨rfl, by simp⟩

theorem Values.cons {v w : Value} {vs ws : List Value} (h : C.Values n v w)
    (hs : C.Lists n vs ws) : C.Lists n (v :: vs) (w :: ws) := by
  obtain ⟨rfl, hcovers⟩ := h
  obtain ⟨rfl, hall⟩ := hs
  exact ⟨rfl, List.forall_mem_cons.2 ⟨hcovers, hall⟩⟩

theorem tables_nil : C.Tables n [] [] :=
  ⟨rfl, by simp⟩

theorem Tables.insert {es fs : Table HashKey (Value × Value)}
    (h : C.Tables n es fs) {k k' v v' : Value} (hk : C.Values n k k')
    (hv : C.Values n v v') (key : HashKey) :
    C.Tables n (Table.insert key (k, v) es)
      (Table.insert key (k', v') fs) := by
  obtain ⟨rfl, hentries⟩ := h
  obtain ⟨rfl, hk⟩ := hk
  obtain ⟨rfl, hv⟩ := hv
  refine ⟨Table.insert_map (relabelPair C.rename C.rescope) key (k, v) es, ?_⟩
  intro e he
  obtain rfl | he := Table.eq_or_mem_of_mem_insert he
  · exact ⟨hk, hv⟩
  · exact hentries e he

/-- **Being the same object is the same in both runs.** -/
theorem Values.identical {v v' w w' : Value} (hv : C.Values n v v')
    (hw : C.Values n w w') : v'.identical w' = v.identical w := by
  obtain ⟨rfl, hv⟩ := hv
  obtain ⟨rfl, hw⟩ := hw
  have hv := (hv v .self).object
  have hw := (hw w .self).object
  unfold Value.identical
  rw [Value.identity_relabel, Value.identity_relabel, Bool.eq_iff_iff,
    beq_iff_eq, beq_iff_eq]
  generalize v.identity = a at hv
  generalize w.identity = b at hw
  cases a with
  | object i =>
    cases b with
    | object j =>
      have hij : C.rename i = C.rename j ↔ i = j :=
        ⟨C.injective (hv i rfl) (hw j rfl), congrArg C.rename⟩
      simp [Identity.rename, hij]
    | _ => simp [Identity.rename]
  | _ => cases b <;> simp [Identity.rename]

end

end Correspondence

/-! ## Worlds -/

/-- **Nothing has been written**, and hashes have kept their orders. -/
def World.Quiet (w w' : World) : Prop :=
  w'.output = w.output ∧ w'.arrangement = w.arrangement

/-- **Both worlds have been written to**, and with the same text if `shown`. -/
def World.WroteAlike (shown : Prop) (u v u' v' : World) : Prop :=
  ∃ text text', u'.output = u.output ++ text ∧ v'.output = v.output ++ text'
    ∧ (shown → text' = text)

theorem World.WroteAlike.trans {shown : Prop} {u v u' v' u'' v'' : World}
    (h : World.WroteAlike shown u v u' v')
    (h' : World.WroteAlike shown u' v' u'' v'') :
    World.WroteAlike shown u v u'' v'' := by
  obtain ⟨first, first', hu, hv, heq⟩ := h
  obtain ⟨second, second', hu', hv', heq'⟩ := h'
  refine ⟨first ++ second, first' ++ second', ?_, ?_, fun hshown => ?_⟩
  · rw [hu', hu, String.append_assoc]
  · rw [hv', hv, String.append_assoc]
  · rw [heq hshown, heq' hshown]

namespace Correspondence

variable {C : Correspondence}

/-- **The worlds correspond**: the scopes that count, which are closed, have the
same links and the same bindings. -/
structure Worlds (C : Correspondence) (u v : World) : Prop where
  /-- The next scopes are the same. -/
  size : ∀ j, C.rescope (u.scopes.size + j) = v.scopes.size + j
  /-- Every scope that is still to be made counts. -/
  new : ∀ s, u.scopes.size ≤ s → C.scope s
  /-- The links are the same. -/
  outer : ∀ {s}, C.scope s →
    v.outer? (C.rescope s) = (u.outer? s).map C.rescope
  /-- The scope around a scope that counts does, and it was made before. -/
  closed : ∀ {s o}, C.scope s → u.outer? s = some o →
    C.scope o ∧ (C.strict → o < s)
  /-- What the scopes that count bind is the same. -/
  bindings : ∀ {s x}, C.scope s → C.name x →
    v.getLocal? (C.rescope s) x = (u.getLocal? s x).map C.relabel
  /-- What the scopes that count bind is covered. -/
  covers : ∀ {s x y}, C.scope s → C.name x → u.getLocal? s x = some y →
    C.Covers u.scopes.size y
  /-- The next objects are the same. -/
  next : ∀ j, C.rename (u.nextObject + j) = v.nextObject + j
  /-- Every object that is still to be made counts. -/
  fresh : ∀ j, C.object (u.nextObject + j)

/-- **Hashes are shown alike** in both worlds, as far as their identities
count. -/
def ShowsAlike (C : Correspondence) (u v : World) : Prop :=
  Arrangement.Alike C.object C.rename u.arrangement v.arrangement

/-- **Both worlds have gone on alike**: they correspond, and the same text has
been written if hashes are shown alike. -/
structure Steps (C : Correspondence) (u v u' v' : World) : Prop where
  worlds : C.Worlds u' v'
  size_le : u.scopes.size ≤ u'.scopes.size
  arrangement : u'.arrangement = u.arrangement ∧ v'.arrangement = v.arrangement
  output : World.WroteAlike (C.ShowsAlike u v) u v u' v'

/-- Scopes that count are told apart. -/
theorem rescope_inj {s t : ScopeId} (hs : C.scope s) (ht : C.scope t) :
    C.rescope s = C.rescope t ↔ s = t := by
  refine ⟨fun h => ?_, congrArg C.rescope⟩
  have hst : ¬ s < t := fun hlt =>
    Nat.ne_of_lt ((C.increasing hs ht).2 hlt) h
  have hts : ¬ t < s := fun hlt =>
    Nat.ne_of_gt ((C.increasing ht hs).2 hlt) h
  exact Nat.le_antisymm (Nat.not_lt.1 hts) (Nat.not_lt.1 hst)

section

variable {u v u' v' u'' v'' : World}

theorem Worlds.steps (h : C.Worlds u v) : C.Steps u v u v where
  worlds := h
  size_le := Nat.le_refl _
  arrangement := ⟨rfl, rfl⟩
  output := ⟨"", "", String.append_empty.symm, String.append_empty.symm,
    fun _ => rfl⟩

/-- What writes nothing. -/
theorem Worlds.steps_of_quiet (h : C.Worlds u' v')
    (hsize : u.scopes.size ≤ u'.scopes.size) (hu : u.Quiet u')
    (hv : v.Quiet v') : C.Steps u v u' v' where
  worlds := h
  size_le := hsize
  arrangement := ⟨hu.2, hv.2⟩
  output := ⟨"", "", by rw [hu.1, String.append_empty],
    by rw [hv.1, String.append_empty], fun _ => rfl⟩

theorem Steps.trans (h : C.Steps u v u' v') (h' : C.Steps u' v' u'' v'') :
    C.Steps u v u'' v'' where
  worlds := h'.worlds
  size_le := Nat.le_trans h.size_le h'.size_le
  arrangement := ⟨h'.arrangement.1.trans h.arrangement.1,
    h'.arrangement.2.trans h.arrangement.2⟩
  output := by
    have houtput := h'.output
    rw [ShowsAlike, h.arrangement.1, h.arrangement.2] at houtput
    exact h.output.trans houtput

/-- The next scope is the same in both runs. -/
theorem Worlds.rescope_size (h : C.Worlds u v) :
    C.rescope u.scopes.size = v.scopes.size :=
  h.size 0

theorem Worlds.scope_size (h : C.Worlds u v) : C.scope u.scopes.size :=
  h.new _ (Nat.le_refl _)

/-- A scope that counts has been made in both runs or in none. -/
theorem Worlds.rescope_lt_size_iff (h : C.Worlds u v) {s : ScopeId}
    (hs : C.scope s) : C.rescope s < v.scopes.size ↔ s < u.scopes.size := by
  rw [← h.rescope_size]
  exact C.increasing hs h.scope_size

/-- The next object is the same in both runs. -/
theorem Worlds.addObject (h : C.Worlds u v) :
    C.Worlds u.addObject.1 v.addObject.1 where
  size := h.size
  new := h.new
  outer := h.outer
  closed := h.closed
  bindings := h.bindings
  covers := h.covers
  next j := by
    show C.rename (u.nextObject + 1 + j) = v.nextObject + 1 + j
    rw [Nat.add_assoc, Nat.add_assoc]
    exact h.next (1 + j)
  fresh j := by
    show C.object (u.nextObject + 1 + j)
    rw [Nat.add_assoc]
    exact h.fresh (1 + j)

/-- What has been written does not matter. -/
theorem Worlds.reword (h : C.Worlds u v) (text text' : String) :
    C.Worlds (u.reword text) (v.reword text') :=
  ⟨h.size, h.new, h.outer, h.closed, h.bindings, h.covers, h.next, h.fresh⟩

/-- **Writing a value** that is covered: the text is the same if hashes are
shown alike. -/
theorem Worlds.writeValue (h : C.Worlds u v) {n : Nat} {x : Value}
    (hx : C.Covers n x) :
    C.Steps u v (u.writeValue x) (v.writeValue (C.relabel x)) where
  worlds := h.reword _ _
  size_le := Nat.le_refl _
  arrangement := ⟨rfl, rfl⟩
  output := by
    refine ⟨_, _, rfl, rfl, fun hshown => ?_⟩
    have hnames (i : ObjectId) (hi : x.Names i) : C.object i := by
      obtain ⟨y, hy, hi⟩ := hi
      exact (hx y hy).object i hi
    rw [x.render_relabel C.rescope (hshown.mono hnames)]

/-- **Binding a name** to the same value. -/
theorem Worlds.set (h : C.Worlds u v) {s : ScopeId} (hs : C.scope s)
    (name : String) {x y : Value} (hxy : C.Values u.scopes.size x y) :
    C.Worlds (u.set s name x) (v.set (C.rescope s) name y) := by
  by_cases hlt : s < u.scopes.size
  · have hlt' : C.rescope s < v.scopes.size := (h.rescope_lt_size_iff hs).2 hlt
    exact {
      size := fun j => by
        rw [World.size_scopes_set, World.size_scopes_set, h.size]
      new := fun t ht => h.new t (World.size_scopes_set u s name x ▸ ht)
      outer := fun ht => by rw [World.outer?_set, World.outer?_set, h.outer ht]
      closed := fun ht ho => h.closed ht (World.outer?_set u s _ name x ▸ ho)
      bindings := fun {t other} ht hother => by
        simp only [u.getLocal?_set hlt, v.getLocal?_set hlt',
          rescope_inj ht hs]
        split
        · rw [hxy.1]
          rfl
        · exact h.bindings ht hother
      covers := fun {t other z} ht hother hz => by
        rw [World.size_scopes_set]
        rw [u.getLocal?_set hlt] at hz
        split at hz
        · rw [← Option.some.inj hz]
          exact hxy.2
        · exact h.covers ht hother hz
      next := h.next
      fresh := h.fresh }
  · have hge : v.scopes.size ≤ C.rescope s :=
      Nat.not_lt.1 (hlt ∘ (h.rescope_lt_size_iff hs).1)
    rw [World.set_of_size_le (Nat.not_lt.1 hlt), World.set_of_size_le hge]
    exact h

theorem size_bindParams (w : World) (s : ScopeId) (params : List String)
    (xs : List Value) :
    (Monkey.bindParams w s params xs).scopes.size = w.scopes.size := by
  induction params generalizing w xs with
  | nil => rfl
  | cons p ps ih =>
    cases xs with
    | nil => rfl
    | cons x xs => exact (ih (w.set s p x) xs).trans (w.size_scopes_set s p x)

theorem quiet_bindParams (w : World) (s : ScopeId) (params : List String)
    (xs : List Value) : w.Quiet (Monkey.bindParams w s params xs) := by
  induction params generalizing w xs with
  | nil => exact ⟨rfl, rfl⟩
  | cons p ps ih =>
    cases xs with
    | nil => exact ⟨rfl, rfl⟩
    | cons x xs => exact ih (w.set s p x) xs

theorem Worlds.bindParams (h : C.Worlds u v) {s : ScopeId} (hs : C.scope s)
    (params : List String) {xs ys : List Value}
    (hxs : C.Lists u.scopes.size xs ys) :
    C.Worlds (bindParams u s params xs)
      (bindParams v (C.rescope s) params ys) := by
  obtain ⟨rfl, hcovers⟩ := hxs
  induction params generalizing u v xs with
  | nil => exact h
  | cons p ps ih =>
    cases xs with
    | nil => exact h
    | cons x xs =>
      rw [List.forall_mem_cons] at hcovers
      refine ih (h.set hs p ⟨rfl, hcovers.1⟩) ?_
      rw [World.size_scopes_set]
      exact hcovers.2

/-- **Making a scope** around which a scope lies that code may run in. -/
theorem Worlds.addScope (h : C.Worlds u v) {o : ScopeId}
    (ho : C.Available u.scopes.size o) :
    C.Worlds (u.addScope (some o)).1
      (v.addScope (some (C.rescope o))).1 where
  size j := by
    rw [World.size_addScope, World.size_addScope, Nat.add_assoc, Nat.add_assoc]
    exact h.size (1 + j)
  new s hs := by
    rw [World.size_addScope] at hs
    exact h.new s (Nat.le_of_succ_le hs)
  outer {s} hs := by
    simp only [World.outer?_addScope, ← h.rescope_size,
      rescope_inj hs h.scope_size]
    split
    · rfl
    · exact h.outer hs
  closed {s t} hs ht := by
    rw [World.outer?_addScope] at ht
    split at ht
    · rename_i hnew
      rw [← Option.some.inj ht, hnew]
      exact ho
    · exact h.closed hs ht
  bindings hs hx := by
    rw [World.getLocal?_addScope, World.getLocal?_addScope, h.bindings hs hx]
  covers hs hx hy := by
    rw [World.getLocal?_addScope] at hy
    rw [World.size_addScope]
    exact (h.covers hs hx hy).mono (Nat.le_succ _)
  next := h.next
  fresh := h.fresh

/-! ### What a name means -/

theorem Worlds.chain (h : C.Worlds u v) {s : ScopeId} (hs : C.scope s) :
    v.chain (C.rescope s) = (u.chain s).map C.rescope := by
  induction s using Nat.strongRecOn with
  | ind s ih =>
    rw [World.chain, World.chain, h.outer hs, List.map_cons]
    cases ho : u.outer? s with
    | none => rfl
    | some o =>
      have hscope := (h.closed hs ho).1
      simp only [Option.map_some, C.increasing hscope hs]
      split
      · rename_i hlt
        rw [ih o hlt hscope]
      · rfl

/-- The chain of a scope that counts has only scopes that count. -/
theorem Worlds.scope_of_mem_chain (h : C.Worlds u v) {s t : ScopeId}
    (hs : C.scope s) (ht : t ∈ u.chain s) : C.scope t := by
  induction s using Nat.strongRecOn with
  | ind s ih =>
    rw [World.chain] at ht
    obtain rfl | ht := List.mem_cons.1 ht
    · exact hs
    · split at ht
      · rename_i o ho
        split at ht
        · rename_i hlt
          exact ih o hlt (h.closed hs ho).1 ht
        · cases ht
      · cases ht

/-- **What a name means is the same**, if the name and the scope count. -/
theorem Worlds.get? (h : C.Worlds u v) {s : ScopeId} (hs : C.scope s)
    {name : String} (hname : C.name name) :
    C.Options u.scopes.size (u.get? s name)
      (v.get? (C.rescope s) name) := by
  unfold World.get?
  rw [h.chain hs]
  have hchain : ∀ t ∈ u.chain s, C.scope t :=
    fun t ht => h.scope_of_mem_chain hs ht
  generalize u.chain s = ts at hchain
  induction ts with
  | nil => exact ⟨rfl, by simp⟩
  | cons t ts ih =>
    rw [List.forall_mem_cons] at hchain
    rw [List.map_cons, List.findSome?_cons, List.findSome?_cons,
      h.bindings hchain.1 hname]
    cases hx : u.getLocal? t name with
    | none => exact ih hchain.2
    | some x =>
      refine ⟨rfl, ?_⟩
      rintro y ⟨⟩
      exact h.covers hchain.1 hname hx

end

end Correspondence

end Monkey
