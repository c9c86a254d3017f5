import Monkey.Proofs.Congruence
import Monkey.Proofs.Correspondence

/-!
# Corresponding runs end alike

From worlds that correspond, the same evaluation ends alike: both runs are done
with the same result, or fail with the same error, or have no answer; they write
the same text if hashes are shown alike, and the worlds in which they end
correspond again (`Correspondence.Outcomes`). This is shown of the steps of an
evaluation one by one, and it is kept when evaluations are put after each other.

Values are the same relative to the number of scopes that have been made, since
functions hold scopes. So what holds of a result holds where the evaluation has
ended, and stays true as more scopes are made.
-/

namespace Monkey

open Eval

namespace Correspondence

variable {C : Correspondence}

/-! ## Evaluations -/

/-- **The runs end alike**: both with a result, both with a failure or both
without an answer. The results are related by `Q` and the failures by `E`, as
many scopes as there are then having been made. -/
inductive Outcomes (C : Correspondence) {ε α : Type} (E : Nat → ε → ε → Prop)
    (Q : Nat → α → α → Prop) (u v : World) :
    Outcome ε α → Outcome ε α → Prop where
  | done {a b : α} {u' v' : World} :
      Q u'.scopes.size a b → C.Steps u v u' v' →
      Outcomes C E Q u v (.done a u') (.done b v')
  | failed {e f : ε} {u' v' : World} :
      E u'.scopes.size e f → C.Steps u v u' v' →
      Outcomes C E Q u v (.failed e u') (.failed f v')
  | exhausted : Outcomes C E Q u v .exhausted .exhausted

/-- **The evaluations go together** once `n` scopes have been made: from worlds
that correspond, they end alike. -/
def Together (C : Correspondence) (n : Nat) {ε α : Type}
    (E : Nat → ε → ε → Prop) (Q : Nat → α → α → Prop) (x y : Eval ε α) : Prop :=
  ∀ u v, n ≤ u.scopes.size → C.Worlds u v →
    C.Outcomes E Q u v (x.run u) (y.run v)

section

variable {n : Nat} {ε ε' α β : Type} {E : Nat → ε → ε → Prop}
  {F : Nat → ε' → ε' → Prop} {P : Nat → α → α → Prop} {Q : Nat → β → β → Prop}

theorem together_done {a b : α} (h : ∀ m, n ≤ m → P m a b) :
    C.Together n E P (.done a) (.done b) :=
  fun _ _ hn hw => .done (h _ hn) hw.steps

theorem together_fail {e f : ε} (h : ∀ m, n ≤ m → E m e f) :
    C.Together n E P (.fail e) (.fail f) :=
  fun _ _ hn hw => .failed (h _ hn) hw.steps

theorem together_exhaust : C.Together n E P .exhaust .exhaust :=
  fun _ _ _ _ => .exhausted

/-- Asking the worlds a question that has the same answer. -/
theorem together_ask {f g : World → α}
    (h : ∀ u v, C.Worlds u v → P u.scopes.size (f u) (g v)) :
    C.Together n E P (.ask f) (.ask g) :=
  fun u v _ hw => .done (h u v hw) hw.steps

theorem together_update {f g : World → World}
    (h : ∀ u v, n ≤ u.scopes.size → C.Worlds u v → C.Steps u v (f u) (g v)) :
    C.Together n E (fun _ => Eq) (.update f) (.update g) :=
  fun u v hn hw => .done rfl (h u v hn hw)

/-- **An object that is made** is the same if it is so for every identity. -/
theorem together_make {object object' : ObjectId → α}
    (h : ∀ m, n ≤ m → ∀ i, C.object i →
      P m (object i) (object' (C.rename i))) :
    C.Together n E P (.make object) (.make object') := by
  intro u v hn hw
  have hnext : C.rename u.nextObject = v.nextObject := hw.next 0
  refine .done ?_ (hw.addObject.steps_of_quiet (Nat.le_refl _) ⟨rfl, rfl⟩
    ⟨rfl, rfl⟩)
  show P u.scopes.size (object u.nextObject) (object' v.nextObject)
  rw [← hnext]
  exact h _ hn _ (hw.fresh 0)

/-- **Evaluations put after each other go together** as their parts do. The
second may rely on the scopes that the first has made. -/
theorem Together.bind {x y : Eval ε α} {f g : α → Eval ε β}
    (h : C.Together n E P x y)
    (hfg : ∀ m, n ≤ m → ∀ a b, P m a b → C.Together m E Q (f a) (g b)) :
    C.Together n E Q (x >>= f) (y >>= g) := by
  intro u v hn hw
  have hxy := h u v hn hw
  generalize hx : x.run u = ox at hxy
  generalize hy : y.run v = oy at hxy
  cases hxy with
  | @done a b u' v' hab hsteps =>
    rw [run_bind_of_done hx, run_bind_of_done hy]
    have hrest := hfg u'.scopes.size (Nat.le_trans hn hsteps.size_le) a b hab
      u' v' (Nat.le_refl _) hsteps.worlds
    generalize (f a).run u' = of at hrest
    generalize (g b).run v' = og at hrest
    cases hrest with
    | done hQ hsteps' => exact .done hQ (hsteps.trans hsteps')
    | failed hE hsteps' => exact .failed hE (hsteps.trans hsteps')
    | exhausted => exact .exhausted
  | failed hE hsteps =>
    rw [run_bind_of_failed hx, run_bind_of_failed hy]
    exact .failed hE hsteps
  | exhausted =>
    rw [run_bind_of_exhausted hx, run_bind_of_exhausted hy]
    exact .exhausted

theorem Together.mapError {x y : Eval ε α} (h : C.Together n E P x y)
    {f : ε → ε'} (hf : ∀ m e e', E m e e' → F m (f e) (f e')) :
    C.Together n F P (x.mapError f) (y.mapError f) := by
  intro u v hn hw
  have hxy := h u v hn hw
  unfold Eval.run Eval.mapError at *
  generalize x u = ox at hxy
  generalize y v = oy at hxy
  cases hxy with
  | done hP hsteps => exact .done hP hsteps
  | failed hE hsteps => exact .failed (hf _ _ _ hE) hsteps
  | exhausted => exact .exhausted

end

/-! ## Errors -/

/-- **The error is the same in the second run**, and a name that is complained
of is one that the code asks for and that no builtin has. -/
def Errors (C : Correspondence) (_ : Nat) (e e' : EvalError) : Prop :=
  e' = e ∧ ∀ x, e = .unboundName x →
    C.code.node (.expr (.ident x)) ∧ Builtin.ofName? x = none

/-- **The operations go together**, in what they yield and how they fail. -/
abbrev Agree (C : Correspondence) (n : Nat) (x y : Operation Value) : Prop :=
  C.Together n C.Errors C.Values x y

/-- An error that complains of no name. -/
theorem together_error {n : Nat} {α : Type} {P : Nat → α → α → Prop}
    {e : EvalError} (h : ∀ x, e ≠ .unboundName x) :
    C.Together n C.Errors P (.fail e) (.fail e) :=
  together_fail fun _ _ => ⟨rfl, fun x hx => absurd hx (h x)⟩

/-- A value that is the same already. -/
theorem Values.together {n : Nat} {ε : Type} {E : Nat → ε → ε → Prop}
    {v w : Value} (h : C.Values n v w) :
    C.Together n E C.Values (.done v) (.done w) :=
  together_done fun _ hm => h.mono hm

/-! ## Operations -/

section

variable {n : Nat} {ε : Type} {E : Nat → ε → ε → Prop}

theorem together_newInt (k : Int64) :
    C.Together n E C.Values (.newInt k) (.newInt k) :=
  together_make fun _ _ _ hi =>
    ⟨rfl, covers_atom rfl (by rintro _ ⟨⟩; exact hi)⟩

theorem together_newStr (text : String) :
    C.Together n E C.Values (.newStr text) (.newStr text) :=
  together_make fun _ _ _ hi =>
    ⟨rfl, covers_atom rfl (by rintro _ ⟨⟩; exact hi)⟩

theorem together_newArray {vs ws : List Value} (h : C.Lists n vs ws) :
    C.Together n E C.Values (.newArray vs) (.newArray ws) := by
  refine together_make fun m hm i hi => ?_
  obtain ⟨rfl, hcovers⟩ := h.mono hm
  refine ⟨?_, covers_array_iff.2 ⟨hi, hcovers⟩⟩
  rw [relabel, Value.relabel, relabelValues_eq_map]

theorem together_newHash {es fs : Table HashKey (Value × Value)}
    (h : C.Tables n es fs) :
    C.Together n E C.Values (.newHash es) (.newHash fs) := by
  refine together_make fun m hm i hi => ?_
  obtain ⟨rfl, hcovers⟩ := h.mono hm
  refine ⟨?_, covers_hash_iff.2 ⟨hi, hcovers⟩⟩
  rw [relabel, Value.relabel, relabelEntries_eq_map]

end

section

variable {n : Nat}

theorem together_exactly {e : EvalError} (h : ∀ x, e ≠ .unboundName x)
    (value : Option Int64) :
    C.Agree n (exactly e value) (exactly e value) := by
  cases value with
  | some k => exact together_newInt k
  | none => exact together_error h

theorem Values.together_asKey {v v' : Value} (hv : C.Values n v v') :
    C.Together n C.Errors (fun _ => Eq) v.asKey v'.asKey := by
  obtain ⟨rfl, -⟩ := hv
  unfold Value.asKey
  rw [Value.key?_relabel, Value.type_relabel]
  split
  · exact together_done fun _ _ => rfl
  · exact together_error nofun

theorem Values.together_unary {v v' : Value} (hv : C.Values n v v')
    (op : UnaryOp) : C.Agree n (op.apply v) (op.apply v') := by
  obtain ⟨rfl, -⟩ := hv
  cases op with
  | bang =>
    rw [UnaryOp.apply, UnaryOp.apply, Value.truthy_relabel]
    exact (values_truth _).together
  | minus =>
    cases v with
    | int id k => exact together_exactly (by rintro _ ⟨⟩) _
    | _ => exact together_error nofun

theorem Values.together_onObjects {v v' w w' : Value} (hv : C.Values n v v')
    (hw : C.Values n w w') (op : BinaryOp) :
    C.Agree n (op.onObjects v w) (op.onObjects v' w') := by
  have hidentical := hv.identical hw
  obtain ⟨rfl, -⟩ := hv
  obtain ⟨rfl, -⟩ := hw
  cases op with
  | equal | notEqual =>
    unfold BinaryOp.onObjects
    dsimp only
    rw [hidentical]
    exact (values_truth _).together
  | _ =>
    unfold BinaryOp.onObjects
    dsimp only
    rw [Value.type_relabel, Value.type_relabel]
    split <;> exact together_error nofun

theorem together_onInts (op : BinaryOp) (a b : Int64) :
    C.Agree n (op.onInts a b) (op.onInts a b) := by
  cases op with
  | plus | minus | multiply => exact together_exactly (by rintro _ ⟨⟩) _
  | divide =>
    unfold BinaryOp.onInts
    dsimp only
    split
    · exact together_error nofun
    · exact together_exactly (by rintro _ ⟨⟩) _
  | lessThan | greaterThan | equal | notEqual =>
    exact (values_truth _).together

theorem together_onStrs (op : BinaryOp) (a b : String) :
    C.Agree n (op.onStrs a b) (op.onStrs a b) := by
  cases op with
  | plus => exact together_newStr _
  | _ => exact together_error nofun

/-- **Operators go together.** -/
theorem Values.together_binary {v v' w w' : Value} (hv : C.Values n v v')
    (hw : C.Values n w w') (op : BinaryOp) :
    C.Agree n (op.apply v w) (op.apply v' w') := by
  have hobjects := hv.together_onObjects hw op
  obtain ⟨rfl, -⟩ := hv
  obtain ⟨rfl, -⟩ := hw
  cases v with
  | int id a =>
    cases w with
    | int id' b => exact together_onInts op a b
    | _ => exact hobjects
  | str id a =>
    cases w with
    | str id' b => exact together_onStrs op a b
    | _ => exact hobjects
  | _ => exact hobjects

/-- An element of a list that is the same, or null where there is none. -/
theorem values_getD {vs : List Value} (hvs : ∀ v ∈ vs, C.Covers n v)
    {o : Option Value} (ho : ∀ v ∈ o, v ∈ vs) :
    C.Values n (o.getD .nothing) ((o.map C.relabel).getD .nothing) := by
  cases o with
  | none => exact values_nothing
  | some v => exact ⟨rfl, hvs v (ho v rfl)⟩

end

theorem elementAt?_map (f : Value → Value) (vs : List Value) (k : Int64) :
    elementAt? (vs.map f) k = (elementAt? vs k).map f := by
  unfold elementAt?
  split
  · rfl
  · exact List.getElem?_map

theorem mem_of_elementAt? {vs : List Value} {k : Int64} {v : Value}
    (h : v ∈ elementAt? vs k) : v ∈ vs := by
  unfold elementAt? at h
  split at h
  · cases h
  · exact List.mem_of_getElem? h

section

variable {n : Nat}

/-- **Indices go together.** -/
theorem Values.together_at {v v' w w' : Value} (hv : C.Values n v v')
    (hw : C.Values n w w') : C.Agree n (v.at w) (v'.at w') := by
  obtain ⟨rfl, hcovers⟩ := hv
  cases v with
  | array id vs =>
    obtain ⟨rfl, -⟩ := hw
    cases w with
    | int id' k =>
      show C.Agree n _ (.done
        ((elementAt? (relabelValues C.rename C.rescope vs) k).getD .nothing))
      rw [relabelValues_eq_map, elementAt?_map]
      exact (values_getD (covers_array_iff.1 hcovers).2
        fun v hv => mem_of_elementAt? hv).together
    | _ => exact together_error nofun
  | hash id es =>
    refine hw.together_asKey.bind fun m hm => ?_
    rintro key _ rfl
    rw [relabelEntries_eq_map, Table.get?_map]
    cases hget : Table.get? key es with
    | none => exact values_nothing.together
    | some e =>
      have he := (covers_hash_iff.1 hcovers).2 _ (Table.mem_of_get? hget)
      exact Values.together ⟨rfl, he.2.mono hm⟩
  | _ => exact together_error nofun

/-! ### Builtins -/

theorem Values.together_elementsOf {v v' : Value} (hv : C.Values n v v')
    (b : Builtin) :
    C.Together n C.Errors C.Lists (b.elementsOf v) (b.elementsOf v') := by
  obtain ⟨rfl, hcovers⟩ := hv
  cases v with
  | array id vs =>
    refine together_done fun m hm => Lists.mono hm ⟨?_, ?_⟩
    · exact relabelValues_eq_map C.rename C.rescope vs
    · exact (covers_array_iff.1 hcovers).2
  | _ => exact together_error nofun

theorem Values.together_lengthOf {v v' : Value} (hv : C.Values n v v') :
    C.Agree n (Builtin.lengthOf v) (Builtin.lengthOf v') := by
  obtain ⟨rfl, -⟩ := hv
  cases v with
  | str id text => exact together_newInt _
  | array id vs =>
    have hlength :
        (relabelValues C.rename C.rescope vs).length = vs.length := by
      rw [relabelValues_eq_map, List.length_map]
    show C.Agree n _
      (.newInt (.ofNat (relabelValues C.rename C.rescope vs).length))
    rw [hlength]
    exact together_newInt _
  | _ => exact together_error nofun

/-- **Writing values** that are covered. -/
theorem Worlds.writeValues {u v : World} (h : C.Worlds u v) {vs : List Value}
    (hvs : ∀ x ∈ vs, C.Covers n x) :
    C.Steps u v (u.writeValues vs) (v.writeValues (vs.map C.relabel)) := by
  induction vs generalizing u v with
  | nil => exact h.steps
  | cons x xs ih =>
    obtain ⟨hx, hxs⟩ := List.forall_mem_cons.1 hvs
    have hline := h.writeValue hx
    exact hline.trans (ih hline.worlds hxs)

/-- The wrong number of arguments is the same in both runs. -/
theorem together_argumentCount (vs : List Value) (want : Nat) :
    C.Agree n (.fail (EvalError.builtinArgumentCount vs.length want))
      (.fail (EvalError.builtinArgumentCount
        (vs.map C.relabel).length want)) := by
  rw [List.length_map]
  exact together_error nofun

/-- **Builtins go together.** -/
theorem Lists.together_builtin {vs ws : List Value} (h : C.Lists n vs ws)
    (b : Builtin) : C.Agree n (b.apply vs) (b.apply ws) := by
  obtain ⟨rfl, hcovers⟩ := h
  have hvalue {v : Value} (hv : v ∈ vs) : C.Values n v (C.relabel v) :=
    ⟨rfl, hcovers v hv⟩
  cases b with
  | puts =>
    refine (together_update fun u v _ hw => hw.writeValues hcovers).bind ?_
    rintro m - _ _ -
    exact values_nothing.together
  | len =>
    match vs with
    | [v] => exact (hvalue List.mem_cons_self).together_lengthOf
    | [] | _ :: _ :: _ => exact together_argumentCount _ 1
  | first =>
    match vs with
    | [v] =>
      refine ((hvalue List.mem_cons_self).together_elementsOf .first).bind ?_
      rintro m - xs _ ⟨rfl, hxs⟩
      rw [List.head?_map]
      exact (values_getD hxs fun x hx => List.mem_of_head? hx).together
    | [] | _ :: _ :: _ => exact together_argumentCount _ 1
  | last =>
    match vs with
    | [v] =>
      refine ((hvalue List.mem_cons_self).together_elementsOf .last).bind ?_
      rintro m - xs _ ⟨rfl, hxs⟩
      rw [List.getLast?_map]
      exact (values_getD hxs fun x hx => List.mem_of_getLast? hx).together
    | [] | _ :: _ :: _ => exact together_argumentCount _ 1
  | rest =>
    match vs with
    | [v] =>
      refine ((hvalue List.mem_cons_self).together_elementsOf .rest).bind ?_
      rintro m - xs _ ⟨rfl, hxs⟩
      cases xs with
      | nil => exact values_nothing.together
      | cons x xs =>
        exact together_newArray ⟨rfl, (List.forall_mem_cons.1 hxs).2⟩
    | [] | _ :: _ :: _ => exact together_argumentCount _ 1
  | push =>
    match vs with
    | [v, e] =>
      refine ((hvalue List.mem_cons_self).together_elementsOf .push).bind ?_
      rintro m hm xs _ ⟨rfl, hxs⟩
      refine together_newArray ⟨?_, ?_⟩
      · rw [List.map_append]
        rfl
      · intro x hx
        obtain hx | hx := List.mem_append.1 hx
        · exact hxs x hx
        · rw [List.mem_singleton.1 hx]
          exact (hcovers e (List.mem_cons_of_mem v List.mem_cons_self)).mono hm
    | [] | [_] | _ :: _ :: _ :: _ => exact together_argumentCount _ 2

end

/-! ## Evaluation -/

/-- What ends the evaluation of a statement early is the same. -/
inductive Interrupts (C : Correspondence) (n : Nat) :
    Interrupt → Interrupt → Prop where
  | returned {v w : Value} :
      C.Values n v w → Interrupts C n (.returned v) (.returned w)
  | failed {e e' : EvalError} :
      C.Errors n e e' → Interrupts C n (.failed e) (.failed e')

theorem Together.lift {n : Nat} {α : Type} {P : Nat → α → α → Prop}
    {x y : Operation α} (h : C.Together n C.Errors P x y) :
    C.Together n C.Interrupts P x.lift y.lift :=
  h.mapError fun _ _ _ he => .failed he

/-- A `return` is caught in both runs. -/
theorem Together.catchReturn {n : Nat} {x y : Evaluation Value}
    (h : C.Together n C.Interrupts C.Values x y) :
    C.Agree n x.catchReturn y.catchReturn := by
  intro u v hn hw
  have hxy := h u v hn hw
  unfold Eval.run Evaluation.catchReturn at *
  generalize x u = ox at hxy
  generalize y v = oy at hxy
  cases hxy with
  | done hP hsteps => exact .done hP hsteps
  | failed hE hsteps =>
    cases hE with
    | returned hvalues => exact .done hvalues hsteps
    | failed herrors => exact .failed herrors hsteps
  | exhausted => exact .exhausted

/-- **What a name means goes together**, if the code asks for it. -/
theorem together_lookup {n : Nat} {scope : ScopeId} (hscope : C.scope scope)
    {name : String} (hname : C.code.node (.expr (.ident name))) :
    C.Agree n (lookup scope name) (lookup (C.rescope scope) name) := by
  have hcounts : C.name name := C.names hname (List.mem_singleton_self name)
  have hask : C.Together (ε := EvalError) n C.Errors C.Options
      (.ask (·.get? scope name)) (.ask (·.get? (C.rescope scope) name)) :=
    together_ask fun u v hw => hw.get? hscope hcounts
  refine hask.bind fun m hm => ?_
  rintro o _ ⟨rfl, hcovers⟩
  cases o with
  | some x => exact Values.together ⟨rfl, hcovers x rfl⟩
  | none =>
    dsimp only [Option.map_none]
    cases hbuiltin : Builtin.ofName? name with
    | some b =>
      exact together_make fun _ _ _ hi =>
        ⟨rfl, covers_atom rfl (by rintro _ ⟨⟩; exact hi)⟩
    | none =>
      refine together_fail fun _ _ => ⟨rfl, ?_⟩
      rintro _ ⟨⟩
      exact ⟨hname, hbuiltin⟩

/-- **Going together, as a comparison of evaluations** in a scope and the one
that it is in the second run. A stage is the number of scopes that have been
made. -/
def congruence (C : Correspondence) (scope : ScopeId) : Congruence where
  Stage := Nat
  Leads := (· ≤ ·)
  node := C.code.node
  Values := C.Values
  Lists := C.Lists
  Tables := C.Tables
  Evals n P x y := C.Available n scope → C.Together n C.Interrupts P x y

section

variable {call : Closure → List Value → Operation Value}
  (hcall : ∀ n f vs ws, C.Callable n f → C.Lists n vs ws →
    C.Agree n (call f vs) (call (f.relabel C.rescope) ws))

include hcall

/-- Calls of values go together as calls of functions do. -/
theorem Values.together_callWith {n : Nat} {f f' : Value}
    (hf : C.Values n f f') {vs ws : List Value} (h : C.Lists n vs ws) :
    C.Agree n (f.callWith call vs) (f'.callWith call ws) := by
  obtain ⟨rfl, hcovers⟩ := hf
  cases f with
  | fn id closure => exact hcall n closure vs ws (covers_fn_iff.1 hcovers).2 h
  | builtin id b => exact h.together_builtin b
  | _ => exact together_error nofun

/-- **Operations go together**, in a scope that code may run in. -/
theorem congruence_holds (scope : ScopeId) :
    (C.congruence scope).Holds call call scope (C.rescope scope) where
  operands := Code.operands
  values_mono hm hv := hv.mono hm
  lists_mono hm hvs := hvs.mono hm
  tables_mono hm ht := ht.mono hm
  done hP _ := together_done hP
  bind hx hf hscope := (hx hscope).bind fun m hm a b hab =>
    hf m a b hm hab (hscope.mono hm)
  truth := values_truth
  nothing := values_nothing
  truthy hv := by rw [hv.1, Value.truthy_relabel]
  lists_nil := lists_nil
  lists_cons hv hvs := hv.cons hvs
  tables_nil := tables_nil
  tables_insert key ht hk hv := ht.insert hk hv key
  lookup hname hscope := (together_lookup hscope.1 hname).lift
  int value _ := together_newInt value
  str text _ := together_newStr text
  fn hnode hscope := together_make fun m hm i hi =>
    ⟨rfl, covers_fn_iff.2 ⟨hi, hscope.mono hm, hnode⟩⟩
  array hvs _ := together_newArray hvs
  hash ht _ := together_newHash ht
  unary op hv _ := (hv.together_unary op).lift
  binary op hv hw _ := (hv.together_binary hw op).lift
  key hv _ := hv.together_asKey.lift
  index hv hw _ := (hv.together_at hw).lift
  call hf hvs _ := (hf.together_callWith hcall hvs).lift
  set {n v w name e} _ hv hscope u u' hn hw := .done trivial
    ((hw.set hscope.1 name (hv.mono hn)).steps_of_quiet
      (Nat.le_of_eq (u.size_scopes_set scope name v).symm) ⟨rfl, rfl⟩
      ⟨rfl, rfl⟩)
  ret hv _ := together_fail fun _ hm => .returned (hv.mono hm)

/-- **Statements go together** if they are code, in a scope that code may run
in. -/
theorem together_evalStmts {n : Nat} {ss : List Stmt}
    (hss : ∀ s ∈ ss, C.code.node (.stmt s)) {scope : ScopeId}
    (hscope : C.Available n scope) :
    C.Together n C.Interrupts C.Values (evalStmts call scope .nothing ss)
      (evalStmts call (C.rescope scope) .nothing ss) :=
  (congruence_holds hcall scope).evalStmts
    (fun s hs => (congruence_holds hcall scope).at_node (hss s hs))
    values_nothing hscope

end

/-- The scope of a call is new, so code may run in it. -/
theorem together_enter {n : Nat} {f : Closure} (hf : C.Callable n f)
    {vs ws : List Value} (h : C.Lists n vs ws) :
    C.Together n C.Errors (fun m s t => t = C.rescope s ∧ C.Available m s)
      (f.enter vs) ((f.relabel C.rescope).enter ws) := by
  intro u v hn hw
  have hlt : u.scopes.size < (bindParams (u.addScope (some f.scope)).1
      u.scopes.size f.params vs).scopes.size := by
    rw [size_bindParams, World.size_addScope]
    exact Nat.lt_succ_self _
  have hlists : C.Lists (u.addScope (some f.scope)).1.scopes.size vs ws := by
    rw [World.size_addScope]
    exact h.mono (Nat.le_succ_of_le hn)
  have hworlds := (hw.addScope (hf.1.mono hn)).bindParams hw.scope_size
    f.params hlists
  have hrun : ((f.relabel C.rescope).enter ws).run v
      = .done (C.rescope u.scopes.size)
        (bindParams (v.addScope (some (C.rescope f.scope))).1
          (C.rescope u.scopes.size) f.params ws) := by
    rw [hw.rescope_size]
    rfl
  rw [hrun]
  exact .done ⟨rfl, hw.scope_size, fun _ => hlt⟩
    (hworlds.steps_of_quiet (Nat.le_of_lt hlt) (quiet_bindParams _ _ _ _)
      (quiet_bindParams _ _ _ _))

/-- **Calls of a function go together** if the calls in its body do. -/
theorem together_enterAndRun
    {call : Closure → List Value → Operation Value}
    (hcall : ∀ n f vs ws, C.Callable n f → C.Lists n vs ws →
      C.Agree n (call f vs) (call (f.relabel C.rescope) ws))
    {n : Nat} {f : Closure} (hf : C.Callable n f) {vs ws : List Value}
    (h : C.Lists n vs ws) :
    C.Agree n (f.enterAndRun call vs)
      ((f.relabel C.rescope).enterAndRun call ws) := by
  have hlength : ws.length = vs.length := by
    rw [h.1, List.length_map]
  unfold Closure.enterAndRun
  rw [hlength]
  show C.Agree n (if f.params.length = vs.length then _ else _)
    (if f.params.length = vs.length then _ else _)
  split
  · refine (together_enter hf h).bind fun m hm => ?_
    rintro s _ ⟨rfl, hs⟩
    exact (together_evalStmts hcall (Code.stmts_of_fn hf.2) hs).catchReturn
  · exact together_error nofun

/-- **Calls go together**, however deeply they are nested. -/
theorem together_closure_call (depth : Nat) {n : Nat} {f : Closure}
    (hf : C.Callable n f) {vs ws : List Value} (h : C.Lists n vs ws) :
    C.Agree n (f.call depth vs) ((f.relabel C.rescope).call depth ws) := by
  induction depth generalizing n f vs ws with
  | zero => exact together_exhaust
  | succ depth ih =>
    exact together_enterAndRun (fun _ _ _ _ hf h => ih hf h) hf h

theorem Values.together_call (depth : Nat) {n : Nat} {f f' : Value}
    (hf : C.Values n f f') {vs ws : List Value} (h : C.Lists n vs ws) :
    C.Agree n (f.call depth vs) (f'.call depth ws) :=
  hf.together_callWith
    (fun _ _ _ _ hf h => together_closure_call depth hf h) h

/-- **Programs go together** if they are code. -/
theorem together_program (depth : Nat) {program : Program}
    (hprogram : ∀ s ∈ program.statements, C.code.node (.stmt s)) {n : Nat}
    {scope : ScopeId} (hscope : C.Available n scope) :
    C.Agree n (program.eval depth scope)
      (program.eval depth (C.rescope scope)) :=
  (together_evalStmts (fun _ _ _ _ hf h => together_closure_call depth hf h)
    hprogram hscope).catchReturn

end Correspondence

end Monkey
