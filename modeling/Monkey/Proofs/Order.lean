import Monkey.Proofs.Comparison
import Monkey.Proofs.Tables

/-!
# Hashes are tables

The entries of a hash are a list, and nothing in the type of values says that
its keys ascend, or that no key stands twice. It is so for every hash that a
program comes across: a hash is made by entering pairs into the empty table,
and entering keeps the keys ascending. A value is *orderly* if this is so for
all hashes that it holds.

For evaluations the claim is an invariant of the world, namely that all that is
bound is orderly. `Eval.Keeps` says of an evaluation that it keeps an invariant
and what it ends with; that each operation keeps this one is said once, and
from there it goes to expressions, to calls of any depth, to all moments of an
evaluation (`Moment.Visits.orderly`), and to all that runs of an embedding
program come to (`Reached.orderly`).
-/

namespace Monkey

open Eval History

/-! ## Orderly values -/

/-- **The value is orderly**: the keys of each hash that it holds ascend. -/
def Value.Orderly (v : Value) : Prop :=
  ∀ id es, v.Holds (.hash id es) → Table.Ascending es

/-- **The world is orderly**: what is bound is. -/
def World.Orderly (w : World) : Prop :=
  ∀ s x v, w.getLocal? s x = some v → v.Orderly

namespace Value

/-- A value holds itself, and what its parts hold. -/
theorem holds_iff {v t : Value} :
    v.Holds t ↔ v = t ∨ ∃ u ∈ v.parts, u.Holds t := by
  constructor
  · intro h
    cases h with
    | self => exact .inl rfl
    | element hmem h => exact .inr ⟨_, hmem, h⟩
    | key hmem h =>
      exact .inr ⟨_, List.mem_flatMap.2 ⟨_, hmem, List.mem_cons_self⟩, h⟩
    | entry hmem h =>
      exact .inr ⟨_, List.mem_flatMap.2 ⟨_, hmem,
        List.mem_cons_of_mem _ List.mem_cons_self⟩, h⟩
  · rintro (rfl | ⟨u, hu, h⟩)
    · exact .self
    · cases v with
      | array id vs => exact .element hu h
      | hash id es =>
        obtain ⟨⟨k, key, value⟩, hmem, hu⟩ := List.mem_flatMap.1 hu
        obtain rfl | hu := List.mem_cons.1 hu
        · exact .key hmem h
        · obtain rfl := List.mem_singleton.1 hu
          exact .entry hmem h
      | _ => cases hu

/-- A value is orderly if its own keys ascend and its parts are orderly. -/
theorem orderly_iff {v : Value} : v.Orderly ↔
    (∀ id es, v = .hash id es → Table.Ascending es)
      ∧ ∀ u ∈ v.parts, u.Orderly := by
  constructor
  · intro hv
    refine ⟨fun id es h => hv id es (holds_iff.2 (.inl h)), ?_⟩
    exact fun u hu id es h => hv id es (holds_iff.2 (.inr ⟨u, hu, h⟩))
  · rintro ⟨hself, hparts⟩ id es h
    obtain h | ⟨u, hu, h⟩ := holds_iff.1 h
    · exact hself id es h
    · exact hparts u hu id es h

theorem Holds.trans {v u t : Value} (h : v.Holds u) (h' : u.Holds t) :
    v.Holds t := by
  induction h with
  | self => exact h'
  | element hmem _ ih => exact .element hmem (ih h')
  | key hmem _ ih => exact .key hmem (ih h')
  | entry hmem _ ih => exact .entry hmem (ih h')

/-- What an orderly value holds is orderly. -/
theorem Orderly.holds {v u : Value} (hv : v.Orderly) (h : v.Holds u) :
    u.Orderly :=
  fun id es hu => hv id es (h.trans hu)

/-- A value without parts is orderly. -/
theorem orderly_of_parts_eq_nil {v : Value} (h : v.parts = []) :
    v.Orderly := by
  refine orderly_iff.2 ⟨?_, fun u hu => by rw [h] at hu; cases hu⟩
  rintro id es rfl
  cases es with
  | nil => exact .nil
  | cons e es => cases h

end Value

namespace World

variable {w : World}

theorem Orderly.set (hw : w.Orderly) {v : Value} (hv : v.Orderly) (s : ScopeId)
    (x : String) : (w.set s x v).Orderly := by
  intro t y u hu
  by_cases hs : s < w.scopes.size
  · rw [getLocal?_set _ hs] at hu
    split at hu
    · rw [← Option.some.inj hu]
      exact hv
    · exact hw t y u hu
  · rw [set_of_size_le (Nat.not_lt.1 hs)] at hu
    exact hw t y u hu

theorem Orderly.addScope (hw : w.Orderly) (outer : Option ScopeId) :
    (w.addScope outer).1.Orderly := by
  intro s x v hv
  rw [getLocal?_addScope] at hv
  exact hw s x v hv

theorem Orderly.bindParams (hw : w.Orderly) (s : ScopeId) (params : List String)
    {args : List Value} (hargs : ∀ v ∈ args, v.Orderly) :
    (bindParams w s params args).Orderly := by
  induction params generalizing w args with
  | nil => exact hw
  | cons p params ih =>
    cases args with
    | nil => exact hw
    | cons v args =>
      obtain ⟨hv, hargs⟩ := List.forall_mem_cons.1 hargs
      exact ih (hw.set hv s p) hargs

theorem Orderly.writeValues (hw : w.Orderly) (vs : List Value) :
    (w.writeValues vs).Orderly := by
  induction vs generalizing w with
  | nil => exact hw
  | cons v vs ih => exact ih (w := w.writeValue v) hw

/-- What a name means is orderly. -/
theorem Orderly.get? (hw : w.Orderly) {s : ScopeId} {x : String} {v : Value}
    (h : w.get? s x = some v) : v.Orderly := by
  obtain ⟨t, -, ht⟩ := List.exists_of_findSome?_eq_some h
  exact hw t x v ht

end World

/-! ## Operations -/

/-- What is returned is orderly. -/
def Interrupt.Orderly : Interrupt → Prop
  | .returned v => v.Orderly
  | .failed _ => True

/-- **The operation keeps order**, and its results are as `P` says. -/
abbrev Operation.Tidy {α : Type} (P : α → Prop) (x : Operation α) : Prop :=
  Eval.Keeps World.Orderly (fun _ => True) P x

/-- **The evaluation keeps order**, and its results are as `P` says. -/
abbrev Evaluation.Tidy {α : Type} (P : α → Prop) (x : Evaluation α) : Prop :=
  Eval.Keeps World.Orderly Interrupt.Orderly P x

theorem Operation.Tidy.lift {α : Type} {P : α → Prop} {x : Operation α}
    (h : Operation.Tidy P x) : Evaluation.Tidy P x.lift :=
  h.mapError fun _ _ => trivial

theorem Evaluation.Tidy.catchReturn {x : Evaluation Value}
    (h : Evaluation.Tidy Value.Orderly x) :
    Operation.Tidy Value.Orderly x.catchReturn := by
  intro w hw
  have hsat := h w hw
  unfold Eval.run Evaluation.catchReturn at *
  generalize x w = o at hsat
  cases hsat with
  | done hv hw' => exact .done hv hw'
  | @failed i _ hi hw' =>
    cases i with
    | returned v => exact .done hi hw'
    | failed e => exact .failed trivial hw'
  | exhausted => exact .exhausted

section

variable {ε : Type} {E : ε → Prop}

/-- **Making an object** of orderly parts. -/
theorem keeps_make {object : ObjectId → Value} (h : ∀ i, (object i).Orderly) :
    (make object : Eval ε Value).Keeps World.Orderly E Value.Orderly :=
  keeps_step fun _ hw => ⟨h _, hw⟩

theorem keeps_newInt (value : Int64) :
    (newInt value : Eval ε Value).Keeps World.Orderly E Value.Orderly :=
  keeps_make fun _ => Value.orderly_of_parts_eq_nil rfl

theorem keeps_newStr (text : String) :
    (newStr text : Eval ε Value).Keeps World.Orderly E Value.Orderly :=
  keeps_make fun _ => Value.orderly_of_parts_eq_nil rfl

theorem keeps_newArray {elements : List Value} (h : ∀ v ∈ elements, v.Orderly) :
    (newArray elements : Eval ε Value).Keeps World.Orderly E Value.Orderly :=
  keeps_make fun _ => Value.orderly_iff.2 ⟨by rintro id es ⟨⟩, h⟩

/-- **A hash is made of a table.** -/
theorem keeps_newHash {entries : Table HashKey (Value × Value)}
    (hkeys : entries.Ascending) (h : ∀ v ∈ Table.contents entries, v.Orderly) :
    (newHash entries : Eval ε Value).Keeps World.Orderly E Value.Orderly := by
  refine keeps_make fun i => Value.orderly_iff.2 ⟨?_, h⟩
  rintro id es ⟨⟩
  exact hkeys

/-- Truth values and null have no parts. -/
theorem keeps_truth (b : Bool) :
    (done (.truth b) : Eval ε Value).Keeps World.Orderly E Value.Orderly :=
  keeps_done (Value.orderly_of_parts_eq_nil rfl)

theorem keeps_nothing :
    (done .nothing : Eval ε Value).Keeps World.Orderly E Value.Orderly :=
  keeps_done (Value.orderly_of_parts_eq_nil rfl)

end

theorem Value.tidy_asKey (v : Value) :
    Operation.Tidy (fun _ => True) v.asKey := by
  unfold Value.asKey
  split
  · exact keeps_done trivial
  · exact keeps_fail trivial

theorem tidy_exactly (e : EvalError) (value : Option Int64) :
    Operation.Tidy Value.Orderly (exactly e value) := by
  cases value with
  | some value => exact keeps_newInt value
  | none => exact keeps_fail trivial

theorem UnaryOp.tidy_apply (op : UnaryOp) (v : Value) :
    Operation.Tidy Value.Orderly (op.apply v) := by
  unfold UnaryOp.apply
  split
  · exact keeps_truth _
  · exact tidy_exactly _ _
  · exact keeps_fail trivial

theorem BinaryOp.tidy_apply (op : BinaryOp) (v w : Value) :
    Operation.Tidy Value.Orderly (op.apply v w) := by
  unfold BinaryOp.apply
  split
  · cases op with
    | plus | minus | multiply => exact tidy_exactly _ _
    | divide =>
      unfold BinaryOp.onInts
      dsimp only
      split
      · exact keeps_fail trivial
      · exact tidy_exactly _ _
    | lessThan | greaterThan | equal | notEqual => exact keeps_truth _
  · cases op with
    | plus => exact keeps_newStr _
    | _ => exact keeps_fail trivial
  · cases op with
    | equal | notEqual => exact keeps_truth _
    | _ =>
      unfold BinaryOp.onObjects
      dsimp only
      split <;> exact keeps_fail trivial

/-- **An index** gives a part of an orderly value, or null. -/
theorem Value.tidy_at {v : Value} (hv : v.Orderly) (w : Value) :
    Operation.Tidy Value.Orderly (v.at w) := by
  obtain ⟨-, hparts⟩ := Value.orderly_iff.1 hv
  unfold Value.at
  split
  · rename_i id elements i position
    cases hget : elementAt? elements position with
    | none => exact keeps_nothing
    | some u =>
      exact keeps_done (hparts u (Correspondence.mem_of_elementAt? hget))
  · refine w.tidy_asKey.bind fun key _ => ?_
    split
    · rename_i object value hget
      refine keeps_done (hparts value ?_)
      exact List.mem_flatMap.2 ⟨_, Table.mem_of_get? hget,
        List.mem_cons_of_mem _ List.mem_cons_self⟩
    · exact keeps_nothing
  · exact keeps_fail trivial

theorem Builtin.tidy_elementsOf (b : Builtin) {v : Value} (hv : v.Orderly) :
    Operation.Tidy (fun vs => ∀ u ∈ vs, u.Orderly) (b.elementsOf v) := by
  unfold Builtin.elementsOf
  split
  · exact keeps_done (Value.orderly_iff.1 hv).2
  · exact keeps_fail trivial

/-- **Builtins** give parts of their arguments, null, and arrays of such parts.
-/
theorem Builtin.tidy_apply (b : Builtin) {args : List Value}
    (hargs : ∀ v ∈ args, v.Orderly) :
    Operation.Tidy Value.Orderly (b.apply args) := by
  unfold Builtin.apply
  split
  · unfold Builtin.lengthOf
    split
    · exact keeps_newInt _
    · exact keeps_newInt _
    · exact keeps_fail trivial
  · refine (first.tidy_elementsOf (hargs _ List.mem_cons_self)).bind
      fun elements hall => ?_
    cases elements with
    | nil => exact keeps_nothing
    | cons u us => exact keeps_done (hall u List.mem_cons_self)
  · refine (last.tidy_elementsOf (hargs _ List.mem_cons_self)).bind
      fun elements hall => ?_
    cases hlast : elements.getLast? with
    | none => exact keeps_nothing
    | some u => exact keeps_done (hall u (List.mem_of_getLast? hlast))
  · refine (rest.tidy_elementsOf (hargs _ List.mem_cons_self)).bind
      fun elements hall => ?_
    split
    · exact keeps_nothing
    · exact keeps_newArray (List.forall_mem_cons.1 hall).2
  · rename_i v element
    obtain ⟨hv, hargs⟩ := List.forall_mem_cons.1 hargs
    refine (push.tidy_elementsOf hv).bind fun elements hall => ?_
    exact keeps_newArray (List.forall_mem_append.2 ⟨hall, hargs⟩)
  · have hupdate : Operation.Tidy (fun _ => True)
        (Eval.update (·.writeValues args)) :=
      fun w hw => .done trivial (hw.writeValues args)
    exact hupdate.bind fun _ _ => keeps_nothing
  · exact keeps_fail trivial
  · exact keeps_fail trivial

theorem tidy_lookup (scope : ScopeId) (x : String) :
    Operation.Tidy Value.Orderly (lookup scope x) := by
  unfold lookup
  have hask : Operation.Tidy (fun o => ∀ v, o = some v → v.Orderly)
      (Eval.ask (·.get? scope x)) := keeps_ask fun w hw v hv => hw.get? hv
  refine hask.bind fun o ho => ?_
  split
  · exact keeps_done (ho _ rfl)
  · split
    · exact keeps_make fun _ => Value.orderly_of_parts_eq_nil rfl
    · exact keeps_fail trivial

/-! ## Expressions and statements -/

/-- **What order requires** of an evaluation, wherever it is. -/
def World.tidiness : Conduct where
  node _ := True
  Values := Value.Orderly
  Tables t := Table.Ascending t ∧ ∀ v ∈ Table.contents t, v.Orderly
  Evals := Evaluation.Tidy

/-- Entering a pair of orderly objects. -/
theorem Table.orderly_contents_insert {t : Table HashKey (Value × Value)}
    (ht : ∀ v ∈ contents t, v.Orderly) {key value : Value} (hkey : key.Orderly)
    (hvalue : value.Orderly) (k : HashKey) :
    ∀ v ∈ contents (Table.insert k (key, value) t), v.Orderly := by
  intro v hv
  obtain ⟨e, he, hv⟩ := List.mem_flatMap.1 hv
  obtain rfl | he := Table.eq_or_mem_of_mem_insert he
  · obtain rfl | hv := List.mem_cons.1 hv
    · exact hkey
    · rw [List.mem_singleton.1 hv]
      exact hvalue
  · exact ht v (List.mem_flatMap.2 ⟨e, he, hv⟩)

section

variable {call : Closure → List Value → Operation Value}
  (hcall : ∀ f args, (∀ v ∈ args, v.Orderly) →
    Operation.Tidy Value.Orderly (call f args))

include hcall

theorem Value.tidy_callWith (f : Value) {args : List Value}
    (hargs : ∀ v ∈ args, v.Orderly) :
    Operation.Tidy Value.Orderly (f.callWith call args) := by
  cases f with
  | fn id c => exact hcall c args hargs
  | builtin id b => exact b.tidy_apply hargs
  | _ => exact keeps_fail trivial

/-- **Order is kept** by whatever is evaluated, if calls keep it. -/
theorem World.tidiness_holds (s : ScopeId) : World.tidiness.Holds call s where
  operands _ _ _ := trivial
  done h := keeps_done h
  bind hx hf := Eval.Keeps.bind hx hf
  truth _ := Value.orderly_of_parts_eq_nil rfl
  nothing := Value.orderly_of_parts_eq_nil rfl
  tables_nil := ⟨.nil, by rintro v ⟨⟩⟩
  tables_insert key ht hk hv :=
    ⟨ht.1.insert key _, Table.orderly_contents_insert ht.2 hk hv key⟩
  lookup _ := (tidy_lookup s _).lift
  int value := keeps_newInt value
  str text := keeps_newStr text
  fn _ := keeps_make fun _ => Value.orderly_of_parts_eq_nil rfl
  array hvs := keeps_newArray hvs
  hash ht := keeps_newHash ht.1 ht.2
  unary op _ := (op.tidy_apply _).lift
  binary op _ _ := (op.tidy_apply _ _).lift
  key _ := (Value.tidy_asKey _).lift
  index hv _ := (Value.tidy_at hv _).lift
  call _ hvs := (Value.tidy_callWith hcall _ hvs).lift
  set _ hv := fun _ hw => .done trivial (hw.set hv s _)
  ret hv := keeps_fail hv

end

/-! ## Calls -/

theorem Closure.tidy_enter (f : Closure) {args : List Value}
    (hargs : ∀ v ∈ args, v.Orderly) :
    Operation.Tidy (fun _ => True) (f.enter args) :=
  keeps_step fun _ hw =>
    ⟨trivial, (hw.addScope (some f.scope)).bindParams _ f.params hargs⟩

/-- A block keeps order if calls do. -/
theorem tidy_evalStmts {call : Closure → List Value → Operation Value}
    (hcall : ∀ f args, (∀ v ∈ args, v.Orderly) →
      Operation.Tidy Value.Orderly (call f args)) (s : ScopeId)
    (ss : List Stmt) :
    Evaluation.Tidy Value.Orderly (evalStmts call s .nothing ss) :=
  (World.tidiness_holds hcall s).evalStmts
    (Value.orderly_of_parts_eq_nil rfl) fun _ _ => trivial

/-- **Calling a function keeps order**, however deeply calls are nested. -/
theorem Closure.tidy_call (d : Nat) (f : Closure) (args : List Value)
    (hargs : ∀ v ∈ args, v.Orderly) :
    Operation.Tidy Value.Orderly (Closure.call d f args) := by
  induction d generalizing f args with
  | zero => exact keeps_exhaust
  | succ d ih =>
    rw [Closure.call, Closure.enterAndRun]
    split
    · refine (f.tidy_enter hargs).bind fun scope _ => ?_
      exact (tidy_evalStmts ih scope f.body).catchReturn
    · exact keeps_fail trivial

/-! ## In every evaluation -/

namespace Moment

variable {m p : Moment}

/-- **The moment is orderly**: what is bound and what is given is. -/
structure Orderly (m : Moment) : Prop where
  world : m.world.Orderly
  inputs : ∀ v ∈ m.job.inputs, v.Orderly

/-- **The parts of an orderly evaluation are orderly.** -/
theorem Part.orderly (hpart : m.Part p) (hm : m.Orderly) : p.Orderly := by
  obtain ⟨hworld, hinputs⟩ := hm
  have hexpr {d s e w v w'} (hw : World.Orderly w)
      (hrun : (Expr.eval (Closure.call d) s e).run w = .done v w') :=
    ((World.tidiness_holds (Closure.tidy_call d) s).expr trivial).of_done hrun
      hw
  cases hpart with
  | elements | entries | operand | left | condition | callee | collection
  | first | key | statement | bound | returned | alone =>
    exact ⟨hworld, by rintro v ⟨⟩⟩
  | right hrun | arguments hrun | position hrun | others hrun
  | value hrun _ =>
    exact ⟨(hexpr hworld hrun).2, by rintro v ⟨⟩⟩
  | consequence hrun _ | alternative hrun _ =>
    refine ⟨(hexpr hworld hrun).2, List.forall_mem_singleton.2 ?_⟩
    exact Value.orderly_of_parts_eq_nil rfl
  | called hrun hrun' =>
    obtain ⟨hf, hw⟩ := hexpr hworld hrun
    obtain ⟨hvs, hw'⟩ := ((World.tidiness_holds (Closure.tidy_call _)
      _).evalExprs fun _ _ => trivial).of_done hrun' hw
    exact ⟨hw', List.forall_mem_cons.2 ⟨hf, hvs⟩⟩
  | furtherPairs hrun _ hrun' =>
    obtain ⟨hkey, hw⟩ := hexpr hworld hrun
    obtain ⟨hvalue, hw'⟩ := hexpr hw hrun'
    exact ⟨hw', Table.orderly_contents_insert hinputs hkey hvalue _⟩
  | furtherStmts hrun =>
    obtain ⟨hv, hw⟩ := ((World.tidiness_holds (Closure.tidy_call _)
      _).stmt trivial).of_done hrun hworld
    exact ⟨hw, List.forall_mem_singleton.2 hv⟩
  | body _ henter =>
    obtain ⟨-, hargs⟩ := List.forall_mem_cons.1 hinputs
    refine ⟨((Closure.tidy_enter _ hargs).of_done henter hworld).2, ?_⟩
    exact List.forall_mem_singleton.2 (Value.orderly_of_parts_eq_nil rfl)

/-- **All moments of an orderly evaluation are orderly.** -/
theorem Visits.orderly (hvisits : m.Visits p) (hm : m.Orderly) : p.Orderly := by
  induction hvisits with
  | refl => exact hm
  | tail _ hpart ih => exact hpart.orderly ih

/-- What shows at an orderly moment is orderly. -/
theorem Shows.orderly {v : Value} (hshows : m.Shows v) (hm : m.Orderly) :
    v.Orderly := by
  cases hshows with
  | bound hbound => exact hm.world _ _ v hbound
  | given hgiven => exact hm.inputs v hgiven
  | result hcomes =>
    cases hcomes with
    | expr hrun =>
      exact (((World.tidiness_holds (Closure.tidy_call _) _).expr
        trivial).of_done hrun hm.world).1
    | call hrun =>
      obtain ⟨-, hargs⟩ := List.forall_mem_cons.1 hm.inputs
      exact ((Value.tidy_callWith (Closure.tidy_call _) _ hargs).of_done hrun
        hm.world).1

/-- **All values that an orderly evaluation meets are orderly**, if those are
that there have been before. -/
theorem Meets.orderly {h : History} (hvalues : ∀ v ∈ h.values, v.Orderly)
    (hm : m.Orderly) {v : Value} (hv : m.Meets h v) : v.Orderly := by
  obtain ⟨u, hu | ⟨p, hvisits, hshows⟩, hholds⟩ := hv
  · exact (hvalues u hu).holds hholds
  · exact (hshows.orderly (hvisits.orderly hm)).holds hholds

/-- What an evaluation meets has been, if it has been at the end. -/
theorem Meets.mem {h k : History} (hclosed : k.Closed)
    (hvalues : h.values ⊆ k.values) (hbrings : ∀ v, m.Brings v → v ∈ k.values)
    {v : Value} (hv : m.Meets h v) : v ∈ k.values := by
  obtain ⟨u, hu, hholds⟩ := hv
  exact hclosed.holds (hu.elim (fun hu => hvalues hu) (hbrings u)) hholds

end Moment

/-! ## In every run -/

/-- **A run has come to the world, with the values at hand.** An embedding
program makes scopes, binds names, reads and clears what is written, makes
objects of the values at hand, and evaluates programs. What a program brings
can then be at hand. A hash is made of a table, and truth values and null are
not made. -/
inductive Reached : World → List Value → Prop where
  | start {a : Arrangement} : Reached (World.empty a) Value.shared
  | scope {w kept outer} : Reached w kept → Reached (w.addScope outer).1 kept
  | bind {w kept s x v} : Reached w kept → v ∈ kept →
      Reached (w.set s x v) kept
  | output {w kept text} : Reached w kept →
      Reached (w.reword text) kept
  | make {w kept} {v : Value} : Reached w kept →
      v.type ∉ ValueType.shared → v.identity = .object w.nextObject →
      v.parts ⊆ kept →
      (∀ id es, v = .hash id es → Table.Ascending es) →
      Reached w.addObject.1 (v :: kept)
  | evaluate {w kept kept' w'} {program : Program} {depth : Nat}
      {scope : ScopeId} : Reached w kept →
      ((program.eval depth scope).run w).world? = some w' →
      (∀ v ∈ kept', (Moment.mk (.stmts .nothing program.statements) depth scope
        w).Meets ⟨w, kept⟩ v) →
      Reached w' kept'

namespace Reached

variable {w : World} {kept : List Value}

/-- **What is at hand has been**, in a history that leads to the world. -/
theorem exists_history (hreached : Reached w kept) :
    ∃ a h, Steps (History.start a) h ∧ h.world = w ∧ kept ⊆ h.values := by
  induction hreached with
  | @start a => exact ⟨a, History.start a, .refl, rfl, List.Subset.refl _⟩
  | scope _ ih =>
    obtain ⟨a, h, hsteps, rfl, hkept⟩ := ih
    exact ⟨a, _, hsteps.tail .scope, rfl, hkept⟩
  | bind _ hv ih =>
    obtain ⟨a, h, hsteps, rfl, hkept⟩ := ih
    exact ⟨a, _, hsteps.tail (.bind (hkept hv)), rfl, hkept⟩
  | output _ ih =>
    obtain ⟨a, h, hsteps, rfl, hkept⟩ := ih
    exact ⟨a, _, hsteps.tail .output, rfl, hkept⟩
  | make _ htype hid hparts _ ih =>
    obtain ⟨a, h, hsteps, rfl, hkept⟩ := ih
    exact ⟨a, _, hsteps.tail (.make htype hid (List.Subset.trans hparts hkept)),
      rfl, List.cons_subset_cons _ hkept⟩
  | @evaluate w kept kept' w' program depth scope _ hrun hmeets ih =>
    obtain ⟨a, h, hsteps, rfl, hkept⟩ := ih
    obtain ⟨h', hsteps', hbrings, hends⟩ :=
      program.exists_history depth scope (hsteps.closed closed_start)
    have hall : Steps (History.start a) h' := hsteps.trans hsteps'
    refine ⟨a, h', hall, ?_, fun v hv => ?_⟩
    · generalize (program.eval depth scope).run h.world = o at hrun hends
      cases hends <;> cases hrun <;> rfl
    · refine (hmeets v hv).mem (hall.closed closed_start) ?_ hbrings
      exact List.Subset.trans hkept hsteps'.values_subset

/-- **What is at hand is orderly**, and so is what is bound. -/
theorem orderly (hreached : Reached w kept) :
    w.Orderly ∧ ∀ v ∈ kept, v.Orderly := by
  induction hreached with
  | start =>
    refine ⟨fun s x v hv => ?_, fun v hv => ?_⟩
    · rw [World.getLocal?_of_size_le (Nat.zero_le s)] at hv
      cases hv
    · simp only [Value.shared, List.mem_cons, List.not_mem_nil, or_false] at hv
      obtain rfl | rfl | rfl := hv <;>
        exact Value.orderly_of_parts_eq_nil rfl
  | scope _ ih => exact ⟨ih.1.addScope _, ih.2⟩
  | bind _ hv ih => exact ⟨ih.1.set (ih.2 _ hv) _ _, ih.2⟩
  | output _ ih => exact ih
  | make _ _ _ hparts hkeys ih =>
    refine ⟨ih.1, List.forall_mem_cons.2 ⟨?_, ih.2⟩⟩
    exact Value.orderly_iff.2 ⟨hkeys, fun u hu => ih.2 u (hparts hu)⟩
  | @evaluate w kept kept' w' program depth scope _ hrun hmeets ih =>
    have hnothing : Value.nothing.Orderly := Value.orderly_of_parts_eq_nil rfl
    have hprogram : Operation.Tidy Value.Orderly (program.eval depth scope) :=
      (tidy_evalStmts (Closure.tidy_call depth) scope
        program.statements).catchReturn
    have hm : (Moment.mk (.stmts .nothing program.statements) depth scope
      w).Orderly := ⟨ih.1, List.forall_mem_singleton.2 hnothing⟩
    exact ⟨hprogram.of_world? hrun ih.1,
      fun v hv => (hmeets v hv).orderly ih.2 hm⟩

end Reached

end Monkey
