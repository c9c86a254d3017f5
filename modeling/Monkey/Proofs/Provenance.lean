import Monkey.Proofs.Confinement

/-!
# Where functions come from

Programs are evaluated one after the other in one scope, each in the world that
the ones before it have left, whether these were done or failed (`Runs`). Then
every function that there is has been written in one of the programs: its
parameters and its body are those of a function literal there. The same goes for
a name that is complained of, which one of the programs asks for.

It may have been written in an earlier program than the one that yields the
function or fails, since functions are kept in scopes and called later. It
cannot have been written in a later one.
-/

namespace Monkey

/-- **A program and what its evaluation has come to.** -/
structure Run where
  program : Program
  result : Except EvalError Value

/-- **Programs evaluated one after the other** in a scope. -/
inductive Runs (scope : ScopeId) (start : World) : List Run → World → Prop where
  | nil : Runs scope start [] start
  | done {runs : List Run} {w w' : World} {program : Program} {depth : Nat}
      {v : Value} :
      Runs scope start runs w → (program.eval depth scope).run w = .done v w' →
      Runs scope start (runs ++ [⟨program, .ok v⟩]) w'
  | failed {runs : List Run} {w w' : World} {program : Program} {depth : Nat}
      {e : EvalError} :
      Runs scope start runs w →
      (program.eval depth scope).run w = .failed e w' →
      Runs scope start (runs ++ [⟨program, .error e⟩]) w'

namespace Run

/-- **The node has been written** in one of the programs. -/
def Wrote (runs : List Run) (n : Node) : Prop :=
  ∃ run ∈ runs, n ∈ run.program.nodes

/-- **The scopes at hand** after some programs have been evaluated in a scope:
that scope, and those that the results capture. -/
def AtHand (scope : ScopeId) (runs : List Run) (s : ScopeId) : Prop :=
  s = scope ∨ ∃ run ∈ runs, ∃ v, run.result = .ok v ∧ v.Captures s

/-- The code of some programs. -/
def code (runs : List Run) : Code where
  node := Wrote runs
  closed := by
    rintro n m ⟨run, hrun, hn⟩ hm
    exact ⟨run, hrun, run.program.code.closed hn hm⟩

variable {runs : List Run}

theorem Wrote.append {n : Node} (h : Wrote runs n) (run : Run) :
    Wrote (runs ++ [run]) n := by
  obtain ⟨r, hr, hn⟩ := h
  exact ⟨r, List.mem_append_left _ hr, hn⟩

/-- The statements of the last program are written. -/
theorem stmts_code (program : Program) (result : Except EvalError Value) :
    ∀ s ∈ program.statements,
      (code (runs ++ [⟨program, result⟩])).node (.stmt s) :=
  fun s hs => ⟨_, List.mem_append_right _ (List.mem_singleton_self _),
    program.stmts_code s hs⟩

/-- After one more program, a program is where it was and has the same ones
before it, or it is the last. -/
theorem at_concat {run other : Run} {j : Nat}
    (h : (runs ++ [run])[j]? = some other) :
    (runs[j]? = some other ∧ (runs ++ [run]).take (j + 1) = runs.take (j + 1))
      ∨ (other = run ∧ (runs ++ [run]).take (j + 1) = runs ++ [run]) := by
  by_cases hj : j < runs.length
  · rw [List.getElem?_append_left hj] at h
    exact .inl ⟨h, List.take_append_of_le_length hj⟩
  · rw [List.getElem?_append_right (Nat.not_lt.1 hj)] at h
    obtain ⟨hlt, hother⟩ := List.getElem?_eq_some_iff.1 h
    refine .inr ⟨?_, List.take_of_length_le ?_⟩
    · rw [List.getElem_singleton] at hother
      exact hother.symm
    · rw [List.length_append, List.length_singleton]
      omega

end Run

/-! ## Every program keeps to what has been written -/

/-- **What is so after every program**: the scopes made since the start are
confined to what has been written, and each result and each complaint has been
written up to then. -/
structure Runs.Written (scope : ScopeId) (runs : List Run) (w : World) :
    Prop where
  confined : w.Confined (Run.code runs) scope
  scope_lt : scope < w.scopes.size
  results : ∀ {j : Nat} {program : Program} {v : Value},
    runs[j]? = some ⟨program, .ok v⟩ →
    v.MadeBy (Run.code (runs.take (j + 1))) scope w.scopes.size
  complaints : ∀ {j : Nat} {program : Program} {x : String},
    runs[j]? = some ⟨program, .error (.unboundName x)⟩ →
    Run.Wrote (runs.take (j + 1)) (.expr (.ident x))
      ∧ Builtin.ofName? x = none

section

variable {start w w' : World} {runs : List Run} {scope : ScopeId}
  {program : Program} {depth : Nat}

/-- **One more program**: what has been so stays so, and it remains to look at
what that program has come to. -/
theorem Runs.Written.concat (h : Runs.Written scope runs w) {run : Run}
    (hconfined : w'.Confined (Run.code (runs ++ [run])) scope)
    (hsize : w.scopes.size ≤ w'.scopes.size)
    (hresult : ∀ v, run.result = .ok v →
      v.MadeBy (Run.code (runs ++ [run])) scope w'.scopes.size)
    (hcomplaint : ∀ x, run.result = .error (.unboundName x) →
      Run.Wrote (runs ++ [run]) (.expr (.ident x))
        ∧ Builtin.ofName? x = none) :
    Runs.Written scope (runs ++ [run]) w' := by
  refine ⟨hconfined, Nat.lt_of_lt_of_le h.scope_lt hsize, ?_, ?_⟩
  · intro j program v hv
    obtain ⟨hv, htake⟩ | ⟨rfl, htake⟩ := Run.at_concat hv
    · rw [htake]
      exact (h.results hv).mono (fun _ => id) hsize
    · rw [htake]
      exact hresult v rfl
  · intro j program x hx
    obtain ⟨hx, htake⟩ | ⟨rfl, htake⟩ := Run.at_concat hx
    · rw [htake]
      exact h.complaints hx
    · rw [htake]
      exact hcomplaint x rfl

theorem Runs.Written.done {v : Value} (h : Runs.Written scope runs w)
    (hrun : (program.eval depth scope).run w = .done v w') :
    Runs.Written scope (runs ++ [⟨program, .ok v⟩]) w' := by
  obtain ⟨hconfined, hsize, hv⟩ :=
    (h.confined.mono fun _ hn => hn.append ⟨program, .ok v⟩).done
      (Run.stmts_code program _) (Nat.le_refl _) h.scope_lt hrun
  refine h.concat hconfined hsize ?_ ?_
  · rintro _ ⟨⟩
    exact hv
  · rintro x ⟨⟩

theorem Runs.Written.failed {e : EvalError} (h : Runs.Written scope runs w)
    (hrun : (program.eval depth scope).run w = .failed e w') :
    Runs.Written scope (runs ++ [⟨program, .error e⟩]) w' := by
  obtain ⟨hconfined, hsize, he⟩ :=
    (h.confined.mono fun _ hn => hn.append ⟨program, .error e⟩).failed
      (Run.stmts_code program _) (Nat.le_refl _) h.scope_lt hrun
  refine h.concat hconfined hsize ?_ ?_
  · rintro v ⟨⟩
  · rintro x ⟨⟩
    exact he x rfl

/-- A scope that has just been made binds nothing. -/
theorem Runs.written_nil (start : World) :
    Runs.Written start.scopes.size [] (start.addScope none).1 where
  confined := {
    base_le := by
      rw [World.size_addScope]
      exact Nat.le_succ _
    links := fun {s o} hs ho => by
      rw [World.outer?_addScope] at ho
      split at ho
      · cases ho
      · rw [World.outer?_of_size_le hs] at ho
        cases ho
    bound := fun {s x v} hs hv => by
      rw [World.getLocal?_addScope, World.getLocal?_of_size_le hs] at hv
      cases hv }
  scope_lt := by
    rw [World.size_addScope]
    exact Nat.lt_succ_self _
  results h := by cases h
  complaints h := by cases h

theorem Runs.written
    (h : Runs start.scopes.size (start.addScope none).1 runs w) :
    Runs.Written start.scopes.size runs w := by
  induction h with
  | nil => exact Runs.written_nil start
  | done _ hrun ih => exact ih.done hrun
  | failed _ hrun ih => exact ih.failed hrun

theorem Run.atHand_lt (h : Runs.Written scope runs w) {s : ScopeId}
    (hs : Run.AtHand scope runs s) : scope ≤ s ∧ s < w.scopes.size := by
  obtain rfl | ⟨⟨program, _⟩, hmem, v, rfl, id, f, hf, rfl⟩ := hs
  · exact ⟨Nat.le_refl _, h.scope_lt⟩
  · obtain ⟨j, hj⟩ := List.mem_iff_getElem?.1 hmem
    exact (h.results hj id f hf).2

end

/-- **Every function has been written.** Let programs be evaluated one after the
other in a scope that is new, some of them perhaps failing. Then every function
in a result has the parameters and the body of a function literal in that
program or an earlier one. Every function in what a scope in reach of the scope
or the results binds, and in what any scope made since then binds, has those of
a function literal in one of the programs. And a name that a program complains
of is no builtin's, and is asked for in that program or an earlier one. -/
theorem Runs.provenance {start w : World} {runs : List Run}
    (h : Runs start.scopes.size (start.addScope none).1 runs w) :
    (∀ (j : Nat) program v, runs[j]? = some ⟨program, .ok v⟩ →
      ∀ id f, v.Holds (.fn id f) →
        Run.Wrote (runs.take (j + 1)) (.expr (.fn f.params f.body)))
    ∧ (∀ s, w.Connected (Run.AtHand start.scopes.size runs) s
        ∨ start.scopes.size ≤ s →
      ∀ x v, w.getLocal? s x = some v → ∀ id f, v.Holds (.fn id f) →
        Run.Wrote runs (.expr (.fn f.params f.body)))
    ∧ (∀ (j : Nat) program x,
      runs[j]? = some ⟨program, .error (.unboundName x)⟩ →
      Run.Wrote (runs.take (j + 1)) (.expr (.ident x))
        ∧ Builtin.ofName? x = none) := by
  have hwritten := h.written
  refine ⟨?_, ?_, ?_⟩
  · intro j program v hv id f hf
    exact (hwritten.results hv id f hf).1
  · intro s hs x v hv id f hf
    have hbase : start.scopes.size ≤ s := by
      obtain hs | hs := hs
      · exact (hwritten.confined.connected
          (fun t ht => Run.atHand_lt hwritten ht) hs).1
      · exact hs
    exact (hwritten.confined.bound hbase hv id f hf).1
  · intro j program x hx
    exact hwritten.complaints hx

/-! ### A function used by later programs -/

/-- A function that asks for a name that is not bound. -/
def Run.asking : Value := .fn 0 ⟨["x"], [.expr (.ident "g")], 0⟩

/-- A function is bound, called in vain, and handed out in an array. -/
def Run.lateUse : List Run :=
  [⟨⟨[.bind "f" (.fn ["x"] [.expr (.ident "g")])]⟩, .ok .nothing⟩,
    ⟨⟨[.expr (.call (.ident "f") [.int 1])]⟩, .error (.unboundName "g")⟩,
    ⟨⟨[.expr (.array [.ident "f"])]⟩, .ok (.array 2 [Run.asking])⟩]

theorem Runs.lateUse :
    Runs 0 ((World.empty .ascending).addScope none).1 Run.lateUse
      ⟨#[⟨[("f", Run.asking)], none⟩, ⟨[("x", .int 1 1)], some 0⟩], 3, "",
        .ascending⟩ := by
  have hbind : ((Program.mk
      [.bind "f" (.fn ["x"] [.expr (.ident "g")])]).eval 1 0).run
        ((World.empty .ascending).addScope none).1
      = .done .nothing ⟨#[⟨[("f", Run.asking)], none⟩], 1, "", .ascending⟩ := rfl
  have hcall : ((Program.mk
      [.expr (.call (.ident "f") [.int 1])]).eval 1 0).run
        ⟨#[⟨[("f", Run.asking)], none⟩], 1, "", .ascending⟩
      = .failed (.unboundName "g") ⟨#[⟨[("f", Run.asking)], none⟩,
        ⟨[("x", .int 1 1)], some 0⟩], 2, "", .ascending⟩ := by cbv
  have harray : ((Program.mk [.expr (.array [.ident "f"])]).eval 1 0).run
        ⟨#[⟨[("f", Run.asking)], none⟩, ⟨[("x", .int 1 1)], some 0⟩], 2, "",
          .ascending⟩
      = .done (.array 2 [Run.asking]) ⟨#[⟨[("f", Run.asking)], none⟩,
        ⟨[("x", .int 1 1)], some 0⟩], 3, "", .ascending⟩ := by cbv
  exact ((Runs.nil.done hbind).failed hcall).done harray

/-- The name that the call complains of, and the function that is handed out,
have been written in the first of three programs. -/
theorem Runs.provenance_lateUse :
    Run.Wrote (Run.lateUse.take 2) (.expr (.ident "g"))
      ∧ Run.Wrote (Run.lateUse.take 3)
        (.expr (.fn ["x"] [.expr (.ident "g")])) := by
  obtain ⟨hresults, -, hcomplaints⟩ :=
    @Runs.provenance (World.empty .ascending) _ _ Runs.lateUse
  constructor
  · exact (hcomplaints 1 _ "g" rfl).1
  · exact hresults 2 _ (.array 2 [Run.asking]) rfl 0 _
      (.element List.mem_cons_self .self)

end Monkey
