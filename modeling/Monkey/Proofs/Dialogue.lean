import Monkey.Prompt
import Monkey.Proofs.Sequence
import Monkey.Proofs.Simulation
import Monkey.Script

/-!
# Lines at the prompt and scripts

A dialogue at the prompt goes line by line: each line is answered in the world
that the lines before it have left. The *answer* to a line says what the prompt
makes of it: the line is rejected, since it is no program; or it has no
statements; or its statements are evaluated, which writes something and ends in
one of three ways.

The lines that are programs, with semicolons between them, are a script. Running
the script does what the prompt has done with these lines, up to the first whose
evaluation ends early, by a failure or by a `return`; it shows only how that
one has ended, or the last one, if none ends early
(`Script.agrees_with_prompt`). The lines that are rejected leave no trace but
their errors.

The two runs are not in the same world: the prompt has shown results that the
script has not. So they are compared as runs that correspond, where all scopes
and all objects are in common and hashes have the same orders
(`World.Alike`).
-/

namespace Monkey

/-! ## Endings -/

/-- **How the evaluation of statements ends.** -/
inductive Ending where
  /-- Behind the last statement, with its value. -/
  | completed (v : Value)
  /-- With a `return` outside of functions. -/
  | returned (v : Value)
  /-- With a failure. -/
  | failed (e : EvalError)

namespace Ending

/-- Whether statements may have been left out. -/
def isEarly : Ending → Bool
  | completed _ => false
  | returned _ | failed _ => true

/-- How the prompt shows an ending. -/
def text (a : Arrangement) : Ending → String
  | completed v | returned v => v.render a
  | failed e => e.report

/-- The outcome of a program whose statements end so. -/
def outcome (w : World) : Ending → Outcome EvalError Value
  | completed v | returned v => .done v w
  | failed e => .failed e w

/-- **The transcript of a script** that has written something and ended so. -/
def transcript (a : Arrangement) (written : String) : Ending → Transcript
  | completed v | returned v =>
    ⟨written ++ (if Script.isShown v then v.render a ++ "\n" else ""), "",
      .ok ()⟩
  | failed e => ⟨written, "", .error (.eval e)⟩

end Ending

/-- The ending of statements and the world that they leave, if there is an
answer. -/
def Outcome.ending? : Outcome Interrupt Value → Option (Ending × World)
  | .done v w => some (.completed v, w)
  | .failed (.returned v) w => some (.returned v, w)
  | .failed (.failed e) w => some (.failed e, w)
  | .exhausted => none

/-- Where a `return` is caught, the outcome is that of the ending. -/
theorem Evaluation.run_catchReturn (x : Evaluation Value) (w : World) :
    x.catchReturn.run w
      = (x.run w).ending?.elim .exhausted fun r => r.1.outcome r.2 := by
  unfold Evaluation.catchReturn Eval.run
  beta_reduce
  cases x w with
  | done v w' => rfl
  | failed e w' =>
    cases e with
    | returned v => rfl
    | failed e => rfl
  | exhausted => rfl

/-- **Evaluations after each other**: the second decides the ending if the first
does not end early. -/
theorem Eval.ending?_bind (x : Evaluation Value) (f : Value → Evaluation Value)
    (w : World) :
    ((x >>= f).run w).ending? = (x.run w).ending?.bind fun r =>
      match r.1 with
      | .completed v => ((f v).run r.2).ending?
      | _ => some r := by
  cases hx : x.run w with
  | done v w' => exact congrArg Outcome.ending? (run_bind_of_done hx f)
  | failed e w' =>
    rw [run_bind_of_failed hx]
    cases e with
    | returned v => rfl
    | failed e => rfl
  | exhausted => exact congrArg Outcome.ending? (run_bind_of_exhausted hx f)

/-! ## Answers -/

/-- **What the prompt makes of a line.** -/
inductive Answer where
  /-- The line is no program. -/
  | rejected (errors : List ParseError)
  /-- The line has no statements. -/
  | silent
  /-- The statements of the line have written something and ended so. -/
  | evaluated (written : String) (ending : Ending)

namespace Answer

/-- Whether the line is a program. -/
def isAccepted : Answer → Bool
  | rejected _ => false
  | silent | evaluated _ _ => true

/-- How the statements of the line have ended, if it has any. -/
def ending? : Answer → Option Ending
  | evaluated _ ending => some ending
  | rejected _ | silent => none

/-- Whether the statements of the line have ended early. -/
def isEarly (a : Answer) : Bool :=
  a.ending?.any Ending.isEarly

/-- **What the line itself has written**, its result apart. -/
def written : Answer → String
  | evaluated written _ => written
  | rejected _ | silent => ""

/-- **What the prompt writes** in answer to the line. -/
def text (a : Arrangement) : Answer → String
  | rejected errors => String.join (errors.map fun e => e.report ++ "\n")
  | silent => ""
  | evaluated written ending => written ++ (ending.text a ++ "\n")

/-- How the statements of some lines have ended: as those of the last line that
has any, and as `before` if none has. -/
def lastEnding (before : Ending) (as : List Answer) : Ending :=
  as.foldl (fun ending a => a.ending?.getD ending) before

/-- **The transcript of a script** whose lines have been answered so. -/
def conclude (a : Arrangement) (as : List Answer) : Transcript :=
  (lastEnding (.completed .nothing) as).transcript a
    (String.join (as.map written))

end Answer

namespace Prompt

/-- Whether a line is a program. -/
def accepts (line : String) : Bool :=
  (Program.parse line).isOk

/-- **The answer to a line**, and the world behind it. What the line writes is
told apart from what has been written before by starting with nothing. -/
def answer (depth : Nat) (scope : ScopeId) (line : String) (w : World) :
    Option (Answer × World) :=
  match Program.parse line with
  | .error errors => some (.rejected errors, w)
  | .ok program =>
    if program.statements.isEmpty then some (.silent, w)
    else
      ((evalStmts (Closure.call depth) scope .nothing program.statements).run
        w.clearOutput).ending?.map fun r => (.evaluated r.2.output r.1, r.2)

/-- **The answers to lines**, up to the first one that `stop` asks to stop
at. -/
def answersFrom (stop : Answer → Bool) (depth : Nat) (scope : ScopeId) :
    List String → World → Option (List Answer)
  | [], _ => some []
  | line :: lines, w =>
    (answer depth scope line w).bind fun r =>
      if stop r.1 then some [r.1]
      else (answersFrom stop depth scope lines r.2).map (r.1 :: ·)

/-- The world in which a dialogue starts: there is a scope for its lines. -/
def start (a : Arrangement) : World := ((World.empty a).addScope none).1

/-- **The answers to all lines** of a dialogue. -/
def answers (a : Arrangement) (depth : Nat) (lines : List String) :
    Option (List Answer) :=
  answersFrom (fun _ => false) depth 0 lines (start a)

/-- **The answers up to the first line that ends early.** -/
def answersToEnd (a : Arrangement) (depth : Nat) (lines : List String) :
    Option (List Answer) :=
  answersFrom Answer.isEarly depth 0 lines (start a)

/-- The transcript of a dialogue with these answers. -/
def transcript (a : Arrangement) (as : List Answer) : Transcript :=
  ⟨String.join (as.map (Answer.text a)) ++ (farewell ++ "\n"), "", .ok ()⟩

end Prompt

/-! ## Worlds that differ in what has been written -/

/-- **All that two runs can have in common.** -/
def Correspondence.everything : Correspondence where
  rename := id
  rescope := id
  code := .all
  name _ := True
  scope _ := True
  object _ := True
  strict := False
  names _ _ := trivial
  injective _ _ h := h
  increasing _ _ := Iff.rfl

namespace Correspondence

theorem relabel_everything (v : Value) : everything.relabel v = v :=
  v.relabel_eq_self (fun _ _ => rfl) fun _ _ => rfl

theorem worlds_everything (w : World) : everything.Worlds w w where
  size _ := rfl
  new _ _ := trivial
  outer {s} _ := (congrFun Option.map_id (w.outer? s)).symm
  closed _ _ := ⟨trivial, False.elim⟩
  bindings {s x} _ _ := by
    rw [funext relabel_everything]
    exact (congrFun Option.map_id (w.getLocal? s x)).symm
  covers _ _ _ := covers_of_captures (fun _ => trivial) id (fun _ _ => trivial)
    fun _ _ => trivial
  next _ := rfl
  fresh _ := trivial

end Correspondence

open Correspondence (everything)

/-- **The worlds differ in what has been written**, and in nothing else that
shows. -/
structure World.Alike (a : Arrangement) (u w : World) : Prop where
  worlds : everything.Worlds u w
  arrangement : u.arrangement = a ∧ w.arrangement = a

namespace World.Alike

variable {a : Arrangement} {u w : World}

/-- What has been written does not matter. -/
theorem reword (h : u.Alike a w) (text text' : String) :
    (u.reword text).Alike a (w.reword text') :=
  ⟨h.worlds.reword text text', h.arrangement⟩

/-- **Runs that go together stay alike**, and write the same text. -/
theorem steps (h : u.Alike a w) (hw : w.output = "") {u' w' : World}
    (hsteps : everything.Steps u w u' w') :
    u'.output = u.output ++ w'.output ∧ u'.Alike a w' := by
  obtain ⟨hu, hw'⟩ := h.arrangement
  obtain ⟨text, text', hu', hw'', htext⟩ := hsteps.output
  have hshown : everything.ShowsAlike u w := by
    rw [Correspondence.ShowsAlike, hu, hw']
    exact fun _ _ _ => rfl
  refine ⟨?_, hsteps.worlds, hsteps.arrangement.1.trans hu,
    hsteps.arrangement.2.trans hw'⟩
  rw [hu', hw'', hw, htext hshown, String.empty_append]

/-- Runs that end alike have the same ending. What the first has written is
written behind what was there before. -/
theorem ending? (h : u.Alike a w) (hw : w.output = "")
    {o o' : Outcome Interrupt Value}
    (houtcomes : everything.Outcomes everything.Interrupts everything.Values u w
      o o') :
    o.ending? = none ∧ o'.ending? = none
      ∨ ∃ ending u' w', o.ending? = some (ending, u')
        ∧ o'.ending? = some (ending, w') ∧ u'.output = u.output ++ w'.output
        ∧ u'.Alike a w' := by
  cases houtcomes with
  | done hvalues hsteps =>
    rw [hvalues.1, Correspondence.relabel_everything]
    exact .inr ⟨_, _, _, rfl, rfl, h.steps hw hsteps⟩
  | failed hinterrupts hsteps =>
    cases hinterrupts with
    | returned hvalues =>
      rw [hvalues.1, Correspondence.relabel_everything]
      exact .inr ⟨_, _, _, rfl, rfl, h.steps hw hsteps⟩
    | failed herrors =>
      rw [herrors.1]
      exact .inr ⟨_, _, _, rfl, rfl, h.steps hw hsteps⟩
  | exhausted => exact .inl ⟨rfl, rfl⟩

/-- **Statements end alike** in worlds that differ in what has been written. -/
theorem ending?_evalStmts (h : u.Alike a w) (depth : Nat) (scope : ScopeId)
    (ss : List Stmt) :
    let x := evalStmts (Closure.call depth) scope .nothing ss
    (x.run u).ending? = none ∧ (x.run w.clearOutput).ending? = none
      ∨ ∃ ending u' w', (x.run u).ending? = some (ending, u')
        ∧ (x.run w.clearOutput).ending? = some (ending, w')
        ∧ u'.output = u.output ++ w'.output ∧ u'.Alike a w' := by
  have havailable : everything.Available 0 scope := ⟨trivial, False.elim⟩
  have htogether := Correspondence.together_evalStmts
    (fun _ _ _ _ hf h => Correspondence.together_closure_call depth hf h)
    (fun s (_ : s ∈ ss) => trivial) havailable
  have hclear := h.reword u.output ""
  exact hclear.ending? rfl (htogether u w.clearOutput (Nat.zero_le _)
    hclear.worlds)

end World.Alike

/-! ## One line -/

/-- The statements of a line, none if it is no program. -/
def Prompt.statements (line : String) : List Stmt :=
  match Program.parse line with
  | .ok program => program.statements
  | .error _ => []

theorem Prompt.parse_of_accepts {line : String} (h : accepts line) :
    Program.parse line = .ok ⟨statements line⟩ := by
  unfold accepts at h
  unfold statements
  cases hparse : Program.parse line with
  | ok program => rfl
  | error errors =>
    rw [hparse] at h
    cases h

theorem Prompt.error_of_not_accepts {line : String}
    (h : accepts line = false) :
    ∃ errors, Program.parse line = .error errors := by
  unfold accepts at h
  cases hparse : Program.parse line with
  | error errors => exact ⟨errors, rfl⟩
  | ok program =>
    rw [hparse] at h
    cases h

theorem Prompt.answer_of_error {line : String} {errors : List ParseError}
    (hparse : Program.parse line = .error errors) (depth : Nat)
    (scope : ScopeId) (w : World) :
    answer depth scope line w = some (.rejected errors, w) := by
  rw [answer, hparse]

theorem Prompt.answer_of_accepts {line : String} (h : accepts line)
    (depth : Nat) (scope : ScopeId) (w : World) :
    answer depth scope line w
      = if (statements line).isEmpty then some (.silent, w)
        else
          ((evalStmts (Closure.call depth) scope .nothing (statements line)).run
            w.clearOutput).ending?.map
              fun r => (.evaluated r.2.output r.1, r.2) := by
  rw [answer, parse_of_accepts h]

theorem World.writeLines_eq_write (w : World) (lines : List String) :
    w.writeLines lines = w.write (String.join (lines.map (· ++ "\n"))) := by
  induction lines generalizing w with
  | nil =>
    rw [List.map_nil, String.join_nil, World.write, String.append_empty]
    rfl
  | cons line lines ih =>
    rw [World.writeLines, List.foldl_cons, ← World.writeLines, ih,
      List.map_cons, String.join_cons]
    simp [World.writeLine, World.write, World.reword, String.append_assoc]

/-- What the prompt shows of an evaluation is its ending. -/
theorem Prompt.answerLine_of_statements {line : String} {program : Program}
    (hparse : Program.parse line = .ok program)
    (hempty : program.statements.isEmpty = false) (depth : Nat)
    (scope : ScopeId) (u : World) :
    answerLine depth {} scope line u
      = ((evalStmts (Closure.call depth) scope .nothing program.statements).run
        u).ending?.map fun r =>
          r.2.writeLine (r.1.text r.2.arrangement) := by
  rw [answerLine, hparse]
  simp only [World.showTokens, World.showProgram, hempty, Program.eval,
    Evaluation.run_catchReturn, Bool.false_eq_true, if_false]
  cases ((evalStmts (Closure.call depth) scope .nothing program.statements).run
    u).ending? with
  | none => rfl
  | some r =>
    obtain ⟨ending, w⟩ := r
    cases ending <;> rfl

/-- A line that is no program changes nothing and is only reported. -/
theorem Prompt.answerLine_of_error {line : String} {errors : List ParseError}
    (hparse : Program.parse line = .error errors) (depth : Nat)
    (scope : ScopeId) (u : World) :
    answerLine depth {} scope line u
      = some (u.write ((Answer.rejected errors).text u.arrangement)) := by
  have htext : (Answer.rejected errors).text u.arrangement
      = String.join ((errors.map ParseError.report).map (· ++ "\n")) := by
    rw [List.map_map]
    rfl
  rw [htext, ← World.writeLines_eq_write]
  unfold answerLine World.showTokens
  rw [hparse]
  rfl

/-- **The answer to a line is what the prompt does with it**: in a world that
differs in what has been written, it writes the text of the answer. -/
theorem World.Alike.answerLine {a : Arrangement} {u w : World}
    (h : u.Alike a w) (depth : Nat) (scope : ScopeId) (line : String) :
    Prompt.answerLine depth {} scope line u = none
        ∧ Prompt.answer depth scope line w = none
      ∨ ∃ u' answer w', Prompt.answerLine depth {} scope line u = some u'
        ∧ Prompt.answer depth scope line w = some (answer, w')
        ∧ u'.output = u.output ++ answer.text a ∧ u'.Alike a w' := by
  cases hline : Prompt.accepts line with
  | false =>
    obtain ⟨errors, hparse⟩ := Prompt.error_of_not_accepts hline
    rw [Prompt.answerLine_of_error hparse, Prompt.answer_of_error hparse]
    exact .inr ⟨_, _, _, rfl, rfl, rfl, h.reword _ _⟩
  | true =>
    rw [Prompt.answer_of_accepts hline]
    cases hempty : (Prompt.statements line).isEmpty with
    | true =>
      refine .inr ⟨u, .silent, w, ?_, rfl, String.append_empty.symm, h⟩
      rw [Prompt.answerLine, Prompt.parse_of_accepts hline]
      exact if_pos hempty
    | false =>
      rw [Prompt.answerLine_of_statements (Prompt.parse_of_accepts hline) hempty,
        if_neg Bool.false_ne_true]
      obtain ⟨hu, hw⟩ | ⟨ending, u', w', hu, hw, houtput, halike⟩ :=
        h.ending?_evalStmts depth scope (Prompt.statements line)
      · rw [hu, hw]
        exact .inl ⟨rfl, rfl⟩
      · rw [hu, hw]
        refine .inr ⟨_, _, _, rfl, rfl, ?_, halike.reword _ _⟩
        show u'.output ++ (ending.text u'.arrangement ++ "\n")
          = u.output ++ (w'.output ++ (ending.text a ++ "\n"))
        rw [houtput, halike.arrangement.1, String.append_assoc]

/-! ## The prompt answers -/

/-- **The prompt writes its answers**, one after the other. -/
theorem World.Alike.answerLines {a : Arrangement} {u w : World}
    (h : u.Alike a w) (depth : Nat) (scope : ScopeId) (lines : List String) :
    Prompt.answerLines depth {} scope (lines.map some) u
      = (Prompt.answersFrom (fun _ => false) depth scope lines w).map fun as =>
        ⟨u.output ++ (String.join (as.map (Answer.text a))
          ++ (Prompt.farewell ++ "\n")), "", .ok ()⟩ := by
  induction lines generalizing u w with
  | nil => simp [Prompt.answerLines, Prompt.answersFrom, World.writeLine,
      World.write, World.reword]
  | cons line lines ih =>
    rw [List.map_cons, Prompt.answerLines, Prompt.answersFrom]
    obtain ⟨hu, hw⟩ | ⟨u', answer, w', hu, hw, houtput, halike⟩ :=
      h.answerLine depth scope line
    · rw [hu, hw]
      rfl
    · rw [hu, hw, Option.bind_some, if_neg Bool.false_ne_true, Option.map_map]
      show Prompt.answerLines depth {} scope (lines.map some) u' = _
      rw [ih halike, houtput]
      simp [Function.comp_def, String.append_assoc, String.join_cons]

/-! ## Lines that are no programs -/

/-- Only lines that are no programs are rejected. -/
theorem Prompt.isAccepted_of_answer {line : String} (hline : accepts line)
    {depth : Nat} {scope : ScopeId} {w : World} {r : Answer × World}
    (h : answer depth scope line w = some r) : r.1.isAccepted := by
  rw [answer_of_accepts hline] at h
  split at h
  · cases h
    rfl
  · obtain ⟨q, -, rfl⟩ := Option.map_eq_some_iff.1 h
    rfl

/-- **Lines that are no programs** do not change the answers to the others. -/
theorem Prompt.filter_answersFrom {stop : Answer → Bool}
    (hstop : ∀ errors, stop (.rejected errors) = false) (depth : Nat)
    (scope : ScopeId) (lines : List String) (w : World) :
    (answersFrom stop depth scope lines w).map (List.filter Answer.isAccepted)
      = answersFrom stop depth scope (lines.filter accepts) w := by
  induction lines generalizing w with
  | nil => rfl
  | cons line lines ih =>
    rw [answersFrom]
    cases hline : accepts line with
    | false =>
      obtain ⟨errors, hparse⟩ := error_of_not_accepts hline
      rw [List.filter_cons_of_neg (by simp [hline]), answer_of_error hparse,
        Option.bind_some, hstop, if_neg Bool.false_ne_true, Option.map_map,
        ← ih]
      rfl
    | true =>
      rw [List.filter_cons_of_pos hline, answersFrom]
      cases hanswer : answer depth scope line w with
      | none => rfl
      | some r =>
        have haccepted := isAccepted_of_answer hline hanswer
        rw [Option.bind_some, Option.bind_some, ← ih]
        split
        · simp [haccepted]
        · simp [haccepted, Function.comp_def]

/-- Lines that are no programs have no part in how a script ends. -/
theorem Answer.lastEnding_filter (before : Ending) (as : List Answer) :
    lastEnding before (as.filter isAccepted) = lastEnding before as := by
  induction as generalizing before with
  | nil => rfl
  | cons a as ih =>
    cases a with
    | rejected errors => exact ih before
    | silent => exact ih before
    | evaluated written ending => exact ih ending

theorem Answer.conclude_filter (a : Arrangement) (as : List Answer) :
    conclude a (as.filter isAccepted) = conclude a as := by
  have hwritten : String.join ((as.filter isAccepted).map written)
      = String.join (as.map written) := by
    induction as with
    | nil => rfl
    | cons a as ih =>
      cases a with
      | rejected errors => simpa [isAccepted, written] using ih
      | silent | evaluated text ending =>
        rw [List.filter_cons_of_pos rfl, List.map_cons, List.map_cons,
          String.join_cons, String.join_cons, ih]
  rw [conclude, conclude, hwritten, lastEnding_filter]

/-! ## Scripts -/

/-- **The lines of a dialogue as a script**: its statements are those of the
lines. -/
theorem Prompt.parse_intercalate {lines : List String}
    (h : ∀ line ∈ lines, accepts line) :
    Program.parse (";\n".intercalate lines)
      = .ok ⟨lines.flatMap statements⟩ := by
  induction lines with
  | nil =>
    rw [String.intercalate_nil]
    exact Program.parse_empty
  | cons line lines ih =>
    rw [List.forall_mem_cons] at h
    have hline := parse_of_accepts h.1
    cases lines with
    | nil =>
      rw [String.intercalate_singleton, hline, List.flatMap_singleton]
    | cons next lines =>
      have htext : line ++ ";\n" ++ ";\n".intercalate (next :: lines)
          = line ++ ";" ++ ("\n" ++ ";\n".intercalate (next :: lines)) := by
        have hbreak : ";\n" = ";" ++ "\n" := rfl
        rw [hbreak, String.append_assoc, String.append_assoc,
          String.append_assoc]
      rw [String.intercalate_cons_cons, htext, List.flatMap_cons]
      exact Program.parse_semicolon hline (Program.parse_newline (ih h.2))

/-- **Running the statements of lines at once** does what the prompt does with
the lines, up to the first that ends early. -/
theorem World.Alike.run_statements {a : Arrangement} {u w : World}
    (h : u.Alike a w) (depth : Nat) (scope : ScopeId) (last : Value)
    {lines : List String} (hlines : ∀ line ∈ lines, Prompt.accepts line) :
    ((evalStmts (Closure.call depth) scope last
        (lines.flatMap Prompt.statements)).run u).ending?.map
          (fun r => r.1.transcript r.2.arrangement r.2.output)
      = (Prompt.answersFrom Answer.isEarly depth scope lines w).map fun as =>
        (Answer.lastEnding (.completed last) as).transcript a
          (u.output ++ String.join (as.map Answer.written)) := by
  induction lines generalizing u w last with
  | nil =>
    rw [List.flatMap_nil, evalStmts, Prompt.answersFrom]
    simp [Outcome.ending?, Answer.lastEnding, h.arrangement.1]
  | cons line lines ih =>
    rw [List.forall_mem_cons] at hlines
    rw [List.flatMap_cons, Prompt.answersFrom,
      Prompt.answer_of_accepts hlines.1]
    by_cases hempty : Prompt.statements line = []
    · rw [hempty, List.nil_append, ih h last hlines.2]
      simp [Answer.isEarly, Answer.ending?, Function.comp_def,
        Answer.lastEnding, Answer.written]
    · rw [evalStmts_append, evalStmts_last _ _ hempty last .nothing,
        Eval.ending?_bind]
      simp only [List.isEmpty_iff, hempty, if_false]
      obtain ⟨hu, hw⟩ | ⟨ending, u', w', hu, hw, houtput, halike⟩ :=
        h.ending?_evalStmts depth scope (Prompt.statements line)
      · rw [hu, hw]
        rfl
      · rw [hu, hw]
        cases ending with
        | completed v =>
          -- the rest of the script goes on where this line has ended
          have hrest := ih halike v hlines.2
          rw [houtput] at hrest
          simp [Answer.isEarly, Answer.ending?, Ending.isEarly, hrest,
            Function.comp_def, Answer.written, String.append_assoc,
            Answer.lastEnding]
        | returned v | failed e =>
          simp [Answer.isEarly, Answer.ending?, Ending.isEarly, houtput,
            Answer.lastEnding, Answer.written, halike.arrangement.1]

/-- A script that is a program ends as its statements do. -/
theorem Script.transcript_of_parse {source : String} {program : Program}
    (hparse : Program.parse source = .ok program) (a : Arrangement)
    (depth : Nat) :
    Script.transcript a depth {} source
      = ((evalStmts (Closure.call depth) 0 .nothing program.statements).run
        (Prompt.start a)).ending?.map
          fun r => r.1.transcript r.2.arrangement r.2.output := by
  have hstart : (World.empty a).addScope none = (Prompt.start a, 0) := rfl
  rw [Script.transcript, hstart, hparse]
  simp only [World.showTokens, World.showProgram, Program.eval,
    Evaluation.run_catchReturn, Bool.false_eq_true, if_false]
  cases ((evalStmts (Closure.call depth) 0 .nothing program.statements).run
    (Prompt.start a)).ending? with
  | none => rfl
  | some r =>
    obtain ⟨ending, w⟩ := r
    cases ending with
    | completed v | returned v =>
      cases hshown : Script.isShown v <;>
        simp [Ending.outcome, Ending.transcript, hshown, World.writeValue,
          World.writeLine, World.write, World.reword]
    | failed e => rfl

/-- **A script agrees with the prompt**, whatever the orders of hashes are. The
prompt writes its answers to the lines, one after the other. Lines that are no
programs leave the scopes and objects as they are, and the answers to the other
lines are those that are given without them. The script of the lines that are
programs, with semicolons between them, writes what the lines up to the first
that ends early have written themselves, and ends as that line or, if none ends
early, as the last line with statements; it has a transcript if and only if the
prompt has an answer to each of these lines. -/
theorem Script.agrees_with_prompt (a : Arrangement) (depth : Nat)
    (lines : List String) :
    Prompt.run a depth {} (lines.map some)
        = (Prompt.answers a depth lines).map (Prompt.transcript a)
      ∧ (∀ line ∈ lines, Prompt.accepts line = false → ∀ scope w,
        ∃ text, Prompt.answerLine depth {} scope line w = some (w.write text))
      ∧ (Prompt.answers a depth lines).map (List.filter Answer.isAccepted)
        = Prompt.answers a depth (lines.filter Prompt.accepts)
      ∧ Script.transcript a depth {}
          (";\n".intercalate (lines.filter Prompt.accepts))
        = (Prompt.answersToEnd a depth lines).map (Answer.conclude a) := by
  have hstart : (Prompt.start a).Alike a (Prompt.start a) :=
    ⟨Correspondence.worlds_everything _, rfl, rfl⟩
  have hempty : (Prompt.start a).output = "" := rfl
  refine ⟨?_, ?_, ?_, ?_⟩
  · have h := hstart.answerLines depth 0 lines
    simp only [hempty, String.empty_append] at h
    exact h
  · intro line _ hline scope w
    obtain ⟨errors, hparse⟩ := Prompt.error_of_not_accepts hline
    exact ⟨_, Prompt.answerLine_of_error hparse depth scope w⟩
  · exact Prompt.filter_answersFrom (fun _ => rfl) depth 0 lines _
  · have haccepts : ∀ line ∈ lines.filter Prompt.accepts,
        Prompt.accepts line :=
      fun line hline => (List.mem_filter.1 hline).2
    have h := hstart.run_statements depth 0 .nothing haccepts
    simp only [hempty, String.empty_append] at h
    rw [Script.transcript_of_parse (Prompt.parse_intercalate haccepts), h,
      ← Prompt.filter_answersFrom fun _ => rfl, Option.map_map]
    exact Option.map_congr fun as _ => Answer.conclude_filter a as

end Monkey
