import Monkey.Session
import Monkey.Proofs.Host

/-!
# Sessions are what hosts do

A session carries out commands that name scopes by handle and values by
description. Each command can be taken apart into things that a host can do
(`Host.Step`): building a value evaluates source texts, whose results the host
holds on to, and hands out identities for what is made of them. So whatever is
true of all hosts is true of all sessions (`Session.exists_host`), as that scope
chains are well-founded (`Session.chains_end`).

While a value is being built, the programs that are evaluated may change what is
bound anywhere. What has been built so far is not lost, since the host holds on
to it; that is why building is described relative to what the host holds
(`Host.CanDo`), and not to what is in reach.
-/

namespace Monkey

open Eval

namespace Host

/-! ## Holding on -/

/-- **The host holds on** to what it held: it has the same handles, and perhaps
more values. -/
structure Keeps (h k : Host) : Prop where
  handles : k.handles = h.handles
  values : h.values ⊆ k.values

/-- **The host has a value**: it holds the scopes that the value captures. -/
def Has (h : Host) (v : Value) : Prop :=
  ∀ s, v.Captures s → h.Holds s

variable {h k k' : Host}

theorem Keeps.refl (h : Host) : h.Keeps h :=
  ⟨rfl, List.Subset.refl _⟩

theorem Keeps.trans (hk : h.Keeps k) (hk' : k.Keeps k') : h.Keeps k' :=
  ⟨hk'.handles.trans hk.handles, List.Subset.trans hk.values hk'.values⟩

theorem Holds.mono {s : ScopeId} (hs : h.Holds s) (hk : h.Keeps k) :
    k.Holds s := by
  obtain hs | ⟨v, hv, hs⟩ := hs
  · exact .inl (hk.handles ▸ hs)
  · exact .inr ⟨v, hk.values hv, hs⟩

theorem Has.mono {v : Value} (hv : h.Has v) (hk : h.Keeps k) : k.Has v :=
  fun s hs => (hv s hs).mono hk

theorem Has.builds {v : Value} (hv : h.Has v) : h.Builds v :=
  fun s hs => .root (hv s hs)

/-- A value that holds only itself and is no function. -/
theorem has_atom {v : Value} (hatom : v.isAtom) : h.Has v := by
  rintro s ⟨id, f, hf, -⟩
  cases hf with
  | self => cases hatom
  | element | key | entry => cases hatom

theorem has_array {id : ObjectId} {vs : List Value} (hvs : ∀ v ∈ vs, h.Has v) :
    h.Has (.array id vs) := by
  rintro s ⟨id', f, hf, hs⟩
  cases hf with
  | element hv hf => exact hvs _ hv s ⟨id', f, hf, hs⟩

theorem has_hash {id : ObjectId} {es : Table HashKey (Value × Value)}
    (hes : ∀ e ∈ es, h.Has e.2.1 ∧ h.Has e.2.2) : h.Has (.hash id es) := by
  rintro s ⟨id', f, hf, hs⟩
  cases hf with
  | key he hf => exact (hes _ he).1 s ⟨id', f, hf, hs⟩
  | entry he hf => exact (hes _ he).2 s ⟨id', f, hf, hs⟩

/-! ## Evaluations -/

/-- **The outcome is in reach** of the host: it can bring about the world that
is left, holding on to what it has, and then `Q` is true of the result. -/
inductive Attains (k : Host) {ε α : Type} (Q : Host → α → Prop) :
    Outcome ε α → Prop where
  | done {k' : Host} {a : α} :
      k.Keeps k' → Steps k k' → Q k' a → Attains k Q (.done a k'.world)
  | failed {k' : Host} {e : ε} :
      k.Keeps k' → Steps k k' → Attains k Q (.failed e k'.world)
  | exhausted : Attains k Q .exhausted

/-- **The host can do what the evaluation does**, as long as it holds on to what
it has. -/
def CanDo (h : Host) {ε α : Type} (x : Eval ε α) (Q : Host → α → Prop) : Prop :=
  ∀ k, h.Keeps k → k.Attains Q (x.run k.world)

section

variable {ε ε' α β : Type} {P : Host → α → Prop} {Q : Host → β → Prop}

theorem canDo_done {a : α} (hP : ∀ k, h.Keeps k → P k a) :
    h.CanDo (ε := ε) (.done a) P :=
  fun k hk => .done (.refl k) .refl (hP k hk)

theorem canDo_fail {e : ε} : h.CanDo (.fail e) P :=
  fun k _ => .failed (.refl k) .refl

/-- An object is made with an identity that the host hands out. -/
theorem canDo_make {object : ObjectId → α}
    (hP : ∀ k, h.Keeps k → ∀ i, P k (object i)) :
    h.CanDo (ε := ε) (.make object) P := by
  intro k hk
  have hkeeps : k.Keeps ⟨k.world.addObject.1, k.handles, k.values⟩ :=
    ⟨rfl, List.Subset.refl _⟩
  exact .done hkeeps (.single .identify) (hP _ (hk.trans hkeeps) _)

theorem CanDo.bind {x : Eval ε α} {f : α → Eval ε β} (hx : h.CanDo x P)
    (hf : ∀ k, h.Keeps k → ∀ a, P k a → k.CanDo (f a) Q) :
    h.CanDo (x >>= f) Q := by
  intro k hk
  have hattains := hx k hk
  generalize hrun : x.run k.world = o at hattains
  cases hattains with
  | @done k' a hk' hsteps hP =>
    rw [run_bind_of_done hrun]
    have hrest := hf k' (hk.trans hk') a hP k' (.refl k')
    generalize (f a).run k'.world = o at hrest
    cases hrest with
    | done hk'' hsteps' hQ =>
      exact .done (hk'.trans hk'') (hsteps.trans hsteps') hQ
    | failed hk'' hsteps' =>
      exact .failed (hk'.trans hk'') (hsteps.trans hsteps')
    | exhausted => exact .exhausted
  | failed hk' hsteps =>
    rw [run_bind_of_failed hrun]
    exact .failed hk' hsteps
  | exhausted =>
    rw [run_bind_of_exhausted hrun]
    exact .exhausted

theorem CanDo.mapError {x : Eval ε α} (hx : h.CanDo x P) (f : ε → ε') :
    h.CanDo (x.mapError f) P := by
  intro k hk
  have hattains := hx k hk
  unfold Eval.run Eval.mapError at *
  generalize x k.world = o at hattains
  cases hattains with
  | done hk' hsteps hP => exact .done hk' hsteps hP
  | failed hk' hsteps => exact .failed hk' hsteps
  | exhausted => exact .exhausted

end

/-! ## Building values -/

section

variable {scope : ScopeId} (hscope : h.Holds scope) (depth : Nat)

include hscope

theorem canDo_program (program : Program) :
    h.CanDo (program.eval depth scope) Has := by
  intro k hk
  have hreaches : k.Reaches scope := .root (hscope.mono hk)
  cases hrun : (program.eval depth scope).run k.world with
  | done v w =>
    have hkeeps : k.Keeps ⟨w, k.handles, k.values ++ [v]⟩ :=
      ⟨rfl, List.subset_append_left _ _⟩
    have hhas : Has ⟨w, k.handles, k.values ++ [v]⟩ v := fun s hs =>
      .inr ⟨v, List.mem_append_right _ (List.mem_singleton_self v), hs⟩
    exact .done hkeeps (.single (.done hreaches hrun)) hhas
  | failed e w =>
    have hkeeps : k.Keeps ⟨w, k.handles, k.values⟩ :=
      ⟨rfl, List.Subset.refl _⟩
    exact .failed hkeeps (.single (.failed hreaches hrun))
  | exhausted => exact .exhausted

/-- A host can evaluate source texts. -/
theorem canDo_source (source : String) :
    h.CanDo (evalSource depth scope source) Has := by
  unfold evalSource
  split
  · rename_i program _
    exact (canDo_program hscope depth program).mapError _
  · exact canDo_fail

end

end Host

open Host

theorem Value.canDo_asKey {h : Host} (v : Value) :
    h.CanDo v.asKey fun _ _ => True := by
  unfold Value.asKey
  split
  · exact canDo_done fun _ _ => trivial
  · exact canDo_fail

section

variable {scope : ScopeId} (depth : Nat)

mutual

/-- **A host can build a value** from its description, and then has it. -/
theorem Datum.canDo_build (d : Datum) {h : Host} (hscope : h.Holds scope) :
    h.CanDo (d.build depth scope) Has := by
  match d with
  | .int _ | .str _ =>
    rw [Datum.build]
    exact canDo_make fun _ _ _ => has_atom (by rfl)
  | .bool _ | .null =>
    rw [Datum.build]
    exact canDo_done fun _ _ => has_atom (by rfl)
  | .array elements =>
    rw [Datum.build]
    refine (canDo_buildAll elements hscope).bind fun k _ vs hvs => ?_
    exact canDo_make fun k' hk' _ => has_array fun v hv => (hvs v hv).mono hk'
  | .hash pairs =>
    rw [Datum.build]
    refine (canDo_buildPairs pairs hscope (by simp)).bind fun k _ es hes => ?_
    exact canDo_make fun k' hk' _ => has_hash fun e he =>
      ⟨(hes e he).1.mono hk', (hes e he).2.mono hk'⟩
  | .builtin name =>
    rw [Datum.build]
    split
    · exact canDo_make fun _ _ _ => has_atom (by rfl)
    · exact canDo_fail
  | .source text =>
    rw [Datum.build]
    exact canDo_source hscope depth text

theorem canDo_buildAll (ds : List Datum) {h : Host} (hscope : h.Holds scope) :
    h.CanDo (buildAll depth scope ds) fun k vs => ∀ v ∈ vs, k.Has v := by
  match ds with
  | [] =>
    rw [buildAll]
    exact canDo_done fun _ _ => by simp
  | d :: ds =>
    rw [buildAll]
    refine (d.canDo_build hscope).bind fun k hk v hv => ?_
    refine (canDo_buildAll ds (hscope.mono hk)).bind fun k' hk' vs hvs => ?_
    refine canDo_done fun k'' hk'' => ?_
    exact List.forall_mem_cons.2
      ⟨hv.mono (hk'.trans hk''), fun v hv => (hvs v hv).mono hk''⟩

theorem canDo_buildPairs (ps : List (Datum × Datum)) {h : Host}
    (hscope : h.Holds scope) {es : Table HashKey (Value × Value)}
    (hes : ∀ e ∈ es, h.Has e.2.1 ∧ h.Has e.2.2) :
    h.CanDo (buildPairs depth scope es ps)
      fun k fs => ∀ e ∈ fs, k.Has e.2.1 ∧ k.Has e.2.2 := by
  match ps with
  | [] =>
    rw [buildPairs]
    exact canDo_done fun k hk e he =>
      ⟨(hes e he).1.mono hk, (hes e he).2.mono hk⟩
  | (key, value) :: ps =>
    rw [buildPairs]
    refine (key.canDo_build hscope).bind fun k hk x hx => ?_
    refine (x.canDo_asKey.mapError _).bind fun k' hk' hashKey _ => ?_
    have hkeeps := hk.trans hk'
    refine (value.canDo_build (hscope.mono hkeeps)).bind
      fun k'' hk'' y hy => ?_
    have hkeeps := hkeeps.trans hk''
    refine canDo_buildPairs ps (hscope.mono hkeeps) ?_
    intro e he
    obtain rfl | he := Table.eq_or_mem_of_mem_insert he
    · exact ⟨hx.mono (hk'.trans hk''), hy⟩
    · exact ⟨(hes e he).1.mono hkeeps, (hes e he).2.mono hkeeps⟩

end

end

/-! ## Sessions -/

/-- What a name means in a scope in reach can be built. -/
theorem Host.builds_of_get? {h : Host} {s : ScopeId} (hs : h.Reaches s)
    {name : String} {v : Value} (hv : h.world.get? s name = some v) :
    h.Builds v := by
  induction s using Nat.strongRecOn with
  | ind s ih =>
    rw [World.get?_eq] at hv
    cases hlocal : h.world.getLocal? s name with
    | some u =>
      rw [hlocal] at hv
      obtain rfl : u = v := Option.some.inj hv
      exact fun t ht => .bound hs hlocal ht
    | none =>
      rw [hlocal, Option.none_or] at hv
      obtain ⟨o, ho, hv⟩ := Option.bind_eq_some_iff.1 hv
      split at hv
      · rename_i hlt
        exact ih o hlt (.outer hs ho) hv
      · cases hv

/-- The value that a reply has. -/
def Reply.value? : Reply → Option Value
  | .evaluated v _ | .found v => some v
  | _ => none

namespace Session

/-- **The session is the host's**: it has the host's world and its handles. -/
structure IsOf (s : Session) (h : Host) : Prop where
  world : s.world = h.world
  handles : s.handles.toList = h.handles

/-- **What a host can bring about**: a session that is still the host's, and a
reply whose value it can build. -/
def Carried (h : Host) (result : Session × Reply) : Prop :=
  ∃ k, Steps h k ∧ result.1.IsOf k ∧ ∀ v, result.2.value? = some v → k.Builds v

variable {s : Session} {h : Host}

/-- A command that changes nothing, and replies with no value. -/
theorem IsOf.carried (hs : s.IsOf h) {reply : Reply}
    (hreply : reply.value? = none) : Carried h (s, reply) := by
  refine ⟨h, .refl, hs, ?_⟩
  rw [hreply]
  rintro v ⟨⟩

/-- A command on the scope of a handle. -/
theorem IsOf.onScope (hs : s.IsOf h) (handle : Nat)
    {f : ScopeId → Session × Reply}
    (hf : ∀ scope ∈ h.handles, Carried h (f scope)) :
    Carried h (s.onScope handle f) := by
  unfold Session.onScope
  split
  · rename_i scope hscope
    refine hf scope ?_
    rw [← hs.handles]
    exact Array.mem_toList_iff.2 (Array.mem_of_getElem? hscope)
  · exact hs.carried rfl

/-- A command that gives out a handle. -/
theorem IsOf.give (hs : s.IsOf h) {w : World} {scope : ScopeId}
    (hstep : Host.Step h ⟨w, h.handles ++ [scope], h.values⟩) :
    Carried h (s.give w scope) := by
  refine ⟨_, .single hstep, ⟨rfl, ?_⟩, nofun⟩
  show (s.handles.push scope).toList = _
  rw [Array.toList_push, hs.handles]

theorem IsOf.evalIn (hs : s.IsOf h) (depth : Nat) (source : String)
    {scope : ScopeId} (hscope : scope ∈ h.handles) :
    Carried h (s.evalIn depth source scope) := by
  have hattains := canDo_source (.inl hscope) depth source h (.refl h)
  unfold Session.evalIn
  rw [hs.world]
  generalize (evalSource depth scope source).run h.world = o at hattains
  cases hattains with
  | @done k v hk hsteps hv =>
    refine ⟨k, hsteps, ⟨rfl, hs.handles.trans hk.handles.symm⟩, ?_⟩
    rintro _ ⟨⟩
    exact hv.builds
  | @failed k e hk hsteps =>
    exact ⟨k, hsteps, ⟨rfl, hs.handles.trans hk.handles.symm⟩, nofun⟩
  | exhausted => exact hs.carried rfl

theorem IsOf.setIn (hs : s.IsOf h) (depth : Nat) (name : String)
    (value : Datum) {scope : ScopeId} (hscope : scope ∈ h.handles) :
    Carried h (s.setIn depth name value scope) := by
  have hattains := value.canDo_build depth (.inl hscope) h (.refl h)
  unfold Session.setIn
  rw [hs.world]
  generalize (value.build depth scope).run h.world = o at hattains
  cases hattains with
  | @done k v hk hsteps hv =>
    have hreaches : k.Reaches scope := .root (.inl (hk.handles ▸ hscope))
    exact ⟨_, hsteps.tail (.set hreaches hv.builds),
      ⟨rfl, hs.handles.trans hk.handles.symm⟩, nofun⟩
  | @failed k e hk hsteps =>
    exact ⟨k, hsteps, ⟨rfl, hs.handles.trans hk.handles.symm⟩, nofun⟩
  | exhausted => exact hs.carried rfl

/-- A command to a session that has just put away what the last one wrote. -/
theorem IsOf.clearOutput (hs : s.IsOf h) :
    IsOf ⟨s.world.clearOutput, s.handles⟩
      ⟨h.world.clearOutput, h.handles, h.values⟩ :=
  ⟨congrArg World.clearOutput hs.world, hs.handles⟩

/-- **Every command is something that a host can do.** -/
theorem IsOf.step (hs : s.IsOf h) (depth : Nat) (command : Command) :
    Carried h (s.step depth command) := by
  have hclear : Host.Step h ⟨h.world.clearOutput, h.handles, h.values⟩ :=
    .output
  have hs := hs.clearOutput
  suffices hcarried : Carried _ (s.step depth command) by
    obtain ⟨k, hsteps, hk⟩ := hcarried
    exact ⟨k, .head hclear hsteps, hk⟩
  have hreaches {scope : ScopeId} (hscope : scope ∈ h.handles) :
      Host.Reaches ⟨h.world.clearOutput, h.handles, h.values⟩ scope :=
    .root (.inl hscope)
  cases command with
  | eval handle source =>
    exact hs.onScope handle fun scope hscope => hs.evalIn depth source hscope
  | get handle name =>
    refine hs.onScope handle fun scope hscope => ?_
    split
    · rename_i v hv
      refine ⟨_, .refl, hs, ?_⟩
      rintro _ ⟨⟩
      rw [hs.world] at hv
      exact Host.builds_of_get? (hreaches hscope) hv
    · exact hs.carried rfl
  | set handle name value =>
    exact hs.onScope handle fun scope hscope =>
      hs.setIn depth name value hscope
  | describe handle => exact hs.onScope handle fun _ _ => hs.carried rfl
  | same first second =>
    exact hs.onScope first fun _ _ => hs.onScope second fun _ _ =>
      hs.carried rfl
  | new =>
    refine hs.give ?_
    rw [hs.world]
    exact .new
  | enclose handle =>
    refine hs.onScope handle fun scope hscope => hs.give ?_
    rw [hs.world]
    exact .enclose (hreaches hscope)
  | clone handle =>
    refine hs.onScope handle fun scope hscope => hs.give ?_
    rw [hs.world]
    exact .clone (hreaches hscope)

/-- **The session after some commands.** -/
def after (depth : Nat) (s : Session) (commands : List Command) : Session :=
  commands.foldl (fun s command => (s.step depth command).1) s

theorem IsOf.after (hs : s.IsOf h) (depth : Nat) (commands : List Command) :
    ∃ k, Steps h k ∧ (s.after depth commands).IsOf k := by
  induction commands generalizing s h with
  | nil => exact ⟨h, .refl, hs⟩
  | cons command commands ih =>
    obtain ⟨k, hsteps, hk, -⟩ := hs.step depth command
    obtain ⟨k', hsteps', hk'⟩ := ih hk
    exact ⟨k', hsteps.trans hsteps', hk'⟩

/-- **Every session is what some host has done.** -/
theorem exists_host (a : Arrangement) (depth : Nat)
    (commands : List Command) :
    ∃ h, Steps (Host.start a) h ∧ ((start a).after depth commands).IsOf h := by
  have hnew : Host.Step (Host.start a)
      ⟨((World.empty a).addScope none).1, [0], []⟩ := .new
  have hstart : (start a).IsOf ⟨((World.empty a).addScope none).1, [0], []⟩ :=
    ⟨rfl, rfl⟩
  obtain ⟨h, hsteps, hh⟩ := hstart.after depth commands
  exact ⟨h, .head hnew hsteps, hh⟩

/-- **Scope chains are well-founded in every session.** The handles belong to
scopes that have been made, links lead to scopes made before, and so asking for
a name comes to an end, with what the name means, and asks no scope twice. -/
theorem chains_end (a : Arrangement) (depth : Nat) (commands : List Command) :
    (∀ scope ∈ ((start a).after depth commands).handles,
      scope < ((start a).after depth commands).world.scopes.size)
    ∧ (∀ s o, ((start a).after depth commands).world.outer? s = some o → o < s)
    ∧ ∀ s x, ∃ path, ((start a).after depth commands).world.Asks x s path
        (((start a).after depth commands).world.get? s x) ∧ path.Nodup := by
  obtain ⟨h, hsteps, hh⟩ := exists_host a depth commands
  have hsound := hsteps.sound
  have hlinks (s o : ScopeId) (ho : h.world.outer? s = some o) : o < s :=
    (hsound.confined.links (Nat.zero_le s) ho).2
  rw [hh.world]
  refine ⟨fun scope hscope => hsound.held scope (.inl ?_), hlinks, ?_⟩
  · rw [← hh.handles]
    exact Array.mem_toList_iff.2 hscope
  · intro s x
    obtain ⟨path, hasks, hsorted, -⟩ := World.exists_asks hlinks s x
    exact ⟨path, hasks, hsorted.imp Nat.ne_of_gt⟩

end Session

end Monkey
