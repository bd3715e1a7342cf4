import RuleGraph.Proofs.Interleaving.Progress

/-! # No request goes on forever

Routines are finite, and no slot is computed for itself. So however requests are scheduled and
whatever happens in between, after finitely many steps all of them are answered, even if what was
dropped is computed again.

* **`Thread.Ends`** — a thread comes to an end.
* **`Thread.ends`** — every thread does.
* **`Execution.Reaches.ends`** — the requests of every session come to an end.
* **`Execution.Reaches.settles`** — that end is that all of them are answered.
-/

namespace RuleGraph

namespace Thread

variable {setting : Setting} {path : List Nat} {thread thread' body : Thread}
  {threads threads' rest : List Thread} {mark index : Nat} {next : Outcome → Routine}

/-! ## Threads -/

/-- A thread of the last slot of a path comes a step further. -/
def Follows (setting : Setting) (path : List Nat) (after before : Thread) : Prop :=
  ∃ state trace state', Step setting path before state trace after state'

/-- One of several threads comes a step further. -/
def FollowAll (setting : Setting) (path : List Nat) (after before : List Thread) : Prop :=
  ∃ state trace state', SideStep setting path before state trace after state'

/-- A thread comes to an end. -/
def Ends (setting : Setting) (path : List Nat) (thread : Thread) : Prop :=
  Acc (Follows setting path) thread

/-- Several threads side by side come to an end. -/
def EndAll (setting : Setting) (path : List Nat) (threads : List Thread) : Prop :=
  Acc (FollowAll setting path) threads

/-- A routine comes to an end, wherever a thread at rest goes on with it. -/
def EndsFrom (setting : Setting) (path : List Nat) (routine : Routine) : Prop :=
  ∀ mark, (Thread.resting mark routine).Ends setting path

/-- A step of one of several threads is one of the first or one of the others. -/
theorem SideStep.of_cons {state state' : State} {trace : Trace}
    (step : SideStep setting path (thread :: rest) state trace threads' state') :
    (∃ thread', threads' = thread' :: rest ∧ Step setting path thread state trace thread' state') ∨
      ∃ rest', threads' = thread :: rest' ∧
        SideStep setting path rest state trace rest' state' := by
  generalize same : thread :: rest = threads at step
  obtain @⟨before, old, new, after, _, _, _, step⟩ := step
  cases before with
  | nil =>
    cases same
    exact .inl ⟨new, rfl, step⟩
  | cons first before =>
    cases same
    exact .inr ⟨before ++ new :: after, rfl, .mk step⟩

/-- A thread and others side by side come to an end if each side does. -/
theorem EndAll.cons (first : thread.Ends setting path) (others : EndAll setting path rest) :
    EndAll setting path (thread :: rest) := by
  induction first generalizing rest with
  | intro thread _ onFirst =>
    induction others with
    | intro rest deeper onOthers =>
      -- Either side comes closer to its end while the other stays where it is.
      refine .intro _ fun threads ⟨state, trace, state', step⟩ => ?_
      rcases step.of_cons with ⟨thread', rfl, here⟩ | ⟨rest', rfl, beyond⟩
      · exact onFirst thread' ⟨state, trace, state', here⟩ (.intro _ deeper)
      · exact onOthers rest' ⟨state, trace, state', beyond⟩

/-- Threads side by side come to an end if each of them does. -/
theorem endAll_of_forall (each : ∀ thread ∈ threads, thread.Ends setting path) :
    EndAll setting path threads := by
  induction threads with
  | nil =>
    refine .intro _ fun after ⟨_, _, _, step⟩ => ?_
    generalize same : [] = threads at step
    obtain ⟨step⟩ := step
    exact absurd same (by simp)
  | cons thread rest ih =>
    exact .cons (each thread List.mem_cons_self)
      (ih fun later member => each later (List.mem_cons_of_mem _ member))

/-- A thread that computes a slot comes to an end if the computation and what it goes on with do. -/
theorem Ends.computing (inner : body.Ends setting (path ++ [index]))
    (later : ∀ outcome, EndsFrom setting path (next outcome)) :
    (Thread.computing mark index body next).Ends setting path := by
  induction inner with
  | intro body _ ih =>
    refine .intro _ fun after ⟨state, trace, state', step⟩ => ?_
    cases step with
    | complete | expire => exact later _ _
    | inside step => exact ih _ ⟨state, trace, state', step⟩

/-- A thread that waits for a slot comes to an end if computing that slot and what it goes on with
do. -/
theorem ends_waiting (inner : EndsFrom setting (path ++ [index]) (setting.slotRoutine index))
    (later : ∀ outcome, EndsFrom setting path (next outcome)) :
    (Thread.waiting mark index next).Ends setting path := by
  refine .intro _ fun after ⟨_, _, _, step⟩ => ?_
  cases step with
  | hear | giveUp | answer => exact later _ _
  | compute => exact (inner _).computing later

/-- A thread that runs another one for some time comes to an end if that one and what it goes on
with do. -/
theorem Ends.limited {endsAt : Nat} {next : Option Outcome → Routine}
    (inner : body.Ends setting path) (later : ∀ outcome, EndsFrom setting path (next outcome)) :
    (Thread.limited mark endsAt body next).Ends setting path := by
  induction inner with
  | intro body _ ih =>
    refine .intro _ fun after ⟨state, trace, state', step⟩ => ?_
    cases step with
    | conclude | drop => exact later _ _
    | beneath step => exact ih _ ⟨state, trace, state', step⟩

/-- A thread that has spread out comes to an end if the threads side by side and what it goes on
with do. -/
theorem EndAll.joining {breadth : Nat} {next : List Outcome → Routine}
    (inner : EndAll setting path threads)
    (later : ∀ outcomes, EndsFrom setting path (next outcomes)) :
    (Thread.joining breadth threads next).Ends setting path := by
  induction inner with
  | intro threads _ ih =>
    refine .intro _ fun after ⟨state, trace, state', step⟩ => ?_
    cases step with
    | gather => exact later _ _
    | side step => exact ih _ ⟨state, trace, state', .mk step⟩

/-- A sleeping thread comes to an end if what it goes on with does. -/
theorem ends_sleeping {wakeAt : Nat} {next : Routine} (later : EndsFrom setting path next) :
    (Thread.sleeping mark wakeAt next).Ends setting path := by
  refine .intro _ fun after ⟨_, _, _, step⟩ => ?_
  cases step with
  | wake => exact later _

/-- A finished thread is at its end. -/
theorem ends_finished {outcome : Outcome} : (Thread.finished outcome).Ends setting path := by
  refine .intro _ fun after ⟨_, _, _, step⟩ => ?_
  cases step

/-- Since it is finite, a routine comes to an end if computing each slot that it may request does,
the slots on the path apart. -/
theorem endsFrom_of_permits {routine : Routine} (permits : setting.Permits path routine)
    (deeper : ∀ index, setting.MayRequest path index → index ∉ path →
      EndsFrom setting (path ++ [index]) (setting.slotRoutine index)) :
    EndsFrom setting path routine := by
  induction routine with
  | done =>
    refine fun mark => .intro _ fun after ⟨_, _, _, step⟩ => ?_
    cases step
    exact ends_finished
  | perform _ _ ih =>
    refine fun mark => .intro _ fun after ⟨_, _, _, step⟩ => ?_
    cases step
    exact ih (fun target fetched => permits target (.perform fetched)) _
  | pause _ ih =>
    refine fun mark => .intro _ fun after ⟨_, _, _, step⟩ => ?_
    cases step
    exact ih (fun target fetched => permits target (.pause fetched)) _
  | invoke _ _ _ ih =>
    refine fun mark => .intro _ fun after ⟨_, _, _, step⟩ => ?_
    cases step with
    | invoke => exact ih _ (fun target fetched => permits target (.invoke fetched)) _
  | sleep _ _ ih =>
    refine fun mark => .intro _ fun after ⟨_, _, _, step⟩ => ?_
    cases step with
    | sleep => exact ends_sleeping (ih fun target fetched => permits target (.sleep fetched))
  | fetch index _ ih =>
    have later := fun outcome => ih outcome fun target fetched => permits target (.fetch fetched)
    refine fun mark => .intro _ fun after ⟨_, _, _, step⟩ => ?_
    cases step with
    | reuse | refuse => exact later _ _
    | await _ free =>
      -- A slot on the path is refused, so the path becomes longer.
      exact ends_waiting (deeper index (permits index .here) (State.not_mem_of_cycleOf? free)) later
  | within _ _ _ onChild onNext =>
    refine fun mark => .intro _ fun after ⟨_, _, _, step⟩ => ?_
    cases step with
    | limit =>
      exact (onChild (fun target fetched => permits target (.inner fetched)) _).limited
        fun outcome => onNext outcome fun target fetched => permits target (.within fetched)
  | join _ children _ onChildren onNext =>
    refine fun mark => .intro _ fun after ⟨_, _, _, step⟩ => ?_
    cases step with
    | join =>
      refine (endAll_of_forall fun thread member => ?_).joining fun outcomes =>
        onNext outcomes fun target fetched => permits target (.join fetched)
      obtain ⟨child, listed, rfl⟩ := List.mem_map.1 member
      exact onChildren child listed (fun target fetched => permits target (.child listed fetched)) _

/-- Computing a slot comes to an end, since a path holds no slot twice. -/
theorem endsFrom_slotRoutine (linked : setting.graph.Linked) (isPath : setting.graph.IsPath path)
    (bound : index < setting.graph.size) (fresh : index ∉ path) :
    EndsFrom setting (path ++ [index]) (setting.slotRoutine index) := by
  -- The longer the path, the fewer slots are left.
  induction left : setting.graph.size - path.length using Nat.strong_induction_on
    generalizing path index with
  | _ left shorter =>
    have longer := isPath.concat bound fresh
    refine endsFrom_of_permits (setting.permits_slotRoutine linked) fun target request apart => ?_
    refine shorter _ ?_ longer request.1 apart rfl
    have enough := isPath.length_lt bound fresh
    rw [List.length_append, List.length_singleton]
    omega

/-- **Every thread comes to an end.** -/
theorem ends (linked : setting.graph.Linked) (isPath : setting.graph.IsPath path)
    (fits : thread.Fits setting path) : thread.Ends setting path := by
  have routines : ∀ {path routine}, setting.graph.IsPath path → setting.Permits path routine →
      EndsFrom setting path routine := fun isPath permits =>
    endsFrom_of_permits permits fun index request fresh =>
      endsFrom_slotRoutine linked isPath request.1 fresh
  induction fits with
  | finished => exact ends_finished
  | resting permits => exact routines isPath permits _
  | sleeping permits => exact ends_sleeping (routines isPath permits)
  | waiting request fresh permits =>
    exact ends_waiting (endsFrom_slotRoutine linked isPath request.1 fresh)
      fun outcome => routines isPath (permits outcome)
  | computing request fresh _ permits _ ih =>
    exact (ih (isPath.concat request.1 fresh)).computing
      fun outcome => routines isPath (permits outcome)
  | limited permits _ ih => exact (ih isPath).limited fun outcome => routines isPath (permits outcome)
  | joining _ permits ih =>
    exact (endAll_of_forall fun thread member => ih thread member isPath).joining
      fun outcomes => routines isPath (permits outcomes)

end Thread

/-! ## Sessions -/

/-- All requests of a session are answered in the end. As long as one is not, some request can
come a step further, and after whichever step it is still so. -/
inductive Session.Settles (setting : Setting) : Session → Prop where
  /-- There are only finitely many steps left. -/
  | mk {session} (moves : ¬session.IsQuiet → ∃ trace session', session.Goes setting trace session')
    (later : ∀ trace session', session.Goes setting trace session' → Settles setting session') :
    Settles setting session

namespace Execution

variable {execution : Execution} {trace : Trace} {session : Session}

/-- **The requests of a session do not go on forever**, however they are scheduled and whatever
happens in between. -/
theorem Reaches.ends (started : execution.Started) (reaches : execution.Reaches trace session) :
    Acc (fun after before => ∃ trace, Session.Goes execution.setting before trace after)
      session := by
  have inner : Thread.EndAll execution.setting [] session.threads :=
    Thread.endAll_of_forall fun thread member =>
      Thread.ends started.linked .nil (reaches.fits started.linked thread member)
  -- Each step of a session is one of its threads.
  generalize same : session.threads = threads at inner
  induction inner generalizing trace session with
  | intro threads _ onThreads =>
    refine .intro _ fun session' ⟨trace', goes⟩ => ?_
    obtain @⟨_, _, _, _, between, _, _, other, step⟩ := goes
    cases same
    refine onThreads _ ⟨between, trace', _, step⟩ (reaches.goes (.mk other step)) rfl

/-- **In every session all requests are answered in the end**, whichever of them go on and whatever
else happens. -/
theorem Reaches.settles (started : execution.Started) (reaches : execution.Reaches trace session) :
    session.Settles execution.setting := by
  have ends := reaches.ends started
  induction ends generalizing trace with
  | intro session _ ih =>
    exact .mk (reaches.exists_goes started) fun trace' session' goes =>
      ih session' ⟨trace', goes⟩ (reaches.goes goes)

end Execution

end RuleGraph
