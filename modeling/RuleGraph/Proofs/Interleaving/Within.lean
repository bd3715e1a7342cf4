import RuleGraph.Proofs.Interleaving.Refusals
import RuleGraph.Proofs.Routine.Within

/-! # Threads that keep to a region

A region of slots from which nothing outside of it is fetched bounds whatever happens in a thread
that fetches slots of the region: other slots are left alone, and nothing is done but what the slots
of the region may do.

* **`Thread.KeepsTo`** — all that is left of a thread keeps to a region.
* **`State.ChangesWithin`** — only slots of a region have changed, and only so much was done.
* **`Thread.Step.changesWithin`** — a step of such a thread changes nothing else.
* **`RunsAlone.changesWithin`** — and so do all steps.
-/

namespace RuleGraph

variable {setting : Setting} {path : List Nat} {thread thread' : Thread}
  {threads threads' : List Thread} {state state' state'' : State} {trace : Trace} {slot : Nat}
  {region : Nat → Prop} {allowed : Deed → Prop}

namespace Thread

/-- All that is left of a thread keeps to a region and to what is allowed. -/
inductive KeepsTo (region : Nat → Prop) (allowed : Deed → Prop) : Thread → Prop where
  /-- Nothing is left. -/
  | finished {outcome} : KeepsTo region allowed (.finished outcome)
  /-- The routine does so. -/
  | resting {mark next} (rest : next.KeepsTo region allowed) :
    KeepsTo region allowed (.resting mark next)
  /-- The routine does so. -/
  | sleeping {mark wakeAt next} (rest : next.KeepsTo region allowed) :
    KeepsTo region allowed (.sleeping mark wakeAt next)
  /-- The slot waited for is one of the region. -/
  | waiting {mark index next} (inside : region index)
    (rest : ∀ outcome, (next outcome).KeepsTo region allowed) :
    KeepsTo region allowed (.waiting mark index next)
  /-- The slot computed is one of the region. -/
  | computing {mark index body next} (inside : region index) (inner : KeepsTo region allowed body)
    (rest : ∀ outcome, (next outcome).KeepsTo region allowed) :
    KeepsTo region allowed (.computing mark index body next)
  /-- What is run for some time does so. -/
  | limited {mark endsAt body next} (inner : KeepsTo region allowed body)
    (rest : ∀ outcome, (next outcome).KeepsTo region allowed) :
    KeepsTo region allowed (.limited mark endsAt body next)
  /-- All threads side by side do so. -/
  | joining {breadth threads next} (each : ∀ thread ∈ threads, KeepsTo region allowed thread)
    (rest : ∀ outcomes, (next outcomes).KeepsTo region allowed) :
    KeepsTo region allowed (.joining breadth threads next)

/-- What is wanted within the thread is in the region. -/
theorem KeepsTo.of_wants (keeps : thread.KeepsTo region allowed) (wants : thread.Wants slot) :
    region slot := by
  induction wants with
  | waiting =>
    cases keeps with
    | waiting inside => exact inside
  | computing =>
    cases keeps with
    | computing inside => exact inside
  | inside _ ih =>
    cases keeps with
    | computing _ inner => exact ih inner
  | beneath _ ih =>
    cases keeps with
    | limited inner => exact ih inner
  | side member _ ih =>
    cases keeps with
    | joining each => exact ih (each _ member)

/-- **A step of a thread that keeps to a region leaves one that does**, if what the slots of the
region do keeps to it. -/
theorem Step.keepsTo (closed : ∀ index, region index →
      (setting.slotRoutine index).KeepsTo region allowed)
    (step : Step setting path thread state trace thread' state')
    (keeps : thread.KeepsTo region allowed) : thread'.KeepsTo region allowed := by
  induction step with
  | finish => exact .finished
  | perform | pause =>
    cases keeps with
    | resting rest =>
      cases rest with
      | _ => exact .resting ‹_›
  | invoke =>
    cases keeps with
    | resting rest =>
      cases rest with
      | invoke _ rest => exact .resting (rest _)
  | sleep =>
    cases keeps with
    | resting rest =>
      cases rest with
      | sleep rest => exact .sleeping rest
  | wake =>
    cases keeps with
    | sleeping rest => exact .resting rest
  | reuse | refuse =>
    cases keeps with
    | resting rest =>
      cases rest with
      | fetch _ rest => exact .resting (rest _)
  | await =>
    cases keeps with
    | resting rest =>
      cases rest with
      | fetch inside rest => exact .waiting inside rest
  | hear | giveUp | answer =>
    cases keeps with
    | waiting _ rest => exact .resting (rest _)
  | compute =>
    cases keeps with
    -- The slot is in the region, so its routine keeps to it.
    | waiting inside rest => exact .computing inside (.resting (closed _ inside)) rest
  | complete | expire =>
    cases keeps with
    | computing _ _ rest => exact .resting (rest _)
  | inside _ ih =>
    cases keeps with
    | computing inside inner rest => exact .computing inside (ih inner) rest
  | limit =>
    cases keeps with
    | resting rest =>
      cases rest with
      | within first rest => exact .limited (.resting first) rest
  | beneath _ ih =>
    cases keeps with
    | limited inner rest => exact .limited (ih inner) rest
  | conclude | drop =>
    cases keeps with
    | limited _ rest => exact .resting (rest _)
  | join =>
    cases keeps with
    | resting rest =>
      cases rest with
      | join each rest =>
        refine .joining (fun thread member => ?_) rest
        obtain ⟨child, listed, rfl⟩ := List.mem_map.1 member
        exact .resting (each child listed)
  | side _ ih =>
    cases keeps with
    | joining each rest => exact .joining (forall_mem_replace each ih) rest
  | gather =>
    cases keeps with
    | joining _ rest => exact .resting (rest _)

end Thread

/-! ## Changes -/

namespace State

/-- The keys tracked so far. -/
def tracked (state : State) : List TrackingKey :=
  (state.manipulator.map Manipulator.tracked).getD []

/-- Only the slots of a region have changed, and nothing was invoked or tracked but what is
allowed. -/
structure ChangesWithin (region : Nat → Prop) (allowed : Deed → Prop) (before after : State) :
    Prop where
  /-- Slots outside of the region stay as they are. -/
  cells : ∀ slot, ¬region slot → after.cell slot = before.cell slot
  /-- Further invocations are allowed. -/
  invoked : ∃ records, after.invocations = before.invocations ++ records ∧
    ∀ record ∈ records, allowed (.invoke record.1 record.2)
  /-- Further keys are tracked by what is allowed. -/
  tracked : ∃ keys, after.tracked = before.tracked ++ keys ∧
    ∀ key ∈ keys, allowed (.perform (.track key))

namespace ChangesWithin

/-- Nothing may change. -/
theorem refl : state.ChangesWithin region allowed state :=
  ⟨fun _ _ => rfl, ⟨[], by simp⟩, ⟨[], by simp⟩⟩

/-- One change may follow on another. -/
theorem trans (first : state.ChangesWithin region allowed state')
    (second : state'.ChangesWithin region allowed state'') :
    state.ChangesWithin region allowed state'' := by
  obtain ⟨records, invoked, all⟩ := first.invoked
  obtain ⟨records', invoked', all'⟩ := second.invoked
  obtain ⟨keys, tracked, every⟩ := first.tracked
  obtain ⟨keys', tracked', every'⟩ := second.tracked
  refine ⟨fun slot outside => (second.cells slot outside).trans (first.cells slot outside),
    ⟨records ++ records', ?_, List.forall_mem_append.2 ⟨all, all'⟩⟩,
    ⟨keys ++ keys', ?_, List.forall_mem_append.2 ⟨every, every'⟩⟩⟩
  · rw [invoked', invoked, List.append_assoc]
  · rw [tracked', tracked, List.append_assoc]

/-- The region may be larger. -/
theorem mono {region' : Nat → Prop} (more : ∀ slot, region slot → region' slot)
    (changes : state.ChangesWithin region allowed state') :
    state.ChangesWithin region' allowed state' :=
  ⟨fun slot outside => changes.cells slot fun inside => outside (more slot inside),
    changes.invoked, changes.tracked⟩

/-- What others do not see changes slots only. -/
theorem of_unseen (cells : ∀ slot, ¬region slot → state'.cell slot = state.cell slot)
    (unseen : state'.Unseen state) : state.ChangesWithin region allowed state' := by
  refine ⟨cells, ⟨[], by simp [unseen.invocations], by simp⟩, ⟨[], ?_, by simp⟩⟩
  rw [State.tracked, State.tracked, unseen.manipulator, List.append_nil]

/-- As time passes nothing changes. -/
theorem of_elapses (elapses : state.Elapses state') :
    state.ChangesWithin region allowed state' := by
  refine ⟨fun slot _ => cell_congr elapses.cells, ⟨[], by simp [elapses.invocations], by simp⟩,
    ⟨[], ?_, by simp⟩⟩
  rw [State.tracked, State.tracked, elapses.manipulator, List.append_nil]

/-- Invoking a function is a change. -/
theorem invoke {function : EntryKey} {args : List Value} (may : allowed (.invoke function args)) :
    state.ChangesWithin region allowed (state.invoke function args) :=
  ⟨fun _ _ => rfl, ⟨[(function, args)], rfl, by simpa using may⟩, ⟨[], by simp [State.tracked,
    State.invoke]⟩⟩

/-- Having an effect is a change. -/
theorem perform {effect : Effect} (may : allowed (.perform effect)) :
    state.ChangesWithin region allowed (state.perform setting effect) := by
  have same : (state.perform setting effect).invocations = state.invocations := by
    cases effect <;> rfl
  refine ⟨fun slot _ => cell_congr cells_perform, ⟨[], by simp [same], by simp⟩, ?_⟩
  cases effect with
  | track key =>
    -- Without a manipulator the key goes nowhere.
    cases held : state.manipulator with
    | none =>
      exact ⟨[], by simp [State.tracked, State.perform, State.changeManipulator, held], by simp⟩
    | some manipulator =>
      refine ⟨[key], ?_, by simpa using may⟩
      simp [State.tracked, State.perform, State.changeManipulator, held, Manipulator.track]
  | log | emit => exact ⟨[], (List.append_nil _).symm, by simp⟩
  | queue | report =>
    refine ⟨[], ?_, by simp⟩
    rw [List.append_nil]
    cases held : state.manipulator <;>
      simp [State.tracked, State.perform, State.changeManipulator, held, Manipulator.queue,
        Manipulator.report]

end ChangesWithin

end State

/-- **A step of a thread that keeps to a region changes its slots only**, and does only what is
allowed. -/
theorem Thread.Step.changesWithin (step : Step setting path thread state trace thread' state')
    (keeps : thread.KeepsTo region allowed) : state.ChangesWithin region allowed state' := by
  -- What is not in the region is not wanted.
  have cells : ∀ slot, ¬region slot → state'.cell slot = state.cell slot := fun slot outside =>
    (step.kept_of_not_wants fun wants => outside (keeps.of_wants wants)).1
  induction step with
  | finish | pause | sleep | wake | reuse | refuse | limit | conclude | join | gather => exact .refl
  | perform =>
    cases keeps with
    | resting rest =>
      cases rest with
      | perform may => exact .perform may
  | invoke =>
    cases keeps with
    | resting rest =>
      cases rest with
      | invoke may => exact .invoke may
  | await => exact .of_unseen cells .addWait
  | hear => exact .of_unseen cells .removeWait
  | compute => exact .of_unseen cells ⟨rfl, rfl, rfl⟩
  | giveUp | answer => exact .of_unseen cells (.trans .answer ⟨rfl, rfl, rfl⟩)
  | complete => exact .of_unseen cells .answer
  | expire =>
    have unseen := @unseen_cancel
    exact .of_unseen cells (.trans .answer ⟨unseen.1, unseen.2, unseen.3⟩)
  | drop => exact .of_unseen cells unseen_cancel
  | beneath _ ih =>
    cases keeps with
    | limited inner => exact ih inner cells
  | inside _ ih =>
    cases keeps with
    | computing _ inner => exact ih inner cells
  | side _ ih =>
    cases keeps with
    | joining each => exact ih (each _ (by simp)) cells

/-- **A thread that keeps to a region changes its slots only**, however long it runs. -/
theorem RunsAlone.changesWithin (closed : ∀ index, region index →
      (setting.slotRoutine index).KeepsTo region allowed)
    (runs : RunsAlone (Thread.Step setting path) thread state trace thread' state')
    (keeps : thread.KeepsTo region allowed) : state.ChangesWithin region allowed state' := by
  induction runs with
  | refl => exact .refl
  | step first _ ih => exact (first.changesWithin keeps).trans (ih (first.keepsTo closed keeps))
  | meanwhile first _ ih => exact .trans (.of_elapses first) (ih keeps)

end RuleGraph
