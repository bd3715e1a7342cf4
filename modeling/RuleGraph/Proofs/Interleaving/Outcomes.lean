import RuleGraph.Proofs.Interleaving.Story
import RuleGraph.Proofs.Routine.Ends

/-! # Where outcomes come from

What is kept for a slot is what its computation has come to, or says that it was late.

* **`Execution.Reaches.tells_of_kept`** — where a kept outcome comes from.
* **`Execution.Reaches.forall_kept`** — of which kind all kept outcomes are.
* **`Session.HasValue`** — the slot of a name has come to a value.
* **`Session.HasValue.tells`** — its computation has come to that value.
-/

namespace RuleGraph

namespace Execution

variable {execution : Execution} {trace : Trace} {session : Session} {index : Nat}
  {outcome : Outcome}

/-- **A kept outcome is what the computation of the slot has come to**, or the slot was found to be
late. -/
theorem Reaches.tells_of_kept (started : execution.Started)
    (reaches : execution.Reaches trace session)
    (kept : session.state.outcome? index = some outcome) :
    session.Tells execution.setting trace index (some outcome) ∨
      outcome = .error (execution.setting.timeoutError index) ∧
        session.state.isOverdue execution.setting index = true := by
  cases reaches.story started index with
  | settled kept' told =>
    rw [kept, Option.some_inj] at kept'
    exact .inl (kept' ▸ told)
  | late kept' late =>
    rw [kept, Option.some_inj] at kept'
    exact .inr ⟨kept', late⟩
  | untouched idle | abandoned idle => simp [State.outcome?, idle, Cell.outcome?] at kept
  | computing busy => simp [State.outcome?, busy, Cell.outcome?] at kept

/-- **All kept outcomes are of a kind**, if those of late slots are and every slot ends in one when
its fetches are answered by such outcomes or refused. -/
theorem Reaches.forall_kept {kind : Outcome → Prop} (started : execution.Started)
    (late : ∀ index, kind (.error (execution.setting.timeoutError index)))
    (cyclic : ∀ names, kind (.error (.cyclicDependency names)))
    (ends : ∀ (reply : Nat → Outcome → Prop) (index : Nat),
      (∀ target outcome, reply target outcome → kind outcome) →
      (execution.setting.slotRoutine index).EndsIn reply kind)
    (reaches : execution.Reaches trace session)
    (kept : session.state.outcome? index = some outcome) : kind outcome := by
  induction reaches generalizing index outcome with
  | start =>
    rw [State.outcome?, started.cell_eq] at kept
    cases kept
  | @step trace trace' session session' before last ih =>
    -- Replies are outcomes that were kept before the step, or refusals.
    have told : ∀ target outcome,
        session.state.Replies execution.setting (some index) target outcome → kind outcome := by
      rintro target outcome (known | ⟨names, rfl, -⟩)
      · exact ih known
      · exact cyclic names
    have same : session'.state.outcome? index = session.state.outcome? index → kind outcome :=
      fun unchanged => ih (unchanged ▸ kept)
    cases last with
    | call => exact same rfl
    | meanwhile other => exact same (congrArg Cell.outcome? (State.cell_congr other.cells))
    | go step =>
      have story := before.story started index
      cases before.fate started step index with
      | kept unchanged => exact same (congrArg Cell.outcome? unchanged)
      | begun _ _ _ now => simp [State.outcome?, now, Cell.outcome?] at kept
      | answered _ _ _ plain now =>
        cases now.symm.trans kept
        refine ends _ index told 0 outcome ?_
        rw [plain]
        exact .done
      | completed holds _ now =>
        cases now.symm.trans kept
        have busy := (before.isBalanced started).cell_of_holds holds
        exact ends _ index told _ outcome
          (story.left busy _ holds _ (fun _ _ replies => replies) 0 _ .finished)
      | late _ _ _ now =>
        cases now.symm.trans kept
        exact late index
      | released _ _ _ now | dropped _ _ now =>
        simp [State.outcome?, now, Cell.outcome?] at kept

end Execution

/-- The slot of a name has come to a value. -/
def Session.HasValue (setting : Setting) (session : Session) (name : String) (value : Value) :
    Prop :=
  ∃ index, setting.graph.indexOf? name = some index ∧
    session.state.outcome? index = some (.ok value)

/-- A slot that has a value has come to it, since being late is an error. -/
theorem Session.HasValue.tells {execution : Execution} {trace : Trace} {session : Session}
    {name : String} {value : Value} (has : session.HasValue execution.setting name value)
    (started : execution.Started) (reaches : execution.Reaches trace session) :
    ∃ index, execution.setting.graph.indexOf? name = some index ∧
      session.Tells execution.setting trace index (some (.ok value)) := by
  obtain ⟨index, found, kept⟩ := has
  rcases reaches.tells_of_kept started kept with told | ⟨late, -⟩
  · exact ⟨index, found, told⟩
  · cases late

end RuleGraph
