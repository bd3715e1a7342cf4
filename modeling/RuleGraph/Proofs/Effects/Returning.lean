import RuleGraph.Proofs.Effects.Draining
import Mathlib.Order.Monotone.Basic
import Mathlib.Tactic.Push

/-! # When a call returns

A call to drain a queue goes on until the queue is empty, so it never returns if actions are queued
again and again, or if an action goes on for ever. Nothing else keeps it from returning.

* **`Draining.mutate?_add`** — a larger bound makes no difference to a call that has returned.
* **`Draining.exists_mutate?_iff`** — `Manipulator.mutate?` is the call that nothing interferes
  with.
* **`Draining.Course`** — all that happens from some point on.
* **`Draining.Course.returns_iff`** — a call returns if and only if finitely many actions are queued
  before that and every action that runs comes to its end.
* **`Draining.undisturbed`** — the course of a call that nothing interferes with.
-/

namespace RuleGraph

namespace Draining

open QueueEvent

/-! ## Calls that nothing interferes with -/

/-- An action that has come to its end does so under every larger bound. -/
theorem runDeferred?_add {steps : Nat} {action : Deferred} {manipulator : Manipulator}
    {timeline : Timeline} {came : Except FunctionError Unit × Manipulator × Timeline}
    (ran : Manipulator.runDeferred? steps action manipulator timeline = some came) (more : Nat) :
    Manipulator.runDeferred? (steps + more) action manipulator timeline = some came := by
  induction steps generalizing action manipulator timeline with
  | zero => cases ran
  | succ steps ih =>
    rw [Nat.add_right_comm, Manipulator.runDeferred?]
    rw [Manipulator.runDeferred?] at ran
    cases taken : action.step with
    | finish result =>
      rw [taken] at ran
      exact ran
    | pause next | sleep milliseconds next | emit event next | queue callback next =>
      rw [taken] at ran
      exact ih ran

/-- A call that has returned does so under every larger bound. -/
theorem mutate?_add {context : Context} {steps : Nat} {manipulator : Manipulator}
    {timeline : Timeline} {came : Except FatalError Unit × Manipulator × Timeline}
    (returned : manipulator.mutate? context steps timeline = some came) (more : Nat) :
    manipulator.mutate? context (steps + more) timeline = some came := by
  induction steps generalizing manipulator timeline with
  | zero => cases returned
  | succ steps ih =>
    rw [Nat.add_right_comm, Manipulator.mutate?]
    rw [Manipulator.mutate?] at returned
    cases queued : manipulator.pending with
    | nil =>
      rw [queued] at returned
      exact returned
    | cons callback rest =>
      rw [queued] at returned
      dsimp only at returned ⊢
      cases ran : Manipulator.runDeferred? steps (callback context)
          { manipulator with pending := rest } timeline with
      | none =>
        rw [ran] at returned
        cases returned
      | some ended =>
        obtain ⟨result, manipulator', timeline'⟩ := ended
        rw [ran] at returned
        rw [runDeferred?_add ran]
        dsimp only at returned ⊢
        rcases settled : manipulator'.settle result with ⟨manipulator'', _ | error⟩
        · rw [settled] at returned
          exact ih returned
        · rw [settled] at returned
          exact returned

/-- What comes of the rest of a call under a bound. -/
def rest? (steps : Nat) (draining : Draining) :
    Option (Except FatalError Unit × Manipulator × Timeline) :=
  match draining.stage with
  | .idle => none
  | .between context => draining.manipulator.mutate? context steps draining.timeline
  | .running context action =>
    match Manipulator.runDeferred? steps action draining.manipulator draining.timeline with
    | none => none
    | some (result, manipulator, timeline) =>
      match manipulator.settle result with
      | (manipulator, some error) => some (.error error, manipulator, timeline)
      | (manipulator, none) => manipulator.mutate? context steps timeline

variable {draining draining' : Draining} {events : List QueueEvent}

/-- What comes of the rest of an action that comes to what another one does in fewer steps. -/
theorem rest?_running {context : Context} {action next : Deferred}
    {manipulator manipulator' : Manipulator} {timeline timeline' : Timeline} {steps : Nat}
    {came : Except FatalError Unit × Manipulator × Timeline}
    (same : Manipulator.runDeferred? (steps + 1) action manipulator timeline =
      Manipulator.runDeferred? steps next manipulator' timeline')
    (known : rest? steps ⟨manipulator', timeline', .running context next⟩ = some came) :
    rest? (steps + 1) ⟨manipulator, timeline, .running context action⟩ = some came := by
  dsimp only [rest?] at known ⊢
  rw [same]
  cases ran : Manipulator.runDeferred? steps next manipulator' timeline' with
  | none =>
    rw [ran] at known
    cases known
  | some ended =>
    obtain ⟨result, manipulator, timeline⟩ := ended
    rw [ran] at known
    dsimp only at known ⊢
    rcases settled : manipulator.settle result with ⟨manipulator', _ | error⟩
    · rw [settled] at known
      exact mutate?_add known 1
    · rw [settled] at known
      exact known

/-- A step of a call takes one of the bound and leaves the same rest, unless the call returns by
it. -/
theorem rest?_of_proceed (step : draining.proceed = some (events, draining')) :
    draining'.stage = .idle ∧ (∃ before result, events = before ++ [.returned result] ∧
      draining.rest? 1 = some (result, draining'.manipulator, draining'.timeline)) ∨
    draining'.stage ≠ .idle ∧ ∀ steps came, draining'.rest? steps = some came →
      draining.rest? (steps + 1) = some came := by
  obtain ⟨manipulator, timeline, stage⟩ := draining
  cases stage with
  | idle => cases step
  | between context =>
    cases queued : manipulator.pending with
    | nil =>
      rw [proceed, queued] at step
      cases step
      refine .inl ⟨rfl, [], .ok (), rfl, ?_⟩
      simp only [rest?, Manipulator.mutate?, queued]
    | cons callback rest =>
      rw [proceed, queued] at step
      cases step
      refine .inr ⟨by simp, fun steps came known => ?_⟩
      simp only [rest?, Manipulator.mutate?, queued]
      exact known
  | running context action =>
    rw [proceed] at step
    cases taken : action.step with
    | finish result =>
      rw [taken] at step
      dsimp only at step
      rcases settled : manipulator.settle result with ⟨manipulator', _ | error⟩
      · rw [settled] at step
        cases step
        refine .inr ⟨by simp, fun steps came known => ?_⟩
        simp only [rest?, Manipulator.runDeferred?, taken, settled]
        exact mutate?_add known 1
      · rw [settled] at step
        cases step
        refine .inl ⟨rfl, [_], _, rfl, ?_⟩
        simp only [rest?, Manipulator.runDeferred?, taken, settled]
    | pause next | sleep milliseconds next | emit event next | queue callback next =>
      rw [taken] at step
      cases step
      refine .inr ⟨by simp, fun steps came known => rest?_running ?_ known⟩
      rw [Manipulator.runDeferred?, taken]

/-- A call that returns has come to what its rest comes to under some bound. -/
theorem rest?_of_proceeds (runs : draining.Proceeds events draining')
    (underway : draining.stage ≠ .idle) (returned : draining'.stage = .idle) :
    ∃ before result steps, events = before ++ [.returned result] ∧
      draining.rest? steps = some (result, draining'.manipulator, draining'.timeline) := by
  induction runs with
  | refl => exact absurd returned underway
  | head first others ih =>
    rcases rest?_of_proceed first with ⟨idle, before, result, rfl, known⟩ | ⟨still, same⟩
    · -- There is no step after a call has returned.
      cases others with
      | refl => exact ⟨before, result, 1, List.append_nil _, known⟩
      | head next _ =>
        rw [proceed_idle idle] at next
        cases next
    · obtain ⟨before, result, steps, rfl, known⟩ := ih still returned
      exact ⟨_, result, _, (List.append_assoc _ before _).symm, same _ _ known⟩

/-- An action that comes to its end does so step by step. -/
theorem proceeds_of_runDeferred? (context : Context) {steps : Nat} {action : Deferred}
    {manipulator manipulator' : Manipulator} {timeline timeline' : Timeline}
    {result : Except FunctionError Unit}
    (ran : Manipulator.runDeferred? steps action manipulator timeline =
      some (result, manipulator', timeline')) :
    ∃ events last, last.step = .finish result ∧
      Proceeds ⟨manipulator, timeline, .running context action⟩ events
        ⟨manipulator', timeline', .running context last⟩ := by
  induction steps generalizing action manipulator timeline with
  | zero => cases ran
  | succ steps ih =>
    rw [Manipulator.runDeferred?] at ran
    cases taken : action.step with
    | finish result =>
      rw [taken] at ran
      cases ran
      exact ⟨[], action, taken, .refl⟩
    | pause next | sleep milliseconds next | emit event next | queue callback next =>
      rw [taken] at ran
      obtain ⟨events, last, ends, others⟩ := ih ran
      exact ⟨_, last, ends, .head (by rw [proceed, taken]) others⟩

/-- The first action of a queue starts and comes to its end. -/
theorem proceeds_first {context : Context} {callback : Callback} {rest : List Callback}
    {manipulator manipulator' : Manipulator} {timeline timeline' : Timeline} {steps : Nat}
    {result : Except FunctionError Unit} (queued : manipulator.pending = callback :: rest)
    (ran : Manipulator.runDeferred? steps (callback context) { manipulator with pending := rest }
      timeline = some (result, manipulator', timeline')) :
    ∃ events last, last.step = .finish result ∧
      Proceeds ⟨manipulator, timeline, .between context⟩ events
        ⟨manipulator', timeline', .running context last⟩ := by
  obtain ⟨events, last, ends, others⟩ := proceeds_of_runDeferred? context ran
  exact ⟨_, last, ends, .head (by rw [proceed, queued]) others⟩

/-- What `Manipulator.mutate?` comes to is what a call comes to. -/
theorem proceeds_of_mutate? {context : Context} {steps : Nat}
    {manipulator manipulator' : Manipulator} {timeline timeline' : Timeline}
    {result : Except FatalError Unit}
    (came : manipulator.mutate? context steps timeline = some (result, manipulator', timeline')) :
    ∃ events, Proceeds ⟨manipulator, timeline, .between context⟩ (events ++ [.returned result])
      ⟨manipulator', timeline', .idle⟩ := by
  induction steps generalizing manipulator timeline with
  | zero => cases came
  | succ steps ih =>
    rw [Manipulator.mutate?] at came
    cases queued : manipulator.pending with
    | nil =>
      rw [queued] at came
      cases came
      exact ⟨[], .single (by simp only [proceed, queued, List.nil_append])⟩
    | cons callback rest =>
      rw [queued] at came
      dsimp only at came
      split at came
      · cases came
      · rename_i result manipulator₁ timeline₁ first
        obtain ⟨before, last, ends, runs⟩ := proceeds_first queued first
        split at came
        · rename_i manipulator₂ error settled
          have stops : proceed ⟨manipulator₁, timeline₁, .running context last⟩ =
              some ([.ended result, .returned (.error error)],
                ⟨manipulator₂, timeline₁, .idle⟩) := by
            simp only [proceed, ends, settled]
          cases came
          refine ⟨before ++ [.ended result], ?_⟩
          rw [List.append_assoc]
          exact runs.trans (.single stops)
        · rename_i manipulator₂ settled
          have goesOn : proceed ⟨manipulator₁, timeline₁, .running context last⟩ =
              some ([.ended result], ⟨manipulator₂, timeline₁, .between context⟩) := by
            simp only [proceed, ends, settled]
          obtain ⟨others, returns⟩ := ih came
          refine ⟨before ++ ([.ended result] ++ others), ?_⟩
          rw [List.append_assoc, List.append_assoc]
          exact runs.trans (.head goesOn returns)

/-- **`Manipulator.mutate?` is the call that nothing interferes with**, if its bound is large
enough. -/
theorem exists_mutate?_iff {context : Context} {manipulator manipulator' : Manipulator}
    {timeline timeline' : Timeline} {result : Except FatalError Unit} :
    (∃ steps, manipulator.mutate? context steps timeline =
        some (result, manipulator', timeline')) ↔
      ∃ events, Proceeds ⟨manipulator, timeline, .between context⟩ (events ++ [.returned result])
        ⟨manipulator', timeline', .idle⟩ := by
  refine ⟨fun ⟨steps, came⟩ => proceeds_of_mutate? came, fun ⟨events, runs⟩ => ?_⟩
  obtain ⟨before, result', steps, same, known⟩ := rest?_of_proceeds runs (by simp) rfl
  obtain ⟨-, last⟩ := List.append_inj' same rfl
  cases last
  exact ⟨steps, known⟩

/-! ## Calls that may be interfered with -/

/-- What has happened up to some point. -/
def record (happens : Nat → List QueueEvent) (n : Nat) : List QueueEvent :=
  (List.range n).flatMap happens

/-- All that happens from some point on, one thing after the other and for ever. A call that has not
returned takes a further step sooner or later. -/
structure Course (happens : Nat → List QueueEvent) (course : Nat → Draining) : Prop where
  /-- One thing happens after the other. -/
  next : ∀ n, (course n).Happens (happens n) (course (n + 1))
  /-- A call goes on. -/
  goesOn : ∀ n, (course n).stage ≠ .idle →
    ∃ m ≥ n, (course m).proceed = some (happens m, course (m + 1))

/-- Finitely many actions are queued before the call returns, and every action that it runs comes to
its end. -/
structure IsFinite (happens : Nat → List QueueEvent) (course : Nat → Draining) : Prop where
  /-- So many actions are queued at most. -/
  queued : ∃ enough, ∀ n, (∀ m ≤ n, (course m).stage ≠ .idle) →
    (additions (record happens n)).length ≤ enough
  /-- An action that runs comes to its end. -/
  ended : ∀ n, (∀ m ≤ n, (course m).stage ≠ .idle) → (course n).stage.current = 1 →
    ∃ m ≥ n, ends (happens m) ≠ []

/-- What grows and stays below a bound does not grow for ever. -/
theorem exists_const_of_le {size : Nat → Nat} (grows : ∀ n, size n ≤ size (n + 1)) {bound : Nat}
    (below : ∀ n, size n ≤ bound) : ∃ n, ∀ m ≥ n, size (m + 1) = size m := by
  by_contra never
  push Not at never
  have monotone := monotone_nat_of_le_succ grows
  -- It grows again and again, so it comes above any number.
  have above : ∀ k, ∃ n, k ≤ size n := by
    intro k
    induction k with
    | zero => exact ⟨0, Nat.zero_le _⟩
    | succ k ih =>
      obtain ⟨n, reached⟩ := ih
      obtain ⟨m, later, apart⟩ := never n
      have := monotone later
      have := grows m
      exact ⟨m + 1, by omega⟩
  obtain ⟨n, reached⟩ := above (bound + 1)
  exact absurd (below n) (by omega)

section

variable {happens : Nat → List QueueEvent} {course : Nat → Draining}

/-- One thing more happens. -/
theorem record_succ (happens : Nat → List QueueEvent) (n : Nat) :
    record happens (n + 1) = record happens n ++ happens n := by
  simp [record, List.range_succ]

/-- What has happened adds up. -/
theorem Course.adds (goes : Course happens course) (n : Nat) :
    (course 0).Adds (record happens n) (course n) := by
  induction n with
  | zero => exact .refl _
  | succ n ih =>
    rw [record_succ]
    exact ih.trans (goes.next n).adds

/-- More has started, and more has come to its end, as time passes. -/
theorem length_record_succ (happens : Nat → List QueueEvent) (n : Nat) :
    (starts (record happens (n + 1))).length =
        (starts (record happens n)).length + (starts (happens n)).length ∧
      (ends (record happens (n + 1))).length =
        (ends (record happens n)).length + (ends (happens n)).length := by
  simp only [record_succ, starts, ends, List.filterMap_append, List.length_append, and_self]

/-- An action that runs has come to its end when the call has returned. -/
theorem Course.exists_ends (goes : Course happens course) {n m : Nat} (before : n ≤ m)
    (running : (course n).stage.current = 1) (returned : (course m).stage = .idle) :
    ∃ k ≥ n, ends (happens k) ≠ [] := by
  by_contra none
  push Not at none
  have still : ∀ k ≥ n, (ends (record happens k)).length = (ends (record happens n)).length ∧
      (starts (record happens n)).length ≤ (starts (record happens k)).length := by
    intro k later
    induction k, later using Nat.le_induction with
    | base => exact ⟨rfl, Nat.le_refl _⟩
    | succ k later ih =>
      obtain ⟨started, ended⟩ := length_record_succ happens k
      rw [none k later, List.length_nil] at ended
      omega
  obtain ⟨same, more⟩ := still m before
  have first := (goes.adds n).current_eq
  have last := (goes.adds m).current_eq
  rw [running] at first
  have stopped : (course m).stage.current = 0 := by rw [returned]; rfl
  omega

/-- What a step of a call does that waits for the next action to start. -/
theorem starts_of_proceed {draining draining' : Draining} {events : List QueueEvent}
    (step : draining.proceed = some (events, draining')) (waits : draining.stage.current = 0) :
    draining'.stage = .idle ∨ starts events ≠ [] := by
  obtain ⟨manipulator, timeline, stage⟩ := draining
  cases stage with
  | idle => cases step
  | running => cases waits
  | between context =>
    cases queued : manipulator.pending with
    | nil =>
      rw [proceed, queued] at step
      cases step
      exact .inl rfl
    | cons callback rest =>
      rw [proceed, queued] at step
      cases step
      exact .inr (by simp [starts, started?])

/-- **A call returns if and only if finitely many actions are queued before that and every action
that it runs comes to its end**, whatever else happens meanwhile. -/
theorem Course.returns_iff (goes : Course happens course) :
    (∃ n, (course n).stage = .idle) ↔ IsFinite happens course := by
  constructor
  · rintro ⟨n, returned⟩
    refine ⟨⟨(additions (record happens n)).length, fun m underway => ?_⟩, fun m underway running =>
      goes.exists_ends ?_ running returned⟩
    · have before : m ≤ n := Nat.le_of_not_lt fun later => underway n (Nat.le_of_lt later) returned
      obtain ⟨more, rfl⟩ := Nat.exists_eq_add_of_le before
      simp only [record, List.range_add, List.flatMap_append, additions, List.filterMap_append,
        List.length_append]
      exact Nat.le_add_right _ _
    · exact Nat.le_of_not_lt fun later => underway n (Nat.le_of_lt later) returned
  · intro finite
    by_contra never
    push Not at never
    obtain ⟨enough, bounded⟩ := finite.queued
    -- No more actions start than are pending or queued, and no more end than start.
    have below : ∀ n, (starts (record happens n)).length + (ends (record happens n)).length ≤
        2 * ((course 0).manipulator.pending.length + enough) + 1 := by
      intro n
      have queued := congrArg List.length (goes.adds n).pending_eq
      have current := (goes.adds n).current_eq
      have few := bounded n fun m _ => never m
      have one : (course 0).stage.current ≤ 1 := by
        cases (course 0).stage <;> simp [DrainStage.current]
      simp only [List.length_append] at queued
      omega
    have grows : ∀ n, (starts (record happens n)).length + (ends (record happens n)).length ≤
        (starts (record happens (n + 1))).length + (ends (record happens (n + 1))).length := by
      intro n
      obtain ⟨started, ended⟩ := length_record_succ happens n
      omega
    obtain ⟨n, still⟩ := exists_const_of_le grows below
    have silent : ∀ m ≥ n, starts (happens m) = [] ∧ ends (happens m) = [] := by
      intro m later
      have same := still m later
      obtain ⟨started, ended⟩ := length_record_succ happens m
      exact ⟨List.eq_nil_of_length_eq_zero (by omega), List.eq_nil_of_length_eq_zero (by omega)⟩
    obtain ⟨m, later, step⟩ := goes.goesOn n (never n)
    have waits : (course m).stage.current = 0 := by
      by_contra runs
      have one : (course m).stage.current = 1 := by
        revert runs
        cases (course m).stage <;> simp [DrainStage.current]
      obtain ⟨k, after, ended⟩ := finite.ended m (fun k _ => never k) one
      exact ended (silent k (Nat.le_trans later after)).2
    rcases starts_of_proceed step waits with idle | started
    · exact never _ idle
    · exact started (silent m later).1

end

/-! ## The course of a call that nothing interferes with -/

/-- The next step of a call, if there is one. -/
def proceedOrStay (draining : Draining) : List QueueEvent × Draining :=
  draining.proceed.getD ([], draining)

/-- Where a call stands after so many steps. -/
def undisturbed (draining : Draining) : Nat → Draining
  | 0 => draining
  | n + 1 => (undisturbed draining n).proceedOrStay.2

/-- What happens at every step. -/
def undisturbedEvents (draining : Draining) (n : Nat) : List QueueEvent :=
  (undisturbed draining n).proceedOrStay.1

/-- A call that has not returned can take a step. -/
theorem exists_proceed {draining : Draining} (underway : draining.stage ≠ .idle) :
    draining.proceed = some draining.proceedOrStay := by
  rw [proceedOrStay]
  cases step : draining.proceed with
  | some next => rfl
  | none =>
    obtain ⟨manipulator, timeline, stage⟩ := draining
    exfalso
    cases stage with
    | idle => exact underway rfl
    | between context =>
      rw [proceed] at step
      split at step <;> cases step
    | running context action =>
      rw [proceed] at step
      split at step
      · split at step <;> cases step
      all_goals cases step

/-- It is a course. -/
theorem course_undisturbed (draining : Draining) :
    Course (undisturbedEvents draining) (undisturbed draining) where
  next n := by
    rw [undisturbedEvents, undisturbed, proceedOrStay]
    cases step : (undisturbed draining n).proceed with
    | some next => exact .proceed step
    | none => exact .pass _ _ _
  goesOn n underway := ⟨n, Nat.le_refl n, exists_proceed underway⟩

/-- What happens in its course are steps of the call. -/
theorem proceeds_undisturbed (draining : Draining) (n : Nat) :
    draining.Proceeds (record (undisturbedEvents draining) n) (undisturbed draining n) := by
  induction n with
  | zero => exact .refl
  | succ n ih =>
    rw [record_succ, undisturbedEvents, undisturbed, proceedOrStay]
    cases step : (undisturbed draining n).proceed with
    | some next => exact ih.trans (.single step)
    | none => simpa using ih

/-- Steps of a call are in its course. -/
theorem exists_undisturbed_of_proceeds {draining draining' : Draining} {events : List QueueEvent}
    (runs : draining.Proceeds events draining') : ∃ n, undisturbed draining n = draining' := by
  have shift : ∀ (draining : Draining) n,
      undisturbed draining (n + 1) = undisturbed draining.proceedOrStay.2 n := by
    intro draining n
    induction n with
    | zero => rfl
    | succ n ih => rw [undisturbed, ih, undisturbed]
  induction runs with
  | refl => exact ⟨0, rfl⟩
  | head first _ ih =>
    obtain ⟨n, same⟩ := ih
    refine ⟨n + 1, ?_⟩
    rw [shift, proceedOrStay, first]
    exact same

/-- **A call that nothing interferes with returns** if and only if its course is finite. -/
theorem exists_isSome_mutate?_iff (context : Context) (manipulator : Manipulator)
    (timeline : Timeline) :
    (∃ steps, (manipulator.mutate? context steps timeline).isSome = true) ↔
      IsFinite (undisturbedEvents ⟨manipulator, timeline, .between context⟩)
        (undisturbed ⟨manipulator, timeline, .between context⟩) := by
  rw [← (course_undisturbed _).returns_iff]
  constructor
  · rintro ⟨steps, some⟩
    obtain ⟨came, known⟩ := Option.isSome_iff_exists.1 some
    obtain ⟨events, runs⟩ := exists_mutate?_iff.1 ⟨steps, known⟩
    obtain ⟨n, same⟩ := exists_undisturbed_of_proceeds runs
    exact ⟨n, by rw [same]⟩
  · rintro ⟨n, returned⟩
    obtain ⟨before, result, steps, -, known⟩ :=
      rest?_of_proceeds (proceeds_undisturbed _ n) (by simp) returned
    exact ⟨steps, Option.isSome_iff_exists.2 ⟨_, known⟩⟩

end Draining

end RuleGraph
