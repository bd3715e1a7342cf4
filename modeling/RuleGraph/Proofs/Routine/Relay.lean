import RuleGraph.Proofs.Routine.Ends

/-! # Outcomes that are passed on

What the computation of a slot ends in is an outcome of its own, or one that one of its fetches was
answered with. Being late and closing a cycle are no outcomes of its own, and what it finds missing
is written in the slot.

* **`Slot.Mentions`** — the names that are written in a slot.
* **`Setting.Misses`** — no slot has a name that is written in a slot.
* **`IsOwn`** — the outcomes that a computation comes to by itself.
* **`Relays`** — an outcome of its own, or one that was fetched.
* **`Setting.endsIn_slotRoutine_relays`** — every computation ends so.
-/

namespace RuleGraph

/-- A name is written in an expression of a slot. -/
def Slot.Reads (slot : Slot) (name : String) : Prop :=
  ∃ body ∈ slot.expressions, name ∈ body.features

/-- A name is written in a slot: in an expression, or among its dependencies. -/
def Slot.Mentions (slot : Slot) (name : String) : Prop :=
  name ∈ slot.deps ∨ slot.Reads name

/-- A name is written in the slot at a place, but it is the name of no slot. -/
def Setting.Misses (setting : Setting) (index : Nat) (name : String) : Prop :=
  setting.graph.indexOf? name = none ∧
    ∃ slot, setting.graph.slots[index]? = some slot ∧ slot.Mentions name

/-- An outcome that a computation comes to by itself, if it misses some names. -/
inductive IsOwn (missing : String → Prop) : Outcome → Prop where
  /-- A value. -/
  | value {value} : IsOwn missing (.ok value)
  /-- A function has failed. -/
  | functionFailed {function source} : IsOwn missing (.error (.functionFailed function source))
  /-- There is no such function. -/
  | unknownFunction {name} : IsOwn missing (.error (.unknownFunction name))
  /-- There is no such feature. -/
  | unknownFeature {name} (missed : missing name) : IsOwn missing (.error (.unknownFeature name))
  /-- A statement has no manipulator. -/
  | missingManipulator {name} : IsOwn missing (.error (.missingManipulator name))

/-- An outcome that a computation comes to by itself, or that a fetch was answered with. -/
def Relays (missing : String → Prop) (reply : Nat → Outcome → Prop) (outcome : Outcome) : Prop :=
  IsOwn missing outcome ∨ ∃ index, reply index outcome

namespace Setting

open Routine

variable {setting : Setting} {missing : String → Prop} {reply : Nat → Outcome → Prop}
  {next : Routine} {name : String} {names : List String} {entry : Entry} {args : List Value}

/-- An end of its own. -/
theorem endsIn_done {outcome : Outcome} (own : IsOwn missing outcome) :
    (Routine.done outcome).EndsIn reply (Relays missing reply) :=
  .done (.inl own)

/-- A fetch passes on what it is answered. -/
theorem endsIn_fetch {index : Nat} :
    (Routine.fetch index .done).EndsIn reply (Relays missing reply) :=
  .fetch fun _ told => .done (.inr ⟨index, told⟩)

/-- So does a fetch by name, if names of no slot are missing. -/
theorem endsIn_fetchNamed_relays (absent : setting.graph.indexOf? name = none → missing name) :
    (setting.fetchNamed name).EndsIn reply (Relays missing reply) := by
  rw [fetchNamed]
  split
  · exact endsIn_fetch
  · rename_i none
    exact endsIn_done (.unknownFeature (absent none))

/-- So do fetches ahead of something else. -/
theorem endsIn_prefetch_relays
    (absent : ∀ name ∈ names, setting.graph.indexOf? name = none → missing name)
    (rest : next.EndsIn reply (Relays missing reply)) :
    (setting.prefetch names next).EndsIn reply (Relays missing reply) := by
  refine .allValues (fun child member => ?_) fun _ _ => rest
  obtain ⟨name, listed, rfl⟩ := List.mem_map.1 member
  exact endsIn_fetchNamed_relays (absent name listed)

/-- The outcome of a call is its own. -/
theorem isOwn_callOutcome {result : Except FunctionError Value} :
    IsOwn missing (callOutcome entry result) := by
  cases result with
  | ok value => exact .value
  | error source => exact .functionFailed

/-- Invoking a function ends in an outcome of its own. -/
theorem endsIn_invokeValue_relays :
    (setting.invokeValue name entry args).EndsIn reply (Relays missing reply) := by
  unfold invokeValue
  split
  · exact .invoke fun ordinal => .performAll (endsIn_done isOwn_callOutcome)
  · exact .invoke fun ordinal => endsIn_actionRoutine fun result _ => endsIn_done isOwn_callOutcome
  all_goals exact endsIn_done .unknownFunction

/-- So does a call. -/
theorem endsIn_callRoutine_relays :
    (setting.callRoutine name args).EndsIn reply (Relays missing reply) := by
  unfold callRoutine
  split
  · exact endsIn_done .unknownFunction
  · split
    · exact endsIn_done .functionFailed
    · split
      · exact endsIn_done .value
      · exact endsIn_invokeValue_relays

/-- **Evaluating an expression** ends in an outcome of its own or in one that was fetched. -/
theorem endsIn_exprRoutine_relays {body : SlotExpr}
    (absent : ∀ name ∈ body.features, setting.graph.indexOf? name = none → missing name) :
    (setting.exprRoutine body).EndsIn reply (Relays missing reply) := by
  induction body with
  | const value =>
    rw [exprRoutine]
    exact endsIn_done .value
  | feature name =>
    rw [exprRoutine]
    exact endsIn_fetchNamed_relays (absent name List.mem_cons_self)
  | list items ih =>
    rw [exprRoutine]
    exact .allValues (endsIn_exprRoutines fun item member => ih item member fun name read =>
      absent name (SlotExpr.mem_featuresOfAll.2 ⟨item, member, read⟩))
      fun values _ => endsIn_done .value
  | call function args ih =>
    rw [exprRoutine]
    exact .allValues (endsIn_exprRoutines fun arg member => ih arg member fun name read =>
      absent name (SlotExpr.mem_featuresOfAll.2 ⟨arg, member, read⟩))
      fun values _ => endsIn_callRoutine_relays

/-- Running a statement ends in an outcome of its own. -/
theorem endsIn_invokeStatement_relays :
    (setting.invokeStatement name args).EndsIn reply (Relays missing reply) := by
  have failed : ∀ {entry : Entry} {source : FunctionError},
      (statementFailed entry source).EndsIn reply (Relays missing reply) :=
    .perform (endsIn_done .functionFailed)
  unfold invokeStatement
  split
  · exact endsIn_done .unknownFunction
  · split
    · split
      · exact failed
      · refine .performAll ?_
        split
        · exact endsIn_done .value
        · refine .invoke fun ordinal => endsIn_actionRoutine fun result _ => ?_
          cases result with
          | ok value => exact endsIn_done .value
          | error source => exact failed
    · exact endsIn_done .unknownFunction

/-- Handing it its arguments may pass on what was fetched. -/
theorem endsIn_statementCall_relays {call : SlotExpr}
    (absent : ∀ name ∈ call.features, setting.graph.indexOf? name = none → missing name) :
    (setting.statementCall call).EndsIn reply (Relays missing reply) := by
  unfold statementCall
  split
  · refine endsIn_prefetch_relays
      (fun name member => absent name (SlotExpr.mem_references.1 member))
      (.allValues ?_ fun values _ => endsIn_invokeStatement_relays)
    exact endsIn_exprRoutines fun arg member => endsIn_exprRoutine_relays fun name read =>
      absent name (SlotExpr.mem_featuresOfAll.2 ⟨arg, member, read⟩)
  · exact endsIn_exprRoutine_relays absent

/-- So may its condition. -/
theorem endsIn_statementRoutine_relays {condition : Option SlotExpr} {call : SlotExpr}
    (absent : ∀ body ∈ condition.toList ++ [call], ∀ name ∈ body.features,
      setting.graph.indexOf? name = none → missing name) :
    (setting.statementRoutine name condition call).EndsIn reply (Relays missing reply) := by
  have runs : (setting.statementCall call).EndsIn reply (Relays missing reply) :=
    endsIn_statementCall_relays (absent call (List.mem_append_right _ List.mem_cons_self))
  unfold statementRoutine
  split
  · exact endsIn_done .missingManipulator
  · split
    · exact runs
    · have guard := absent _ (List.mem_append_left _ List.mem_cons_self)
      refine endsIn_prefetch_relays
        (fun name member => guard name (SlotExpr.mem_references.1 member))
        (.value (endsIn_exprRoutine_relays guard) fun value => ?_)
      split
      · exact runs
      · exact endsIn_done .value

/-- **What computing a slot ends in** is an outcome of its own, or one that it has fetched. It
misses only names that are written in it. -/
theorem endsIn_slotRoutine_relays {index : Nat} :
    (setting.slotRoutine index).EndsIn reply (Relays (setting.Misses index) reply) := by
  unfold slotRoutine
  cases found : setting.graph.slots[index]? with
  | none => exact endsIn_done .value
  | some slot =>
    have absent : ∀ body ∈ slot.expressions, ∀ name ∈ body.features,
        setting.graph.indexOf? name = none → setting.Misses index name :=
      fun body inside name read none => ⟨none, slot, found, .inr ⟨body, inside, read⟩⟩
    unfold Slot.expressions at absent
    dsimp only
    split
    · exact endsIn_done .value
    · rename_i kind
      rw [kind] at absent
      exact endsIn_prefetch_relays (fun name listed none => ⟨none, slot, found, .inl listed⟩)
        (endsIn_exprRoutine_relays (absent _ List.mem_cons_self))
    · rename_i kind
      rw [kind] at absent
      exact endsIn_statementRoutine_relays absent
    · refine .all (fun child listed => ?_) fun outcomes _ each =>
        .done (groupOutcome_of_forall (.inl .value) each)
      obtain ⟨dep, -, rfl⟩ := List.mem_map.1 listed
      exact endsIn_fetch

end Setting

end RuleGraph
