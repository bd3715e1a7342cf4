import RuleGraph.Proofs.Routine.Bound

/-! # Regular outcomes

What computing a slot may come to if nothing is wrong with the graph and its functions: a value, an
error that a function has raised itself, or an error that says that time is over or that there is no
manipulator.

* **`Setting.Regular`** — these outcomes.
* **`Setting.isReady_of_isLowered`** — all calls in the slots of a compiled graph are bound.
* **`Setting.endsIn_slotRoutine`** — computing a slot of a compiled graph ends in a regular outcome,
  if what it depends on does.
-/

namespace RuleGraph

namespace Setting

open Routine

/-- A regular outcome. -/
inductive Regular (setting : Setting) : Outcome → Prop where
  /-- A value. -/
  | value {value} : Regular setting (.ok value)
  /-- The body of a function has raised an error. -/
  | failed {name entry source} (bound : setting.executable.function? name = some entry)
    (raises : setting.Raises entry source) :
    Regular setting (.error (.functionFailed entry.qualifiedName source))
  /-- The time for computing features is limited, and it is over. -/
  | late {timeout} (index) (limited : setting.featureTimeout = some timeout) :
    Regular setting (.error (.featureTimeout (setting.graph.name index) timeout))
  /-- A statement has no manipulator. -/
  | unhandled {name} (missing : setting.hasManipulator = false) :
    Regular setting (.error (.missingManipulator name))

variable {setting : Setting} {reply : Nat → Outcome → Prop}

/-- Bound calls end in regular outcomes. -/
theorem admits_regular : setting.Admits setting.Regular where
  value _ := .value
  failed bound raises := .failed bound raises
  unhandled _ missing := .unhandled missing

/-! ## Slots of a compiled graph -/

variable {graph : Graph} {scope : Scope} {config : EngineConfig} {slot : Slot} {index : Nat}

/-- A call that was checked when the program was compiled is ready. -/
theorem ready_of_approves {kind : Entry → Prop} {function : String} {args : List SlotExpr}
    (fixed : setting.executable = .ofGraph graph scope config)
    (plain : scope.catalog.HasPlainPackages)
    (called : function ∈ Executable.calledNames graph)
    (approves : scope.Approves kind function args) :
    setting.Ready kind (function, args.length) := by
  obtain ⟨name, entry, found, rfl, isKind, accepts⟩ := approves
  refine ⟨entry, ?_, isKind, ?_⟩
  · rw [fixed]
    exact Executable.function?_ofGraph called (scope.lookup_qualifiedName plain found)
  · rw [← SlotExpr.length_toExprs]
    exact Entry.arityError?_eq_none accepts

/-- All calls in a checked expression of a slot are ready. -/
theorem ready_of_isChecked {body : SlotExpr}
    (fixed : setting.executable = .ofGraph graph scope config)
    (plain : scope.catalog.HasPlainPackages)
    (called : ∀ call ∈ body.calls, call.1 ∈ Executable.calledNames graph)
    (checked : body.IsChecked scope) : ∀ call ∈ body.calls, setting.Ready Entry.IsValue call := by
  intro call member
  obtain ⟨args, site, length⟩ := SlotExpr.mem_calls_iff.1 member
  have ready := ready_of_approves fixed plain (called call member) (checked call.1 args site)
  rwa [length] at ready

/-- Every call in a slot is ready: the one of a statement itself is bound to a statement, and all
others are bound to functions that compute values. -/
def IsReady (setting : Setting) (slot : Slot) : Prop :=
  match slot.kind with
  | .input | .group => True
  | .feature body => ∀ call ∈ body.calls, setting.Ready Entry.IsValue call
  | .statement _ condition call =>
    (∀ body ∈ condition, ∀ call ∈ body.calls, setting.Ready Entry.IsValue call) ∧
      ∃ function args, call = .call function args ∧
        setting.Ready Entry.IsStatement (function, args.length) ∧
        ∀ arg ∈ args, ∀ call ∈ arg.calls, setting.Ready Entry.IsValue call

/-- **Every call in a slot of a compiled graph is ready.** -/
theorem isReady_of_isLowered (fixed : setting.executable = .ofGraph graph scope config)
    (plain : scope.catalog.HasPlainPackages) (member : slot ∈ graph.slots)
    (lowered : slot.IsLowered scope) : setting.IsReady slot := by
  have called : ∀ body ∈ slot.expressions, ∀ call ∈ body.calls,
      call.1 ∈ Executable.calledNames graph :=
    fun body inside call called => Executable.mem_calledNames member inside called
  cases lowered with
  | input | group => exact trivial
  | feature lowers =>
    exact ready_of_isChecked fixed plain (called _ List.mem_cons_self) lowers.isChecked
  | @statement name feature condition function args entry run bodies holds known kind accepts
      each =>
    have own : SlotExpr.call entry.qualifiedName bodies ∈ (Slot.statement name feature condition
        (.call entry.qualifiedName bodies)).expressions :=
      List.mem_append_right _ List.mem_cons_self
    refine ⟨fun body same => ?_, _, _, rfl, ?_, fun arg listed => ?_⟩
    · obtain ⟨item, lowers⟩ := holds body same
      refine ready_of_isChecked fixed plain (called body ?_) lowers.isChecked
      exact List.mem_append_left _ (Option.mem_toList.2 same)
    · refine ready_of_approves fixed plain (called _ own _ List.mem_cons_self)
        ⟨function, entry, known, rfl, ⟨feature, run, kind⟩, ?_⟩
      exact accepts.congr each.forall₂_admits
    · refine ready_of_isChecked fixed plain (fun call inner => ?_) (each.isChecked arg listed)
      refine called _ own call (List.mem_cons_of_mem _ ?_)
      exact SlotExpr.mem_callsOfAll.2 ⟨arg, listed, inner⟩

/-- A slot whose calls are ready is bound. -/
theorem isBound_of_isReady (ready : setting.IsReady slot) : setting.IsBound slot := by
  obtain ⟨name, kind, deps⟩ := slot
  cases kind with
  | input | group => exact ⟨fun _ called => called.elim, fun _ called => called.elim⟩
  | feature body => exact ⟨ready, fun _ called => called.elim⟩
  | statement feature condition call =>
    obtain ⟨before, function, args, rfl, own, inner⟩ := ready
    refine ⟨fun call called => ?_, fun call called => ?_⟩
    · rcases called with ⟨guard, same, called⟩ | ⟨arg, listed, called⟩
      · exact before guard same call called
      · exact inner arg listed call called
    · cases called
      exact own

/-- **Computing a slot of a compiled graph ends in a regular outcome**, if what it depends on
does. -/
theorem endsIn_slotRoutine (linked : setting.graph.Linked)
    (found : setting.graph.slots[index]? = some slot) (lowered : slot.IsLowered scope)
    (ready : setting.IsReady slot)
    (answers : ∀ target, Leads setting.graph.edges index target → ∀ outcome, reply target outcome →
      setting.Regular outcome) :
    (setting.slotRoutine index).EndsIn reply setting.Regular := by
  have ahead : setting.AnswersIn reply setting.Regular slot.deps := by
    intro name listed
    obtain ⟨target, place, edge⟩ := Graph.exists_indexOf?_of_mem_deps linked found listed
    rw [fetchNamed, place]
    exact .fetch fun outcome told => .done (answers target edge outcome told)
  refine endsIn_slotRoutine_of_isBound admits_regular found (isBound_of_isReady ready) ahead ?_
    answers
  exact fun body inside name read =>
    ahead name (lowered.isConstructed.mem_deps_of_mem_features inside read)

end Setting

end RuleGraph
