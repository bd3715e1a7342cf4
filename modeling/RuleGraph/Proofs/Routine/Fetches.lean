import RuleGraph.Proofs.Graph.Linked
import RuleGraph.Execution.Routine

/-! # What routines fetch

Which slots a routine can ever wait for, whatever it learns on its way.

* **`Routine.Fetches`** — a routine may fetch the slot at a place.
* **`Action.Fetches`**, **`Entry.Fetches`** — a function may fetch a slot by name.
* **`Action.IsPatient`** — a function waits for every slot that it fetches.
* **`Setting.MayFetch`** — the computation of a slot may fetch another one.
* **`Setting.mayFetch_feature`** — for a feature: its dependencies, what its expression names, and
  what its calls fetch.
* **`Setting.lt_size_of_mayFetch`** — only slots of the graph are ever fetched.
-/

namespace RuleGraph

/-- Induction on routines, with a hypothesis for every routine that is run side by side. -/
@[induction_eliminator]
theorem Routine.induction {motive : Routine → Prop}
    (done : ∀ outcome, motive (.done outcome))
    (perform : ∀ effect next, motive next → motive (.perform effect next))
    (invoke : ∀ function args next, (∀ ordinal, motive (next ordinal)) →
      motive (.invoke function args next))
    (pause : ∀ next, motive next → motive (.pause next))
    (sleep : ∀ milliseconds next, motive next → motive (.sleep milliseconds next))
    (fetch : ∀ index next, (∀ outcome, motive (next outcome)) → motive (.fetch index next))
    (within : ∀ milliseconds child next, motive child → (∀ outcome, motive (next outcome)) →
      motive (.within milliseconds child next))
    (join : ∀ breadth children next, (∀ child ∈ children, motive child) →
      (∀ outcomes, motive (next outcomes)) → motive (.join breadth children next))
    (routine : Routine) : motive routine := by
  -- The recursor has a motive of its own for lists of routines: that it holds of all of them.
  refine @Routine.rec motive (fun routines => ∀ child ∈ routines, motive child)
    done perform invoke pause sleep fetch within join ?_ ?_ routine
  · intro child none
    cases none
  · intro head tail onHead onTail child member
    rcases List.mem_cons.1 member with rfl | later
    · exact onHead
    · exact onTail child later

/-- Induction on expressions, with a hypothesis for every item of a list and every argument. -/
@[induction_eliminator]
theorem SlotExpr.induction {motive : SlotExpr → Prop}
    (const : ∀ value, motive (.const value))
    (feature : ∀ name, motive (.feature name))
    (list : ∀ items, (∀ item ∈ items, motive item) → motive (.list items))
    (call : ∀ function args, (∀ arg ∈ args, motive arg) → motive (.call function args))
    (body : SlotExpr) : motive body := by
  -- So does this one for lists of expressions.
  refine @SlotExpr.rec motive (fun items => ∀ item ∈ items, motive item)
    const feature list call ?_ ?_ body
  · intro item none
    cases none
  · intro head tail onHead onTail item member
    rcases List.mem_cons.1 member with rfl | later
    · exact onHead
    · exact onTail item later

namespace Routine

/-- A routine may fetch the slot at a place. -/
inductive Fetches : Routine → Nat → Prop where
  /-- After an effect. -/
  | perform {effect next index} : Fetches next index → Fetches (.perform effect next) index
  /-- After an invocation. -/
  | invoke {function args next ordinal index} :
    Fetches (next ordinal) index → Fetches (.invoke function args next) index
  /-- After a pause. -/
  | pause {next index} : Fetches next index → Fetches (.pause next) index
  /-- After a sleep. -/
  | sleep {milliseconds next index} :
    Fetches next index → Fetches (.sleep milliseconds next) index
  /-- At once. -/
  | here {index next} : Fetches (.fetch index next) index
  /-- After another slot. -/
  | fetch {target next outcome index} :
    Fetches (next outcome) index → Fetches (.fetch target next) index
  /-- In the routine that is run for some time. -/
  | inner {milliseconds child next index} :
    Fetches child index → Fetches (.within milliseconds child next) index
  /-- After it. -/
  | within {milliseconds child next outcome index} :
    Fetches (next outcome) index → Fetches (.within milliseconds child next) index
  /-- In one of the routines run side by side. -/
  | child {breadth children next child index} (member : child ∈ children) :
    Fetches child index → Fetches (.join breadth children next) index
  /-- After all of them. -/
  | join {breadth children next outcomes index} :
    Fetches (next outcomes) index → Fetches (.join breadth children next) index

variable {index : Nat}

/-- The end fetches nothing. -/
@[simp] theorem not_fetches_done {outcome : Outcome} : ¬Fetches (.done outcome) index := by
  intro h
  cases h

/-- Effects fetch nothing. -/
@[simp] theorem fetches_performAll {effects : List Effect} {next : Routine} :
    Fetches (.performAll effects next) index ↔ Fetches next index := by
  induction effects with
  | nil => rfl
  | cons effect rest ih =>
    rw [performAll, ← ih]
    constructor
    · intro h
      cases h
      assumption
    · exact .perform

/-- Routines side by side fetch what each of them does, and then what comes after them. -/
theorem fetches_all {children : List Routine} {next : List Outcome → Routine} :
    Fetches (.all children next) index ↔
      (∃ child ∈ children, Fetches child index) ∨ ∃ outcomes, Fetches (next outcomes) index := by
  constructor
  · intro h
    cases h with
    | child member inner => exact .inl ⟨_, member, inner⟩
    | join later => exact .inr ⟨_, later⟩
  · rintro (⟨child, member, inner⟩ | ⟨outcomes, later⟩)
    · exact .child member inner
    · exact .join later

/-- Going on with values only, too. -/
theorem Fetches.of_allValues {children : List Routine} {next : List Value → Routine}
    (h : Fetches (.allValues children next) index) :
    (∃ child ∈ children, Fetches child index) ∨ ∃ values, Fetches (next values) index := by
  rcases fetches_all.1 h with inner | ⟨outcomes, later⟩
  · exact .inl inner
  · split at later
    · exact .inr ⟨_, later⟩
    · cases later

/-- Going on with one value, too. -/
theorem Fetches.of_value {child : Routine} {next : Value → Routine}
    (h : Fetches (.value child next) index) :
    Fetches child index ∨ ∃ value, Fetches (next value) index := by
  rcases h.of_allValues with ⟨only, member, inner⟩ | ⟨values, later⟩
  · rw [List.mem_singleton] at member
    exact .inl (member ▸ inner)
  · exact .inr ⟨_, later⟩

end Routine

/-! ## What functions fetch -/

/-- The steps of a function may fetch the slot of a name. -/
inductive Action.Fetches {α : Type} : Action α → String → Prop where
  /-- After a pause. -/
  | pause {next name} : Fetches next name → Fetches (.pause next) name
  /-- After a sleep. -/
  | sleep {milliseconds next name} : Fetches next name → Fetches (.sleep milliseconds next) name
  /-- At once. -/
  | here {names next name} (member : name ∈ names) : Fetches (.fetch names next) name
  /-- After other slots. -/
  | fetch {names next outcomes name} :
    Fetches (next outcomes) name → Fetches (.fetch names next) name
  /-- At once, for some time. -/
  | limited {milliseconds name next} : Fetches (.fetchWithin milliseconds name next) name
  /-- After another slot that is fetched for some time. -/
  | fetchWithin {milliseconds target next outcome name} :
    Fetches (next outcome) name → Fetches (.fetchWithin milliseconds target next) name
  /-- After an effect. -/
  | perform {effect next name} : Fetches next name → Fetches (.perform effect next) name

/-- The steps of a function wait for every slot that they fetch. -/
def Action.IsPatient {α : Type} : Action α → Prop
  | .finish _ => True
  | .pause rest => IsPatient rest
  | .sleep _ rest => IsPatient rest
  | .fetch _ rest => ∀ outcomes, IsPatient (rest outcomes)
  | .fetchWithin _ _ _ => False
  | .perform _ rest => IsPatient rest

/-- A function may fetch the slot of a name. -/
def Entry.Fetches (entry : Entry) (name : String) : Prop :=
  match entry.kind with
  | .async body => ∃ invocation args, (body invocation args).Fetches name
  | .statement _ body => ∃ invocation args, (body invocation args).Fetches name
  | .sync _ | .custom _ | .transform _ => False

namespace Setting

variable {setting : Setting} {index : Nat}

/-- Among calls there is one of a function that may fetch the slot at a place. -/
def CallsFetch (setting : Setting) (calls : List (String × Nat)) (index : Nat) : Prop :=
  ∃ call ∈ calls, ∃ entry, setting.executable.function? call.1 = some entry ∧
    ∃ name, entry.Fetches name ∧ setting.graph.indexOf? name = some index

/-- More calls fetch no less. -/
theorem CallsFetch.mono {fewer more : List (String × Nat)} (h : setting.CallsFetch fewer index)
    (sub : fewer ⊆ more) : setting.CallsFetch more index := by
  obtain ⟨call, member, rest⟩ := h
  exact ⟨call, sub member, rest⟩

/-- To fetch by name is to fetch the slot of that name. -/
theorem fetches_fetchNamed {name : String} :
    (setting.fetchNamed name).Fetches index ↔ setting.graph.indexOf? name = some index := by
  unfold fetchNamed
  split
  · rename_i target found
    rw [found, Option.some_inj]
    constructor
    · intro h
      cases h with
      | here => rfl
      | fetch later => cases later
    · rintro rfl
      exact .here
  · rename_i missing
    simp [missing]

/-- Fetching ahead fetches the given names. -/
theorem fetches_of_prefetch {names : List String} {next : Routine}
    (h : (setting.prefetch names next).Fetches index) :
    (∃ name ∈ names, setting.graph.indexOf? name = some index) ∨ next.Fetches index := by
  rcases h.of_allValues with ⟨child, member, inner⟩ | ⟨_, later⟩
  · obtain ⟨name, listed, rfl⟩ := List.mem_map.1 member
    exact .inl ⟨name, listed, fetches_fetchNamed.1 inner⟩
  · exact .inr later

/-- The steps of a function fetch the names that it does. -/
theorem fetches_of_actionRoutine {α : Type} {next : Except FunctionError α → Routine}
    {action : Action α} (h : (setting.actionRoutine next action).Fetches index) :
    (∃ name, action.Fetches name ∧ setting.graph.indexOf? name = some index) ∨
      ∃ result, (next result).Fetches index := by
  induction action with
  | finish result => exact .inr ⟨result, h⟩
  | pause rest ih =>
    cases h with
    | pause inner =>
      exact (ih inner).imp_left fun ⟨name, fetched, found⟩ => ⟨name, .pause fetched, found⟩
  | sleep milliseconds rest ih =>
    cases h with
    | sleep inner =>
      exact (ih inner).imp_left fun ⟨name, fetched, found⟩ => ⟨name, .sleep fetched, found⟩
  | perform effect rest ih =>
    cases h with
    | perform inner =>
      exact (ih inner).imp_left fun ⟨name, fetched, found⟩ => ⟨name, .perform fetched, found⟩
  | fetch names rest ih =>
    rcases Routine.fetches_all.1 h with ⟨child, member, inner⟩ | ⟨outcomes, later⟩
    · obtain ⟨name, listed, rfl⟩ := List.mem_map.1 member
      exact .inl ⟨name, .here listed, fetches_fetchNamed.1 inner⟩
    · exact (ih outcomes later).imp_left fun ⟨name, fetched, found⟩ =>
        ⟨name, .fetch fetched, found⟩
  | fetchWithin milliseconds name rest ih =>
    cases h with
    | inner fetched => exact .inl ⟨name, .limited, fetches_fetchNamed.1 fetched⟩
    | within later =>
      exact (ih _ later).imp_left fun ⟨name, fetched, found⟩ => ⟨name, .fetchWithin fetched, found⟩

/-- Calling a function fetches what the function does, and only some functions take their time. -/
theorem fetches_of_callRoutine {name : String} {args : List Value}
    (h : (setting.callRoutine name args).Fetches index) :
    ∃ entry body, setting.executable.function? name = some entry ∧ entry.kind = .async body ∧
      ∃ invocation args feature, (body invocation args).Fetches feature ∧
        setting.graph.indexOf? feature = some index := by
  unfold callRoutine at h
  split at h
  · cases h
  · rename_i entry bound
    split at h
    · cases h
    · split at h
      · cases h
      · unfold invokeValue at h
        split at h
        · cases h with
          | invoke later => simp at later
        · rename_i body kind
          refine ⟨entry, body, bound, kind, ?_⟩
          cases h with
          | invoke later =>
            rcases fetches_of_actionRoutine later with ⟨feature, fetched, found⟩ | ⟨result, ended⟩
            · exact ⟨_, _, feature, fetched, found⟩
            · cases ended
        -- Functions of any other kind are not called here.
        all_goals cases h

/-- Evaluating several expressions is evaluating each one. -/
theorem exprRoutines_eq_map {bodies : List SlotExpr} :
    setting.exprRoutines bodies = bodies.map setting.exprRoutine := by
  induction bodies with
  | nil => rw [exprRoutines, List.map_nil]
  | cons body rest ih => rw [exprRoutines, ih, List.map_cons]

end Setting

namespace SlotExpr

/-- What several expressions name is what each of them does. -/
theorem mem_featuresOfAll {bodies : List SlotExpr} {name : String} :
    name ∈ featuresOfAll bodies ↔ ∃ body ∈ bodies, name ∈ body.features := by
  induction bodies with
  | nil => simp [featuresOfAll]
  | cons body rest ih => simp [featuresOfAll, ih]

/-- The calls in several expressions are those in each of them. -/
theorem mem_callsOfAll {bodies : List SlotExpr} {call : String × Nat} :
    call ∈ callsOfAll bodies ↔ ∃ body ∈ bodies, call ∈ body.calls := by
  induction bodies with
  | nil => simp [callsOfAll]
  | cons body rest ih => simp [callsOfAll, ih]

/-- Taking each member once loses none and adds none. -/
theorem mem_distinct {names : List String} {name : String} :
    name ∈ distinct names ↔ name ∈ names := by
  -- The fold adds to the names seen so far.
  have onto : ∀ seen : List String,
      name ∈ names.foldl (fun seen name => if name ∈ seen then seen else seen ++ [name]) seen ↔
        name ∈ seen ∨ name ∈ names := by
    induction names with
    | nil => simp
    | cons head rest ih =>
      intro seen
      rw [List.foldl_cons, ih]
      split
      · rename_i old
        constructor
        · rintro (h | h)
          · exact .inl h
          · exact .inr (List.mem_cons_of_mem _ h)
        · rintro (h | h)
          · exact .inl h
          · rcases List.mem_cons.1 h with rfl | later
            · exact .inl old
            · exact .inr later
      · simp [or_assoc]
  simpa [distinct] using onto []

/-- References are the names read. -/
theorem mem_references {body : SlotExpr} {name : String} :
    name ∈ body.references ↔ name ∈ body.features :=
  mem_distinct

end SlotExpr

namespace Setting

variable {setting : Setting} {index : Nat}

/-- Among calls there is one that may fetch the slot at a place when it is evaluated. -/
def EvaluationFetches (setting : Setting) (calls : List (String × Nat)) (index : Nat) : Prop :=
  ∃ call ∈ calls, ∃ args, (setting.callRoutine call.1 args).Fetches index

/-- What is fetched when a call is evaluated, its function fetches. -/
theorem EvaluationFetches.callsFetch {calls : List (String × Nat)}
    (h : setting.EvaluationFetches calls index) : setting.CallsFetch calls index := by
  obtain ⟨call, member, args, fetched⟩ := h
  obtain ⟨entry, body, bound, kind, _, _, feature, inner, found⟩ := fetches_of_callRoutine fetched
  refine ⟨call, member, entry, bound, feature, ?_, found⟩
  rw [Entry.Fetches, kind]
  exact ⟨_, _, inner⟩

/-- Evaluating an expression fetches the slots that it names, and what its calls fetch. -/
theorem fetches_of_exprRoutine {body : SlotExpr} (h : (setting.exprRoutine body).Fetches index) :
    (∃ name ∈ body.features, setting.graph.indexOf? name = some index) ∨
      setting.EvaluationFetches body.calls index := by
  induction body with
  | const value =>
    rw [exprRoutine] at h
    cases h
  | feature name =>
    rw [exprRoutine] at h
    exact .inl ⟨name, by simp [SlotExpr.features], fetches_fetchNamed.1 h⟩
  | list items ih =>
    rw [exprRoutine, exprRoutines_eq_map] at h
    rcases h.of_allValues with ⟨child, member, inner⟩ | ⟨_, later⟩
    · obtain ⟨item, listed, rfl⟩ := List.mem_map.1 member
      rcases ih item listed inner with ⟨name, named, found⟩ | ⟨call, called, rest⟩
      · exact .inl ⟨name, SlotExpr.mem_featuresOfAll.2 ⟨item, listed, named⟩, found⟩
      · exact .inr ⟨call, SlotExpr.mem_callsOfAll.2 ⟨item, listed, called⟩, rest⟩
    · cases later
  | call function args ih =>
    rw [exprRoutine, exprRoutines_eq_map] at h
    rcases h.of_allValues with ⟨child, member, inner⟩ | ⟨values, later⟩
    · obtain ⟨arg, listed, rfl⟩ := List.mem_map.1 member
      rcases ih arg listed inner with ⟨name, named, found⟩ | ⟨call, called, rest⟩
      · exact .inl ⟨name, SlotExpr.mem_featuresOfAll.2 ⟨arg, listed, named⟩, found⟩
      · exact .inr ⟨call,
          List.mem_cons_of_mem _ (SlotExpr.mem_callsOfAll.2 ⟨arg, listed, called⟩), rest⟩
    · exact .inr ⟨(function, args.length), List.mem_cons_self, values, later⟩

/-- Running a statement fetches what its function does. -/
theorem fetches_of_invokeStatement {name : String} {args : List Value}
    (h : (setting.invokeStatement name args).Fetches index) :
    ∃ entry, setting.executable.function? name = some entry ∧
      ∃ feature, entry.Fetches feature ∧ setting.graph.indexOf? feature = some index := by
  unfold invokeStatement at h
  split at h
  · cases h
  · rename_i entry bound
    refine ⟨entry, bound, ?_⟩
    split at h
    · rename_i body kind
      split at h
      · cases h with
        | perform later => cases later
      · rw [Routine.fetches_performAll] at h
        split at h
        · cases h
        · cases h with
          | invoke later =>
            rcases fetches_of_actionRoutine later with ⟨feature, fetched, found⟩ | ⟨result, ended⟩
            · refine ⟨feature, ?_, found⟩
              rw [Entry.Fetches, kind]
              exact ⟨_, _, fetched⟩
            · split at ended
              · cases ended
              · cases ended with
                | perform later => cases later
    · cases h

/-- Handing a statement its arguments fetches the slots that the call names, and what the functions
called fetch. -/
theorem fetches_of_statementCall {call : SlotExpr}
    (h : (setting.statementCall call).Fetches index) :
    (∃ name ∈ call.features, setting.graph.indexOf? name = some index) ∨
      setting.CallsFetch call.calls index := by
  unfold statementCall at h
  split at h
  · rename_i function args
    rcases fetches_of_prefetch h with ⟨name, listed, found⟩ | later
    · exact .inl ⟨name, SlotExpr.mem_references.1 listed, found⟩
    · rw [exprRoutines_eq_map] at later
      rcases later.of_allValues with ⟨child, member, inner⟩ | ⟨_, later⟩
      · obtain ⟨arg, listed, rfl⟩ := List.mem_map.1 member
        rcases fetches_of_exprRoutine inner with ⟨name, named, found⟩ | called
        · exact .inl ⟨name, SlotExpr.mem_featuresOfAll.2 ⟨arg, listed, named⟩, found⟩
        · refine .inr (called.callsFetch.mono fun call member => ?_)
          exact List.mem_cons_of_mem _ (SlotExpr.mem_callsOfAll.2 ⟨arg, listed, member⟩)
      · exact .inr ⟨(function, args.length), List.mem_cons_self, fetches_of_invokeStatement later⟩
  · exact (fetches_of_exprRoutine h).imp_right EvaluationFetches.callsFetch

/-! ## What slots fetch -/

/-- The computation of a slot may fetch another one. -/
def MayFetch (setting : Setting) (slot target : Nat) : Prop :=
  (setting.slotRoutine slot).Fetches target

/-- A feature fetches its dependencies, what its expression names, and what its calls fetch. -/
theorem mayFetch_feature {slot : Nat} {feature : Slot} {body : SlotExpr}
    (found : setting.graph.slots[slot]? = some feature) (kind : feature.kind = .feature body)
    (h : setting.MayFetch slot index) :
    (∃ name ∈ feature.deps ++ body.features, setting.graph.indexOf? name = some index) ∨
      setting.EvaluationFetches body.calls index := by
  rw [MayFetch, slotRoutine, found] at h
  simp only [kind] at h
  rcases fetches_of_prefetch h with ⟨name, listed, place⟩ | later
  · exact .inl ⟨name, List.mem_append_left _ listed, place⟩
  · refine (fetches_of_exprRoutine later).imp_left fun ⟨name, named, place⟩ => ?_
    exact ⟨name, List.mem_append_right _ named, place⟩

/-- An input fetches nothing. -/
theorem not_mayFetch_input {slot : Nat} {input : Slot}
    (found : setting.graph.slots[slot]? = some input) (kind : input.kind = .input) :
    ¬setting.MayFetch slot index := by
  intro h
  rw [MayFetch, slotRoutine, found] at h
  simp only [kind] at h
  cases h

/-- Whatever is fetched is fetched by name, but for the statements of a statement feature. -/
theorem named_or_member_of_mayFetch {slot : Nat} (h : setting.MayFetch slot index) :
    (∃ name, setting.graph.indexOf? name = some index) ∨
      index ∈ setting.graph.dependencies slot := by
  -- Functions fetch by name, whatever calls them.
  have ofCalls : ∀ {calls}, setting.CallsFetch calls index →
      ∃ name, setting.graph.indexOf? name = some index :=
    fun ⟨_, _, _, _, name, _, found⟩ => ⟨name, found⟩
  have ofNames : ∀ {names : List String} {calls},
      (∃ name ∈ names, setting.graph.indexOf? name = some index) ∨
        setting.CallsFetch calls index → ∃ name, setting.graph.indexOf? name = some index :=
    fun h => h.elim (fun ⟨name, _, found⟩ => ⟨name, found⟩) ofCalls
  have ofExpr := fun {body} (h : (setting.exprRoutine body).Fetches index) =>
    (fetches_of_exprRoutine h).imp_right EvaluationFetches.callsFetch
  rw [MayFetch, slotRoutine] at h
  split at h
  · cases h
  · split at h
    · cases h
    · rcases fetches_of_prefetch h with ⟨name, _, found⟩ | later
      · exact .inl ⟨name, found⟩
      · exact .inl (ofNames (ofExpr later))
    · unfold statementRoutine at h
      split at h
      · cases h
      · split at h
        · exact .inl (ofNames (fetches_of_statementCall h))
        · rcases fetches_of_prefetch h with ⟨name, _, found⟩ | later
          · exact .inl ⟨name, found⟩
          · rcases later.of_value with inner | ⟨value, later⟩
            · exact .inl (ofNames (ofExpr inner))
            · split at later
              · exact .inl (ofNames (fetches_of_statementCall later))
              · cases later
    · rcases Routine.fetches_all.1 h with ⟨child, member, inner⟩ | ⟨_, later⟩
      · obtain ⟨dep, listed, rfl⟩ := List.mem_map.1 member
        cases inner with
        | here => exact .inr listed
        | fetch later => cases later
      · cases later

/-- Only slots of the graph are ever fetched. -/
theorem lt_size_of_mayFetch (linked : setting.graph.Linked) {slot : Nat}
    (h : setting.MayFetch slot index) : index < setting.graph.size := by
  rcases named_or_member_of_mayFetch h with ⟨name, found⟩ | member
  · exact Graph.lt_size_of_indexOf? found
  · exact Graph.lt_size_of_mem_dependencies linked member

end Setting

end RuleGraph
