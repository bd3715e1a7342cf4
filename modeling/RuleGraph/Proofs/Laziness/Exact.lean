import Mathlib
import RuleGraph.Proofs.Laziness.Verdict
import RuleGraph.Proofs.Sequence.Order

/-! # What is computed for a request

Nothing is computed ahead of time. A request for a feature has the feature computed and all that it
depends on, and a request for a statement whose condition does not hold has the statement resolved
and computed what the condition needs.

* **`State.AddsExactly`** — exactly the slots of a region are kept besides those that were.
* **`Execution.addsExactly_of_feature`** — what is computed for a feature.
* **`Execution.addsExactly_of_fails`** — what is computed for a statement that is passed over.
* **`Setting.PassesOver`** — what happens to such a statement.
* **`Execution.evaluates_lazily`** — both, for compiled programs.
-/

namespace RuleGraph

open Relation

/-- Besides the slots that were kept before exactly those of a region are kept. What was kept stays
as it was, and so does everything outside of the region. -/
structure State.AddsExactly (before : State) (region : Nat → Prop) (after : State) : Prop where
  /-- These slots are kept. -/
  keeps : ∀ target, after.Keeps target ↔ before.Keeps target ∨ region target
  /-- What was kept stays. -/
  kept : ∀ target, before.Keeps target → after.cell target = before.cell target
  /-- So does what is outside of the region. -/
  rest : ∀ target, ¬region target → after.cell target = before.cell target

/-- What functions do that compute values invokes no statement, where keys tell functions apart. -/
theorem Setting.IsValueDeed.hasStatement {setting : Setting}
    (distinct : ∀ {bound}, bound ∈ setting.executable.functions →
      ∀ {bound'}, bound' ∈ setting.executable.functions → bound.2.key = bound'.2.key →
        bound.2 = bound'.2) {function : EntryKey} {args : List Value}
    (deed : setting.IsValueDeed (.invoke function args)) :
    setting.executable.hasStatement function = false := by
  cases deed with
  | @invoke name entry _ bound value =>
    obtain ⟨before, after, same, -⟩ := List.lookup_eq_some_iff.1 bound
    have listed : (name, entry) ∈ setting.executable.functions :=
      same ▸ List.mem_append_right _ List.mem_cons_self
    rw [Executable.hasStatement, List.any_eq_false]
    intro other listed' statement
    rw [Bool.and_eq_true, decide_eq_true_eq] at statement
    rw [distinct listed' listed statement.2, value] at statement
    cases statement.1

namespace Execution

variable {execution execution' : Execution} {trace : Trace} {session : Session} {index : Nat}
  {slot : Slot} {outcome verdict : Outcome} {name feature : String} {condition call : SlotExpr}
  {passes : Nat}

/-- **What a request adds**: a region outside of which nothing changes, if all of it is kept in
the end. -/
theorem addsExactly_of_changes (silent : execution.IsSilent)
    (reaches : execution.Reaches trace session)
    (fetched : { execution with state := session.state }.fetch passes name =
      (some outcome, execution')) {region : Nat → Prop}
    (rest : ∀ target, ¬region target → execution'.state.cell target = session.state.cell target)
    (all : ∀ {trace session'}, execution.Reaches trace session' →
      session'.state.Answers execution.setting name outcome →
      ∀ target, region target → session'.state.Keeps target) :
    session.state.AddsExactly region execution'.state := by
  obtain ⟨trace', session', leads, same, answers⟩ :=
    reaches.leads_of_fetch silent.started fetched
  have kept : ∀ target, session.state.Keeps target →
      execution'.state.cell target = session.state.cell target := by
    rintro target ⟨outcome, kept⟩
    obtain ⟨since, settled⟩ := State.outcome?_eq_some_iff.1 kept
    rw [← same, leads.cell_of_settled silent.started reaches settled, settled]
  have keeps_iff : ∀ {target},
      execution'.state.cell target = session.state.cell target →
        (execution'.state.Keeps target ↔ session.state.Keeps target) := by
    intro target same
    rw [State.Keeps, State.Keeps, State.outcome?, State.outcome?, same]
  refine ⟨fun target => ⟨fun keeps => ?_, ?_⟩, kept, rest⟩
  · by_cases inside : region target
    · exact .inr inside
    · exact .inl ((keeps_iff (rest target inside)).1 keeps)
  · rintro (keeps | inside)
    · exact (keeps_iff (kept target keeps)).2 keeps
    · exact same ▸ all (reaches.leads leads) answers target inside

/-- A slot whose request was answered is kept. -/
theorem IsSilent.keeps_of_answers (silent : execution.IsSilent)
    (place : execution.setting.graph.indexOf? name = some index)
    (answers : session.state.Answers execution.setting name outcome) :
    session.state.Keeps index := by
  rcases (State.answers_iff place).1 answers with kept | refused
  · exact ⟨outcome, kept⟩
  · exact absurd refused (silent.not_refuses (Graph.lt_size_of_indexOf? place) nofun)

/-- Nothing happens when a slot that is kept is requested again. -/
theorem elapses_of_keeps (silent : execution.IsSilent)
    (place : execution.setting.graph.indexOf? name = some index)
    (keeps : session.state.Keeps index)
    (fetched : { execution with state := session.state }.fetch passes name =
      (some outcome, execution')) : session.state.Elapses execution'.state := by
  obtain ⟨kept, known⟩ := keeps
  obtain ⟨_, runs⟩ := runs_of_fetch_place silent.started.linked place fetched
  rcases runs.first with ⟨same, -⟩ | ⟨asked, _, _, _, _, before, -, step, rest⟩
  · cases same
  -- The slot is still kept when it is asked for.
  have known' : asked.outcome? index = some kept := by
    rw [State.outcome?, State.cell_congr before.cells]
    exact known
  cases step with
  | reuse => exact before.trans (Thread.of_runs_done rest).2
  | refuse unknown | await unknown => simp [known'] at unknown

/-- **A request for a feature adds exactly the feature and all that it depends on.** -/
theorem addsExactly_of_feature (silent : execution.IsSilent)
    (reaches : execution.Reaches trace session)
    (place : execution.setting.graph.indexOf? name = some index)
    (plain : execution.setting.graph.IsPlain index)
    (fetched : { execution with state := session.state }.fetch passes name =
      (some outcome, execution')) :
    session.state.AddsExactly (ReflTransGen (Leads execution.setting.graph.edges) index)
      execution'.state := by
  obtain ⟨_, runs⟩ := runs_of_fetch_place silent.started.linked place fetched
  refine addsExactly_of_changes silent reaches fetched ?_ fun later answers target way =>
    later.keeps_of_reaches silent plain (silent.keeps_of_answers place answers) way
  -- What the feature depends on keeps to what it depends on.
  have closed : ∀ target, ReflTransGen (Leads execution.setting.graph.edges) index target →
      (execution.setting.slotRoutine target).KeepsTo
        (ReflTransGen (Leads execution.setting.graph.edges) index)
        execution.setting.IsValueDeed := by
    intro target way
    refine silent.keepsTo_of_isPlain ?_ fun next edge => way.tail edge
    induction way with
    | refl => exact plain
    | tail _ edge ih => exact ih.of_leads silent.started.linked edge
  exact (runs.changesWithin closed (.resting (.fetch .refl fun _ => .done))).cells

/-- **A request for a statement whose condition does not hold adds exactly the statement and what
the condition needs.** -/
theorem addsExactly_of_fails (silent : execution.IsSilent)
    (given : execution.setting.hasManipulator = true) (reaches : execution.Reaches trace session)
    (place : execution.setting.graph.indexOf? name = some index)
    (found : execution.setting.graph.slots[index]? = some slot)
    (kind : slot.kind = .statement feature (some condition) call)
    (fetched : { execution with state := session.state }.fetch passes name =
      (some outcome, execution'))
    (changes : session.state.ChangesWithin
      (fun target => target = index ∨ execution.setting.graph.Needs condition target)
      execution.setting.IsValueDeed execution'.state) :
    session.state.AddsExactly
      (fun target => target = index ∨ execution.setting.graph.Needs condition target)
      execution'.state := by
  have listed := List.mem_of_getElem? found
  have own : condition ∈ slot.expressions := by simp [Slot.expressions, kind]
  refine addsExactly_of_changes silent reaches fetched changes.cells fun later answers target => ?_
  have keeps := silent.keeps_of_answers place answers
  rintro (rfl | ⟨name, named, first, there, way⟩)
  · exact keeps
  · have plain := silent.isPlain_of_needs listed own ⟨name, named, first, there, .refl⟩
    exact later.keeps_of_reaches silent plain
      (later.keeps_of_condition silent given found kind keeps named there) way

end Execution

/-! ## Statements that are passed over -/

/-- Nothing is computed for a statement at a place but the statement itself and what its condition
needs, no statement is invoked for it, and no key is tracked but by functions that compute values
and do so themselves. -/
structure Setting.PassesOver (setting : Setting) (index : Nat) (condition : SlotExpr)
    (before after : State) : Prop where
  /-- The statement is kept, and what the condition needs. -/
  adds : before.AddsExactly
    (fun target => target = index ∨ setting.graph.Needs condition target) after
  /-- No statement is invoked. -/
  invoked : setting.executable.statementInvocations after.invocations =
    setting.executable.statementInvocations before.invocations
  /-- Tracking is not the statement's. -/
  tracked : ∃ keys, after.tracked = before.tracked ++ keys ∧
    ∀ key ∈ keys, setting.IsValueDeed (.perform (.track key))

/-- No key is tracked for it if no function that computes values tracks any. -/
theorem Setting.PassesOver.tracked_eq {setting : Setting} {index : Nat} {condition : SlotExpr}
    {before after : State} (passes : setting.PassesOver index condition before after)
    (none : ∀ key, ¬setting.IsValueDeed (.perform (.track key))) :
    after.tracked = before.tracked := by
  obtain ⟨keys, tracked, all⟩ := passes.tracked
  rw [tracked, List.eq_nil_iff_forall_not_mem.2 fun key member => none key (all key member),
    List.append_nil]

/-- What functions do that compute values changes no invocations of statements. -/
theorem State.ChangesWithin.statementInvocations_eq {setting : Setting} {region : Nat → Prop}
    {before after : State} (changes : before.ChangesWithin region setting.IsValueDeed after)
    (distinct : ∀ {bound}, bound ∈ setting.executable.functions →
      ∀ {bound'}, bound' ∈ setting.executable.functions → bound.2.key = bound'.2.key →
        bound.2 = bound'.2) :
    setting.executable.statementInvocations after.invocations =
      setting.executable.statementInvocations before.invocations := by
  obtain ⟨records, same, all⟩ := changes.invoked
  have none : setting.executable.statementInvocations records = [] := by
    refine List.filter_eq_nil_iff.2 fun record member => ?_
    rw [(all record member).hasStatement distinct]
    exact Bool.false_ne_true
  rw [Executable.statementInvocations, same, List.filter_append]
  exact (congrArg _ none).trans (List.append_nil _)

namespace Execution

variable {scope : Scope} {limit rounds : Nat} {program : Program} {graph : Graph}
  {config : EngineConfig} {options : ExecuteOptions} {history : History}
  {execution execution' : Execution} {trace : Trace} {session : Session} {index passes : Nat}
  {slot : Slot} {outcome : Outcome} {name : String}

/-- Executions of compiled programs, with functions that fetch nothing and without a deadline. -/
theorem isSilent_of_execute
    (compiled : compile? scope limit rounds program = .ok (some graph))
    (reads : graph.ReadsValues)
    (begun : (Executable.ofGraph graph scope config).execute options history = .ok execution)
    (silent : (Executable.ofGraph graph scope config).IsSilent)
    (timeless : options.featureTimeout = none ∧ config.featureTimeout = none) :
    execution.IsSilent := by
  obtain ⟨built, constructed, -⟩ := isCompiled_of_compile? compiled
  have isGraph := graph_of_execute begun
  obtain ⟨same, -, -, -, -, -, -, timeout⟩ := eq_of_execute begun
  refine ⟨started_of_execute built begun, ?_, ?_, ?_, ?_, ?_⟩
  · exact isGraph ▸ constructed
  · exact isGraph ▸ fun index bound => grounded_of_compile? compiled bound
  · exact isGraph ▸ reads
  · exact same ▸ silent
  · rw [timeout, timeless.1]
    exact timeless.2

/-- **Evaluation is lazy, and exactly so.** In an execution of a compiled program in which no
expression names a statement or a statement feature, with functions that fetch nothing, a
manipulator and no deadline, and once earlier requests are answered: when a feature that the host
requests is answered, with a value or with an error, exactly the feature and all that it depends on
are kept besides what was. When a statement under a condition is answered, it has been resolved
under a verdict on its condition, unless it was kept already and nothing happens, and if the verdict
does not hold the statement is passed over. -/
theorem evaluates_lazily (reachable : scope.catalog.Reachable)
    (compiled : compile? scope limit rounds program = .ok (some graph))
    (reads : graph.ReadsValues)
    (begun : (Executable.ofGraph graph scope config).execute options history = .ok execution)
    (silent : (Executable.ofGraph graph scope config).IsSilent)
    (handled : options.manipulator.isSome = true)
    (timeless : options.featureTimeout = none ∧ config.featureTimeout = none)
    (reaches : execution.Reaches trace session) (quiet : session.IsQuiet)
    (place : graph.indexOf? name = some index) (found : graph.slots[index]? = some slot)
    (fetched : { execution with state := session.state }.fetch passes name =
      (some outcome, execution')) :
    (slot.isStatement = false →
      session.state.AddsExactly (ReflTransGen (Leads graph.edges) index) execution'.state) ∧
    ∀ feature condition call, slot.kind = .statement feature (some condition) call →
      (session.state.Keeps index → session.state.Elapses execution'.state) ∧
      (¬session.state.Keeps index →
        (∃ verdict, execution.setting.Resolves index condition call verdict session.state
          execution'.state) ∧
        ∀ verdict, execution.setting.Resolves index condition call verdict session.state
            execution'.state → FailsToHold verdict →
          execution.setting.PassesOver index condition session.state execution'.state) := by
  have isSilent := isSilent_of_execute compiled reads begun silent timeless
  obtain ⟨same, hasManipulator, -, -, manipulator, -⟩ := eq_of_execute begun
  have given : execution.setting.hasManipulator = true := by
    rw [hasManipulator, manipulator, handled]
  rw [← graph_of_execute begun] at place found ⊢
  refine ⟨fun value => addsExactly_of_feature isSilent reaches place
    (isSilent.isPlain found value) fetched, fun feature condition call kind =>
    ⟨fun keeps => elapses_of_keeps isSilent place keeps fetched, fun fresh =>
    ⟨exists_resolves isSilent given reaches quiet place found kind fresh fetched,
    fun verdict resolves fails => ?_⟩⟩⟩
  have distinct {bound} (listed : bound ∈ execution.setting.executable.functions) {bound'}
      (listed' : bound' ∈ execution.setting.executable.functions) :
      bound.2.key = bound'.2.key → bound.2 = bound'.2 := by
    rw [same] at listed listed'
    exact reachable.eq_of_key_eq listed listed'
  have own : condition ∈ slot.expressions := by simp [Slot.expressions, kind]
  have changes := resolves.changesWithin isSilent.silent
    (fun target => isSilent.keepsTo_of_needs (List.mem_of_getElem? found) own) fails
  exact ⟨addsExactly_of_fails isSilent given reaches place found kind fetched changes,
    changes.statementInvocations_eq distinct, changes.tracked⟩

end Execution

/-! ## A warning -/

/-- A user, and a statement that is made about users. -/
def Catalog.warning : Catalog where
  entries := [
    .ofRegistration none {
      name := "user", kind := .sync fun _ _ => ([], .ok (.entity ⟨"User", "alice"⟩)) },
    .ofRegistration none {
      name := "warn", kind := .statement "Warnings" fun _ _ => .finish (.ok ()) }]

/-- A host can come to have it. -/
theorem Catalog.reachable_warning : Catalog.warning.Reachable := by
  have user : Catalog.register {} none {
      name := "user", kind := .sync fun _ _ => ([], .ok (.entity ⟨"User", "alice"⟩)) } =
        .ok { entries := Catalog.warning.entries.take 1 } := rfl
  have warn : Catalog.register { entries := Catalog.warning.entries.take 1 } none {
      name := "warn", kind := .statement "Warnings" fun _ _ => .finish (.ok ()) } =
        .ok .warning := rfl
  exact (Catalog.Reachable.empty.register user).register warn

/-- Users are warned of rain. -/
def Program.warning : Program :=
  [.input "Rain", .feature "User" (.call "user" []),
    .rule (some (.feature "Rain")) [.call "warn" [.feature "User"]]]

/-- The graph of this program. -/
def Graph.warning : Graph where
  slots := [
    .input "Rain",
    .feature "User" (.call "user" []),
    .statement "Warnings#0" "Warnings" (some (.feature "Rain")) (.call "warn" [.feature "User"]),
    .group "Warnings" ["Warnings#0"]]
  edges := [[], [], [0, 1], [2]]
  cycles := [none, none, none, none]

/-- No expression in it names a statement. -/
theorem Graph.readsValues_warning : Graph.warning.ReadsValues := by
  intro slot member body inside name named other found
  simp only [Graph.warning, List.mem_cons, List.not_mem_nil, or_false] at member
  rcases member with rfl | rfl | rfl | rfl
  · cases inside
  · cases List.mem_singleton.1 inside
    cases named
  · rcases List.mem_pair.1 inside with rfl | rfl
    · cases List.mem_singleton.1 named
      cases found
      rfl
    · cases List.mem_singleton.1 named
      cases found
      rfl
  · cases inside

/-- The rain and the user depend on nothing. -/
theorem Graph.reflTransGen_leads_warning {index target : Nat} (leaf : index < 2) :
    ReflTransGen (Leads Graph.warning.edges) index target ↔ target = index := by
  refine ⟨fun way => ?_, fun same => same ▸ .refl⟩
  rcases ReflTransGen.cases_head way with same | ⟨next, edge, -⟩
  · exact same.symm
  · match index, leaf with
    | 0, _ | 1, _ => cases edge

/-- The condition of its statement needs the rain only. -/
theorem Graph.needs_rain_iff {target : Nat} :
    Graph.warning.Needs (.feature "Rain") target ↔ target = 0 := by
  constructor
  · rintro ⟨name, named, place, found, way⟩
    rw [SlotExpr.mem_references, SlotExpr.features, List.mem_singleton] at named
    subst named
    cases Option.some_inj.1 found
    exact (reflTransGen_leads_warning Nat.two_pos).1 way
  · rintro rfl
    exact ⟨"Rain", by decide, 0, rfl, .refl⟩

/-- The functions bound in this graph. -/
def Executable.warning : Executable := .ofGraph .warning ⟨.warning, none⟩ {}

/-- They are those of the catalog. -/
theorem Executable.mem_of_function?_warning {name : String} {entry : Entry}
    (bound : Executable.warning.function? name = some entry) :
    entry ∈ Catalog.warning.entries :=
  Scope.mem_of_lookup (lookup_of_function? bound)

/-- None of them fetches a slot. -/
theorem Executable.isSilent_warning : Executable.warning.IsSilent := by
  intro name entry bound feature
  rcases List.mem_pair.1 (mem_of_function?_warning bound) with rfl | rfl
  · exact id
  · nofun

/-- An execution of this program with a manipulator, while there is no rain. -/
def Execution.warning : Execution where
  setting := {
    executable := .warning
    inputs := [("Rain", .bool false)]
    hasManipulator := true }
  state := { State.initial 4 with manipulator := some {} }

namespace Execution

/-- The statement is resolved, and finds out that there is no rain. -/
theorem resolves_warning : warning.setting.Resolves 2 (.feature "Rain")
    (.call "warn" [.feature "User"]) (.ok (.bool false)) warning.state
    (warning.fetch 0 "Warnings#0").2.state := by
  have compiled : compile? ⟨.warning, none⟩ 10 1 .warning = .ok (some .warning) := by
    decide +kernel
  have linked : warning.setting.graph.Linked := (isCompiled_of_compile? compiled).built.linked
  have isPath : warning.setting.graph.IsPath [2] :=
    Graph.IsPath.nil.concat (by decide) List.not_mem_nil
  -- The rain is fetched for the statement.
  have permits : warning.setting.Permits [2]
      (warning.setting.conditionRoutine (.feature "Rain")) := by
    intro target fetched
    have rain : target = 0 := by
      rcases Setting.fetches_of_prefetch fetched with ⟨name, named, place⟩ | inner
      · exact Graph.needs_rain_iff.1 ⟨name, named, target, place, .refl⟩
      · rcases Setting.fetches_of_exprRoutine inner with ⟨name, read, place⟩ | called
        · exact Graph.needs_rain_iff.1 ⟨name, SlotExpr.mem_references.2 read, target, place, .refl⟩
        · obtain ⟨call, member, -⟩ := called.callsFetch
          cases member
    subst rain
    refine ⟨by decide, fun slot last => ?_⟩
    cases last
    exact .child List.mem_cons_self .here
  obtain ⟨trace, judges⟩ := Thread.start_advances linked isPath permits 0 (warning.state.begin 2)
  have verdict : (Thread.start warning.setting [2]
      (warning.setting.conditionRoutine (.feature "Rain")) (warning.state.begin 2)).1 =
        .finished (.ok (.bool false)) := by cbv
  rw [verdict] at judges
  refine @Setting.Resolves.mk _ _ _ _ _ _ _ _ _ _ 0 0 _ _ (.ok .null) (.refl _) judges.runs
    (.step .finish (.refl _ _)) ⟨?_, ?_, ?_, ?_, ?_, ?_⟩ <;> cbv

/-- While there is no rain, the statement is passed over: the user is not computed, nobody is
tracked, and no statement is invoked. A request for the user has only the user computed. -/
theorem evaluates_lazily_of_warning :
    (∀ target, (warning.fetch 0 "Warnings#0").2.state.Keeps target ↔ target = 2 ∨ target = 0) ∧
    (warning.fetch 0 "Warnings#0").2.state.tracked = [] ∧
    Executable.warning.statementInvocations
      (warning.fetch 0 "Warnings#0").2.state.invocations = [] ∧
    ∀ target, (warning.fetch 0 "User").2.state.Keeps target ↔ target = 1 := by
  have compiled : compile? ⟨.warning, none⟩ 10 1 .warning = .ok (some .warning) := by
    decide +kernel
  have begun : Executable.warning.execute
      { inputs := [("Rain", .bool false)], manipulator := some {} } {} = .ok warning := rfl
  have started := started_of_execute (isCompiled_of_compile? compiled).built begun
  have idle (target : Nat) : ¬warning.state.Keeps target := by
    rintro ⟨outcome, kept⟩
    rw [State.outcome?, started.cell_eq] at kept
    cases kept
  have place : Graph.warning.indexOf? "Warnings#0" = some 2 := rfl
  have place' : Graph.warning.indexOf? "User" = some 1 := rfl
  have fetched : warning.fetch 0 "Warnings#0" = (some (.ok .null), _) := Prod.ext (by cbv) rfl
  have fetched' : warning.fetch 0 "User" = (some (.ok (.entity ⟨"User", "alice"⟩)), _) :=
    Prod.ext (by cbv) rfl
  have fails : FailsToHold (.ok (.bool false)) := by
    rintro value same
    cases same
    rfl
  obtain ⟨-, statement⟩ := evaluates_lazily Catalog.reachable_warning compiled
    Graph.readsValues_warning begun Executable.isSilent_warning rfl ⟨rfl, rfl⟩ .start ⟨[], rfl⟩
    place rfl fetched
  obtain ⟨feature, -⟩ := evaluates_lazily Catalog.reachable_warning compiled
    Graph.readsValues_warning begun Executable.isSilent_warning rfl ⟨rfl, rfl⟩ .start ⟨[], rfl⟩
    place' rfl fetched'
  have passes := ((statement _ _ _ rfl).2 (idle 2)).2 _ resolves_warning fails
  have user := feature rfl
  refine ⟨fun target => ?_, passes.tracked_eq ?_, passes.invoked, fun target => ?_⟩
  · rw [passes.adds.keeps, or_iff_right (idle target)]
    exact or_congr_right Graph.needs_rain_iff
  · intro key deed
    cases deed with
    | perform listed value performs =>
      rcases List.mem_pair.1 (Executable.mem_of_function?_warning listed) with rfl | rfl
      · obtain ⟨_, _, effect⟩ := performs
        cases effect
      · cases value
  · rw [user.keeps, or_iff_right (idle target)]
    exact Graph.reflTransGen_leads_warning Nat.one_lt_two

end Execution

end RuleGraph
