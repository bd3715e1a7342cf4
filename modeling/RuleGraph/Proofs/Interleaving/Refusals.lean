import RuleGraph.Proofs.Blob.Refusals
import RuleGraph.Proofs.Graph.Recorded
import RuleGraph.Proofs.Interleaving.Request

/-! # Slots that know a cycle

A request for a slot that knows a cycle is refused, whoever makes it. So nobody ever waits for such
a slot, and it is never computed.

* **`Thread.Wants`** — a slot is waited for or computed somewhere within a thread.
* **`Thread.Step.wants_origin`** — what is wanted after a step was wanted before, or knows no cycle.
* **`Thread.Step.kept_of_not_wants`** — a step leaves alone what is not wanted.
* **`Execution.Reaches.idle_of_cycleFrom?`** — a slot that knows a cycle is never computed.
* **`Execution.cycles_exact`** — what a slot knows, what compiling and decoding refuse, and what the
  host is told.
-/

namespace RuleGraph

open Relation

variable {setting : Setting} {execution : Execution} {path : List Nat} {thread thread' : Thread}
  {state state' : State} {trace trace' : Trace} {session session' : Session} {slot : Nat}
  {names : List String}

namespace Thread

/-- Somewhere within a thread a slot is waited for or computed. -/
inductive Wants : Thread → Nat → Prop where
  /-- The thread waits for it. -/
  | waiting {mark index next} : Wants (.waiting mark index next) index
  /-- The thread computes it. -/
  | computing {mark index body next} : Wants (.computing mark index body next) index
  /-- The computation of another slot wants it. -/
  | inside {mark index body next slot} (wants : Wants body slot) :
    Wants (.computing mark index body next) slot
  /-- What is run for some time wants it. -/
  | beneath {mark endsAt body next slot} (wants : Wants body slot) :
    Wants (.limited mark endsAt body next) slot
  /-- One of the threads side by side wants it. -/
  | side {breadth threads next thread slot} (member : thread ∈ threads)
    (wants : Wants thread slot) : Wants (.joining breadth threads next) slot

/-- What is computed within a thread is wanted. -/
theorem Holds.wants {body : Thread} (holds : thread.Holds slot body) : thread.Wants slot := by
  induction holds with
  | here => exact .computing
  | inside _ ih => exact .inside ih
  | beneath _ ih => exact .beneath ih
  | side member _ ih => exact .side member ih

/-- So is what is listed as being computed. -/
theorem wants_of_mem_computes (member : slot ∈ thread.computes) : thread.Wants slot := by
  obtain ⟨body, holds⟩ := mem_computes_iff.1 member
  exact holds.wants

/-- **What is wanted after a step was wanted before**, or it has only just been requested and knows
no cycle. -/
theorem Step.wants_origin (step : Step setting path thread state trace thread' state')
    (wants : thread'.Wants slot) :
    thread.Wants slot ∨ setting.graph.cycleFrom? slot = none := by
  induction step with
  | await _ free =>
    cases wants with
    | waiting =>
      -- A request for a slot that knows a cycle would have been refused.
      rw [State.cycleOf?] at free
      split at free
      · cases free
      · exact .inr ‹_›
  | compute =>
    cases wants with
    | computing => exact .inl .waiting
    | inside wants => cases wants
  | inside _ ih =>
    cases wants with
    | computing => exact .inl .computing
    | inside wants => exact (ih wants).imp_left .inside
  | limit =>
    cases wants with
    | beneath wants => cases wants
  | beneath _ ih =>
    cases wants with
    | beneath wants => exact (ih wants).imp_left .beneath
  | join =>
    cases wants with
    | side member wants =>
      obtain ⟨child, -, rfl⟩ := List.mem_map.1 member
      cases wants
  | @side _ _ before thread thread' after _ _ _ _ _ ih =>
    cases wants with
    | @side _ _ _ other _ member wants =>
      by_cases same : other = thread'
      · subst same
        exact (ih wants).imp_left (.side (by simp))
      · rw [List.mem_append, List.mem_cons, or_iff_right same] at member
        refine .inl (.side (List.mem_append.2 ?_) wants)
        exact member.imp_right (List.mem_cons_of_mem _)
  | _ => cases wants

/-- **A step leaves alone what is not wanted.** -/
theorem Step.kept_of_not_wants (step : Step setting path thread state trace thread' state')
    (unwanted : ¬thread.Wants slot) :
    state'.cell slot = state.cell slot ∧ slot ∉ trace.begins := by
  induction step with
  | finish | pause | sleep | wake | reuse | refuse | limit | conclude | join | gather =>
    exact ⟨rfl, by simp⟩
  | perform | invoke | await | hear => exact ⟨State.cell_congr (by simp), by simp⟩
  | @giveUp _ _ _ index =>
    have apart : slot ≠ index := fun same => unwanted (same ▸ .waiting)
    exact ⟨by rw [State.cell_answer_ne apart, State.cell_congr State.cells_timeOut], by simp⟩
  | @answer _ _ _ index =>
    have apart : slot ≠ index := fun same => unwanted (same ▸ .waiting)
    exact ⟨by rw [State.cell_answer_ne apart]; exact State.cell_setCell_ne apart,
      by simpa using apart⟩
  | @compute _ _ _ _ index =>
    have apart : slot ≠ index := fun same => unwanted (same ▸ .waiting)
    exact ⟨State.cell_setCell_ne apart, by simpa using apart⟩
  | @complete _ _ _ index =>
    have apart : slot ≠ index := fun same => unwanted (same ▸ .computing)
    exact ⟨State.cell_answer_ne apart, by simp⟩
  | @expire _ _ _ index body =>
    have apart : slot ≠ index := fun same => unwanted (same ▸ .computing)
    have outside : slot ∉ body.computes := fun member =>
      unwanted (.inside (wants_of_mem_computes member))
    refine ⟨?_, by simp⟩
    rw [State.cell_answer_ne apart, State.cell_congr State.cells_timeOut,
      cell_cancel_of_not_mem outside]
  | drop =>
    exact ⟨cell_cancel_of_not_mem fun member => unwanted (.beneath (wants_of_mem_computes member)),
      by simp⟩
  | inside _ ih => exact ih fun wants => unwanted (.inside wants)
  | beneath _ ih => exact ih fun wants => unwanted (.beneath wants)
  | side _ ih => exact ih fun wants => unwanted (.side (by simp) wants)

end Thread

namespace Execution

/-- **Nobody ever wants a slot that knows a cycle.** -/
theorem Reaches.cycleFrom?_of_wants (reaches : execution.Reaches trace session)
    (wants : session.requests.Wants slot) : execution.setting.graph.cycleFrom? slot = none := by
  induction reaches with
  | start =>
    cases wants with
    | side member => cases member
  | step _ last ih =>
    cases last with
    | call name mark =>
      cases wants with
      | side member wants =>
        rcases List.mem_append.1 member with old | new
        · exact ih (.side old wants)
        · rw [List.mem_singleton] at new
          subst new
          cases wants
    | @go names threads threads' state state' _ step =>
      have whole := Session.step_requests names step
      exact (whole.wants_origin wants).elim ih id
    | meanwhile => exact ih wants

/-- **A slot that knows a cycle is never computed**, and does nothing. -/
theorem Reaches.idle_of_cycleFrom? (started : execution.Started)
    (reaches : execution.Reaches trace session)
    (known : execution.setting.graph.cycleFrom? slot = some names) :
    session.state.cell slot = .idle 0 ∧ slot ∉ trace.begins ∧ trace.deedsOf slot = [] := by
  induction reaches with
  | start => exact ⟨started.cell_eq, by simp, rfl⟩
  | @step trace trace' session session' before last ih =>
    obtain ⟨idle, fresh, quiet⟩ := ih
    have unwanted : ¬session.requests.Wants slot := fun wants => by
      rw [before.cycleFrom?_of_wants wants] at known
      cases known
    cases last with
    | call => exact ⟨idle, by simpa using fresh, by simpa using quiet⟩
    | meanwhile other =>
      exact ⟨(State.cell_congr other.cells).trans idle, by simpa using fresh, by simpa using quiet⟩
    | @go names threads threads' state state' _ step =>
      have whole := Session.step_requests names step
      obtain ⟨same, fresh'⟩ := whole.kept_of_not_wants unwanted
      refine ⟨same.trans idle, by simp [fresh, fresh'], ?_⟩
      rw [Trace.deedsOf_append, quiet, List.nil_append]
      exact before.deedsOf_of_not_computing started step (by simp [idle])

/-- A request for a slot that knows a cycle is refused. -/
theorem Reaches.request_of_cycleFrom? (started : execution.Started)
    (reaches : execution.Reaches trace session)
    (known : execution.setting.graph.cycleFrom? slot = some names) (path : List Nat) :
    session.state.request execution.setting path slot =
      (.answered (.error (.cyclicDependency names)), session.state) := by
  have idle := (reaches.idle_of_cycleFrom? started known).1
  have unknown : session.state.outcome? slot = none := by
    rw [State.outcome?, idle]
    rfl
  have refused : session.state.cycleOf? execution.setting path slot =
      some (.error (.cyclicDependency names)) := by
    rw [State.cycleOf?, known]
  rw [State.request, unknown, refused]

/-- Every request of the host for it has that answer. -/
theorem Reaches.eq_of_answers (started : execution.Started)
    (reaches : execution.Reaches trace session) {name : String} {outcome : Outcome}
    (found : execution.setting.graph.indexOf? name = some slot)
    (known : execution.setting.graph.cycleFrom? slot = some names)
    (answer : session.state.Answers execution.setting name outcome) :
    outcome = .error (.cyclicDependency names) := by
  rcases (State.answers_iff found).1 answer with kept | ⟨told, rfl, reason⟩
  · rw [State.outcome?, (reaches.idle_of_cycleFrom? started known).1] at kept
    cases kept
  · rcases reason with known' | ⟨requester, none, -⟩
    · rw [known, Option.some_inj] at known'
      rw [known']
    · cases none

end Execution

/-- Only slots of the graph know cycles. -/
theorem Graph.lt_size_of_cycleFrom? {graph : Graph} (linked : graph.Linked)
    (known : graph.cycleFrom? slot = some names) : slot < graph.size := by
  rw [cycleFrom?, Option.join_eq_some_iff] at known
  exact linked.length_cycles ▸ (List.getElem?_eq_some_iff.1 known).1

/-- **The host is told the cycle that a slot knows**, whenever it asks, and nothing is run for
it. -/
theorem Execution.Reaches.told_of_cycleFrom? (started : execution.Started)
    (reaches : execution.Reaches trace session)
    (known : execution.setting.graph.cycleFrom? slot = some names) :
    (∀ passes, { execution with state := session.state }.fetch passes
        (execution.setting.graph.name slot) =
      (some (.error (.cyclicDependency names)), { execution with state := session.state })) ∧
    slot ∉ trace.begins ∧ trace.deedsOf slot = [] ∧
    List.Forall₂ (fun name thread => execution.setting.graph.indexOf? name = some slot →
      ∀ outcome, thread = .finished outcome → outcome = .error (.cyclicDependency names))
      session.names session.threads := by
  have found := Graph.indexOf?_name started.linked
    (Graph.lt_size_of_cycleFrom? started.linked known)
  obtain ⟨-, fresh, quiet⟩ := reaches.idle_of_cycleFrom? started known
  refine ⟨fun passes => ?_, fresh, quiet, ?_⟩
  · exact @fetch_of_answered { execution with state := session.state } _ _ _ found
      (reaches.request_of_cycleFrom? started known []) passes
  · refine (reaches.isRequest started).imp fun name thread isRequest found outcome finished => ?_
    subst finished
    cases isRequest with
    | finished answer => exact reaches.eq_of_answers started found known answer

/-- **Cycles are recorded exactly.** For all slots that make a graph: a slot knows a cycle if and
only if following dependencies from it leads around one, and what it knows is such a cycle, told
once around. So a graph is acyclic if and only if no name comes back to itself. Among programs that
are lowered to these slots and blobs that hold them, with nothing else wrong, those of acyclic
graphs are accepted, and those of all others are refused for a cycle, programs for that of the first
slot that knows one. And in every session of every execution of the graph, a slot that knows a cycle
has not been computed, and the host that requests it is told the cycle. -/
theorem Graph.cycles_recorded {slots : List Slot} {graph : Graph}
    (made : ofSlots slots = .ok graph) :
    (∀ index < graph.size,
      ((∃ path, graph.cycleFrom? index = some path) ↔
        ReachesCycle slots (graph.name index)) ∧
      ∀ path, graph.cycleFrom? index = some path →
        IsCycleFrom slots (graph.name index) path) ∧
    (graph.isAcyclic = true ↔ ∀ name, ¬TransGen (DependsOn slots) name name) ∧
    (∀ scope limit rounds program,
      lowerProgram? scope limit rounds program = .ok (some slots) →
      ((∃ compiled, compile? scope limit rounds program = .ok (some compiled)) ↔
        graph.isAcyclic = true) ∧
      ∀ path, compile? scope limit rounds program = .error (.cyclicDependency path) ↔
        ∃ index, graph.cycleFrom? index = some path ∧
          ∀ earlier < index, graph.cycleFrom? earlier = none) ∧
    (∀ scope bytes data payload rest, Blob.payloadBytes bytes = .ok data →
      Payload.read data = some (payload, rest) → payload.slots = slots →
      ((∃ decoded, Blob.decode scope bytes = .ok decoded) ↔
        (payload.count = slots.length ∧ ∀ slot ∈ slots, slot.IsCallable scope) ∧
          graph.isAcyclic = true) ∧
      (Blob.decode scope bytes = .error (.invalid "graph contains a dependency cycle") ↔
        (payload.count = slots.length ∧ ∀ slot ∈ slots, slot.IsCallable scope) ∧
          graph.isAcyclic = false)) ∧
    ∀ (executable : Executable) (options : ExecuteOptions) (history : History)
      (execution : Execution) (trace : Trace) (session : Session) (index : Nat)
      (path : List String),
      executable.graph = graph → executable.execute options history = .ok execution →
      execution.Reaches trace session → graph.cycleFrom? index = some path →
      (∀ passes, { execution with state := session.state }.fetch passes (graph.name index) =
        (some (.error (.cyclicDependency path)), { execution with state := session.state })) ∧
      index ∉ trace.begins ∧ trace.deedsOf index = [] ∧
      List.Forall₂ (fun name thread => graph.indexOf? name = some index →
        ∀ outcome, thread = .finished outcome → outcome = .error (.cyclicDependency path))
        session.names session.threads := by
  obtain ⟨rfl, linked⟩ := linked_of_ofSlots made
  refine ⟨fun index bound => ⟨exists_cycleFrom?_iff linked bound,
      fun path known => isCycleFrom_of_cycleFrom? linked bound known⟩,
    isAcyclic_iff linked, fun scope limit rounds program lowered => ?_,
    fun scope bytes data payload rest sound read same => ?_,
    fun executable options history execution trace session index path same begun reaches known =>
      ?_⟩
  · have whole : compile? scope limit rounds program = (linkSlots graph.slots).map some := by
      simp only [compile?, lowered, bind, Except.bind]
      cases linkSlots graph.slots <;> rfl
    refine ⟨?_, fun path => ?_⟩
    · rw [whole, ← exists_linkSlots_iff made]
      cases linkSlots graph.slots <;> simp [Except.map]
    · rw [whole, ← firstCycle?_eq_some_iff, ← linkSlots_eq_error_iff made]
      cases linkSlots graph.slots <;> simp [Except.map]
  · rw [← same] at made ⊢
    rw [Blob.decode_eq_link_of_read sound read]
    exact ⟨Blob.exists_link_iff made, Blob.link_eq_error_iff made⟩
  · have same' : execution.setting.graph = graph := by
      rw [Setting.graph, (Execution.eq_of_execute begun).1, same]
    subst same'
    exact reaches.told_of_cycleFrom?
      (Execution.started_of_execute (same ▸ ⟨_, made⟩) begun) known

/-! ## A loop -/

/-- Two features that depend on each other, one that depends on them, and an input. -/
def Program.loop : Program :=
  [.feature "A" (.feature "B"), .feature "B" (.list [.feature "D", .feature "A"]),
    .feature "C" (.feature "B"), .input "D"]

/-- The slots of the loop. -/
def Slot.loop : List Slot :=
  [.feature "A" (.feature "B"), .feature "B" (.list [.feature "D", .feature "A"]),
    .feature "C" (.feature "B"), .input "D"]

/-- The loop is known, refused, and told. -/
theorem Graph.cycles_recorded_of_loop :
    ∃ graph, ofSlots Slot.loop = .ok graph ∧
      (∃ path, graph.cycleFrom? 2 = some path ∧ IsCycleFrom Slot.loop "C" path) ∧
      graph.isAcyclic = false ∧
      compile? ⟨{}, none⟩ 10 1 .loop = .error (.cyclicDependency ["A", "B", "A"]) ∧
      (∃ bytes, Blob.encode graph none = .ok bytes ∧
        Blob.decode ⟨{}, none⟩ bytes = .error (.invalid "graph contains a dependency cycle")) ∧
      ∃ execution, (Executable.ofGraph graph ⟨{}, none⟩ {}).execute {} {} = .ok execution ∧
        ∀ passes, execution.fetch passes "C" =
          (some (.error (.cyclicDependency ["A", "B", "A"])), execution) := by
  obtain ⟨graph, made⟩ : ∃ graph, ofSlots Slot.loop = .ok graph := ⟨_, rfl⟩
  obtain ⟨recorded, -, compiles, decodes, told⟩ := cycles_recorded made
  have known : graph.cycleFrom? 0 = some ["A", "B", "A"] ∧
      graph.cycleFrom? 2 = some ["A", "B", "A"] := by
    cases made
    decide +kernel
  have cyclic : graph.isAcyclic = false := by
    cases made
    decide +kernel
  have named : graph.name 2 = "C" ∧ 2 < graph.size := by
    cases made
    decide +kernel
  have lowered : lowerProgram? ⟨{}, none⟩ 10 1 .loop = .ok (some Slot.loop) := by decide +kernel
  have refused := ((compiles _ _ _ _ lowered).2 ["A", "B", "A"]).2
    ⟨0, known.1, fun earlier less => absurd less (Nat.not_lt_zero _)⟩
  have slots := (linked_of_ofSlots made).1
  have fits : (Blob.payloadOf graph none).write.length < 2 ^ 32 := by
    cases made
    decide +kernel
  have callable : ∀ slot ∈ Slot.loop, slot.IsCallable ⟨{}, none⟩ := by
    intro slot member
    apply Blob.checkSlot_eq_ok_iff.1
    revert slot
    decide +kernel
  have read := Blob.read_payloadOf fits []
  rw [List.append_nil] at read
  have unfit := (decodes ⟨{}, none⟩ _ _ (Blob.payloadOf graph none) []
    (Blob.payloadBytes_header fits) read slots).2.2
    ⟨⟨congrArg List.length slots, callable⟩, cyclic⟩
  refine ⟨graph, made, ⟨_, known.2, ?_⟩, cyclic, refused, ⟨_, if_pos fits, unfit⟩, _, rfl,
    fun passes => ?_⟩
  · exact named.1 ▸ (recorded 2 named.2).2 _ known.2
  · exact named.1 ▸ (told (.ofGraph graph ⟨{}, none⟩ {}) {} {} _ _ _ 2 _ rfl rfl .start known.2).1
      passes

end RuleGraph
