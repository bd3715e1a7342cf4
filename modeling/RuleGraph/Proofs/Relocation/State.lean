import RuleGraph.Proofs.Relocation.Routine
import RuleGraph.Proofs.Waits.Chain

/-! # States with slots at other places

States of executions that differ in the places of slots only answer requests alike, and go on to
such states whatever happens to them.

* **`Waits.chain?_moved`** — waiting leads along the moved slots.
* **`State.Relocated`** — states that differ in the places of slots only.
* **`State.Relocated.request`** — they answer a request alike.
* **`State.Relocated.frame`** — whatever leaves cells and waits alone keeps them so.
-/

namespace RuleGraph

/-! ## Lists of moved slots -/

section

variable {move : Nat → Nat} (injective : Function.Injective move)
include injective

/-- Slots that have moved are found where the slots were. -/
theorem idxOf?_map_move (slots : List Nat) (slot : Nat) :
    (slots.map move).idxOf? (move slot) = slots.idxOf? slot := by
  rw [List.idxOf?, List.findIdx?_map]
  congr 1
  funext other
  simp [injective.eq_iff]

/-- Slots that have moved are found where the slots were, or not at all. -/
theorem idxOf_map_move (slots : List Nat) (slot : Nat) :
    (slots.map move).idxOf (move slot) = slots.idxOf slot := by
  rw [List.idxOf, List.findIdx_map]
  congr 1
  funext other
  simp [injective.eq_iff]

namespace Waits

/-- A slot is taken out of a list where it has moved. -/
theorem withoutFirst_map (slots : List Nat) (slot : Nat) :
    withoutFirst (slots.map move) (move slot) = (withoutFirst slots slot).map move := by
  rw [withoutFirst, withoutFirst, idxOf?_map_move injective]
  cases slots.idxOf? slot with
  | none => rfl
  | some place =>
    rw [List.map_dropLast, List.map_set, List.getLast?_map, Option.getD_map]

variable {waits waits' : Waits} (moved : Moved move (List.map move) waits waits')
include moved

omit injective in
/-- A slot waits for the slots that have moved. -/
theorem targets_moved (slot : Nat) :
    waits'.targets (move slot) = (waits.targets slot).map move := by
  rw [targets, targets, moved.getElem?]
  cases waits[slot]? with
  | none => rfl
  | some targets => rfl

/-- There are as many waits. -/
theorem count_moved : waits'.count = waits.count := by
  have inside := moved.lt_iff
  rw [← unseen_nil, ← unseen_nil, unseen, unseen, moved.length]
  simp only [List.not_mem_nil, not_false_eq_true, Finset.filter_true]
  rw [moved.length] at inside
  have maps : Set.MapsTo move (Finset.range waits.length) (Finset.range waits.length) :=
    fun slot member => by simpa [inside] using member
  -- Finitely many slots that move to different places among themselves take all of these places.
  have onto := Finset.surjOn_of_injOn_of_card_le move maps injective.injOn le_rfl
  refine (Finset.sum_nbij move maps injective.injOn onto fun slot _ => ?_).symm
  rw [targets_moved moved, List.length_map]

/-- A search comes to the chain that has moved. -/
theorem search_moved (path : List Nat) (steps : Nat) (seen : List Nat) (chains : List (List Nat)) :
    waits'.search (path.map move) steps (seen.map move) (chains.map (List.map move)) =
      (waits.search path steps seen chains).map (List.map move) := by
  induction steps generalizing seen chains with
  | zero => rfl
  | succ steps ih =>
    cases chains with
    | nil => rfl
    | cons chain chains =>
      rw [List.map_cons, search, search, List.getLast?_map]
      cases chain.getLast? with
      | none => rfl
      | some slot =>
        simp only [Option.map_some, List.mem_map_of_injective injective]
        split
        · rfl
        · split
          · exact ih seen chains
          · have longer : ((waits'.targets (move slot)).reverse.map fun target =>
                chain.map move ++ [target]) =
                ((waits.targets slot).reverse.map fun target => chain ++ [target]).map
                  (List.map move) := by
              rw [targets_moved moved]
              simp [Function.comp_def]
            rw [longer, ← List.map_append]
            exact ih (slot :: seen) _

/-- Waiting leads along the slots that have moved. -/
theorem chain?_moved (source : Nat) (path : List Nat) :
    waits'.chain? (move source) (path.map move) =
      (waits.chain? source path).map (List.map move) := by
  rw [chain?, chain?, count_moved injective moved]
  exact search_moved injective moved path _ [] [[source]]

end Waits

end

/-! ## States -/

/-- States that differ in the places of slots only. -/
structure State.Relocated (move : Nat → Nat) (state state' : State) : Prop where
  /-- Every slot has the cell that it had. -/
  cells : Moved move id state.cells state'.cells
  /-- It waits for the slots that it waited for. -/
  waits : Moved move (List.map move) state.waits state'.waits
  /-- Everything else is the same. -/
  others : { state' with cells := state.cells, waits := state.waits } = state

namespace State

namespace Relocated

variable {move : Nat → Nat} {setting setting' : Setting} {state state' : State}
  (relocated : state.Relocated move state')
include relocated

/-- It is the same time. -/
theorem now : state'.now = state.now := (congrArg State.now relocated.others :)

/-- As much has happened. -/
theorem mark : state'.mark = state.mark := (congrArg State.mark relocated.others :)

/-- The clock moved at the same mark. -/
theorem movedAt : state'.movedAt = state.movedAt := (congrArg State.movedAt relocated.others :)

/-- The same functions were invoked. -/
theorem invocationCount (function : EntryKey) :
    state'.invocationCount function = state.invocationCount function :=
  (congrArg (fun state => State.invocationCount state function) relocated.others :)

/-- **What leaves cells and waits alone** keeps states so. -/
theorem frame {change : State → State}
    (alone : ∀ state cells waits,
      change { state with cells, waits } = { change state with cells, waits }) :
    (change state).Relocated move (change state') := by
  have same : change state =
      { change state' with cells := state.cells, waits := state.waits } := by
    rw [← alone, relocated.others]
  have own : change state' =
      { change state' with cells := state'.cells, waits := state'.waits } :=
    alone state' state'.cells state'.waits
  refine ⟨?_, ?_, ?_⟩
  · rw [congrArg State.cells same, congrArg State.cells own]
    exact relocated.cells
  · rw [congrArg State.waits same, congrArg State.waits own]
    exact relocated.waits
  · rw [congrArg State.cells same, congrArg State.waits same]
    exact same.symm

/-- A slot has the cell that it had. -/
theorem cell (index : Nat) : state'.cell (move index) = state.cell index := by
  rw [State.cell, State.cell, relocated.cells.getElem?, Option.map_id, id]

/-- It has the outcome that it had. -/
theorem outcome? (index : Nat) : state'.outcome? (move index) = state.outcome? index := by
  rw [State.outcome?, State.outcome?, relocated.cell]

/-- Something happens. -/
theorem tick : state.tick.Relocated move state'.tick := relocated.frame fun _ _ _ => rfl

/-- The clock moves. -/
theorem moveClock (time : Nat) : (state.moveClock time).Relocated move (state'.moveClock time) :=
  @frame _ _ _ relocated (State.moveClock · time) fun _ _ _ => rfl

/-- A function is invoked. -/
theorem invoke (function : EntryKey) (args : List Value) :
    (state.invoke function args).Relocated move (state'.invoke function args) :=
  @frame _ _ _ relocated (State.invoke · function args) fun _ _ _ => rfl

/-- An effect takes place. -/
theorem perform (same : setting.Relocated move setting') (effect : Effect) :
    (state.perform setting effect).Relocated move (state'.perform setting' effect) := by
  have log : state'.perform setting' effect = state'.perform setting effect := by
    cases effect with
    | log level props format params =>
      exact (congrArg (State.log state' · level props format params) same.others :)
    | emit | queue | report | track => rfl
  rw [log]
  exact @frame _ _ _ relocated (State.perform · setting effect) fun _ _ _ => by
    cases effect <;> rfl

/-- A cell is replaced where it has moved. -/
theorem setCell (injective : Function.Injective move) (index : Nat) (cell : Cell) :
    (state.setCell index cell).Relocated move (state'.setCell (move index) cell) where
  cells := relocated.cells.set injective index cell
  waits := relocated.waits
  others := (congrArg (fun other => { other with cells := state.cells.set index cell })
    relocated.others :)

/-- A slot is begun. -/
theorem begin (injective : Function.Injective move) (index : Nat) :
    (state.begin index).Relocated move (state'.begin (move index)) :=
  relocated.setCell injective index .computing

/-- A slot is given up. -/
theorem release (injective : Function.Injective move) (index : Nat) :
    (state.release index).Relocated move (state'.release (move index)) := by
  rw [State.release, State.release, relocated.mark]
  exact (relocated.setCell injective index _).tick

/-- A slot is done. -/
theorem settle (injective : Function.Injective move) (index : Nat) (outcome : Outcome) :
    (state.settle index outcome).Relocated move (state'.settle (move index) outcome) := by
  rw [State.settle, State.settle, relocated.mark]
  exact (relocated.setCell injective index _).tick

/-- What the last slot of a path waits for is replaced where it has moved. -/
theorem setWaits (injective : Function.Injective move) (slot : Nat) (targets : List Nat) :
    { state with waits := state.waits.set slot targets }.Relocated move
      { state' with waits := state'.waits.set (move slot) (targets.map move) } where
  cells := relocated.cells
  waits := relocated.waits.set injective slot targets
  others := (congrArg (fun other => { other with waits := state.waits.set slot targets })
    relocated.others :)

/-- A wait begins. -/
theorem addWait (injective : Function.Injective move) (path : List Nat) (target : Nat) :
    (state.addWait path target).Relocated move
      (state'.addWait (path.map move) (move target)) := by
  rw [State.addWait, State.addWait, List.getLast?_map]
  cases path.getLast? with
  | none => exact relocated
  | some slot =>
    have targets := congrArg (· ++ [move target]) (Waits.targets_moved relocated.waits slot)
    simp only [Option.map_some, Waits.add, targets]
    rw [← List.map_singleton, ← List.map_append]
    exact relocated.setWaits injective slot _

/-- A wait ends. -/
theorem removeWait (injective : Function.Injective move) (path : List Nat) (target : Nat) :
    (state.removeWait path target).Relocated move
      (state'.removeWait (path.map move) (move target)) := by
  rw [State.removeWait, State.removeWait, List.getLast?_map]
  cases path.getLast? with
  | none => exact relocated
  | some slot =>
    simp only [Option.map_some, Waits.remove, Waits.targets_moved relocated.waits,
      Waits.withoutFirst_map injective]
    exact relocated.setWaits injective slot _

/-- The request for which a slot was computed is answered. -/
theorem answer (injective : Function.Injective move) (path : List Nat) (index : Nat)
    (outcome : Outcome) : (state.answer path index outcome).Relocated move
      (state'.answer (path.map move) (move index) outcome) :=
  (relocated.settle injective index outcome).removeWait injective path index

/-- The time for a slot is over. -/
theorem isOverdue (same : setting.Relocated move setting') (index : Nat) :
    state'.isOverdue setting' (move index) = state.isOverdue setting index := by
  rw [State.isOverdue, State.isOverdue, same.deadlineOf?, relocated.now]

/-- A slot was not computed in time. -/
theorem timeOut (same : setting.Relocated move setting') (index : Nat) :
    (state.timeOut setting index).1 = (state'.timeOut setting' (move index)).1 ∧
      (state.timeOut setting index).2.Relocated move (state'.timeOut setting' (move index)).2 := by
  refine ⟨congrArg Except.error (same.timeoutError index).symm, ?_⟩
  exact @frame _ _ _ relocated (fun state => { state with hasTimedOut := true }) fun _ _ _ => rfl

omit relocated in
/-- The names along a cycle are the same. -/
theorem cycleError (same : setting.Relocated move setting') (path : List Nat) :
    State.cycleError setting' (path.map move) = State.cycleError setting path := by
  have names : ∀ slot, setting'.graph.name (move slot) = setting.graph.name slot :=
    same.graph.name
  rw [State.cycleError, State.cycleError, List.map_map]
  simp only [Function.comp_def, names]

/-- A request closes the same cycle. -/
theorem cycleOf? (same : setting.Relocated move setting') (path : List Nat) (index : Nat) :
    state'.cycleOf? setting' (path.map move) (move index) = state.cycleOf? setting path index := by
  have injective := same.graph.injective
  rw [State.cycleOf?, State.cycleOf?, same.graph.cycleFrom?]
  cases setting.graph.cycleFrom? index with
  | some cycle => rfl
  | none =>
    simp only [List.mem_map_of_injective injective, List.isEmpty_map,
      Waits.chain?_moved injective relocated.waits, idxOf_map_move injective]
    split
    · have closed : (path.map move).drop (path.idxOf index) ++ [move index] =
          (path.drop (path.idxOf index) ++ [index]).map move := by
        rw [List.map_append, List.map_drop, List.map_singleton]
      rw [closed, cycleError same]
    · split
      · rfl
      · rw [Option.map_map]
        congr 1
        funext chain
        have start : (((chain.map move).getLast?.map (path.map move).idxOf).getD 0) =
            (chain.getLast?.map path.idxOf).getD 0 := by
          rw [List.getLast?_map, Option.map_map]
          congr 2
          exact funext (idxOf_map_move injective path)
        have closed : ∀ start, (path.map move).drop start ++ chain.map move =
            (path.drop start ++ chain).map move := by
          intro start
          rw [List.map_append, List.map_drop]
        simp only [Function.comp, start, closed, cycleError same]

/-- **A request is answered alike.** -/
theorem request (same : setting.Relocated move setting') (path : List Nat) (index : Nat) :
    (state.request setting path index).1 =
        (state'.request setting' (path.map move) (move index)).1 ∧
      (state.request setting path index).2.Relocated move
        (state'.request setting' (path.map move) (move index)).2 := by
  unfold State.request
  rw [relocated.outcome?, relocated.cycleOf? same, relocated.cell]
  split
  · exact ⟨rfl, relocated⟩
  · split
    · exact ⟨rfl, relocated⟩
    · have waiting := relocated.addWait same.graph.injective path index
      dsimp only
      split
      · exact ⟨rfl, waiting⟩
      · exact ⟨rfl, waiting⟩

end Relocated

end State

end RuleGraph
