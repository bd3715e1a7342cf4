import RuleGraph.Graph.Sorting
import Mathlib.Data.List.Nodup
import Mathlib.Data.List.Perm.Subperm

/-! # Sorting takes the first slot that is ready

`Sorting.run` never looks at what is placed: it counts what every slot misses and keeps the slots
that miss nothing in a list. The counts and the list say of every slot whether its dependencies are
placed, so always the earliest slot comes next of which that is so.

* **`Graph.nextReady?`**, **`Graph.orderFrom`** — the first slot that is ready, found by looking at
  all dependencies, and the order that taking it again and again comes to.
* **`count_dependentsOf`** — a slot stands among the dependents of another one as often as it
  depends on it.
* **`Sorting.Sound`** — what counts, list and places have to do with each other.
* **`Sorting.Sound.place`** — placing a slot keeps them so.
* **`Sorting.placed_ofEdges`** — counting comes to the same order as looking.
* **`Sorting.ready_ofEdges`** — it goes on until nothing is ready.
-/

namespace RuleGraph

/-! ## Looking for the first slot that is ready -/

/-- The slots that a slot depends on. -/
abbrev depsOf (edges : List (List Nat)) (slot : Nat) : List Nat := edges[slot]?.getD []

namespace Graph

/-- The first slot that is not placed yet and depends on placed slots only. -/
def nextReady? (edges : List (List Nat)) (placed : List Nat) : Option Nat :=
  (List.range edges.length).find? fun index =>
    index ∉ placed && (edges[index]?.getD []).all fun dep => dep ∈ placed

/-- Extend an order by the first ready slot, again and again, at most `steps` times. -/
def orderFrom (edges : List (List Nat)) : Nat → List Nat → List Nat
  | 0, placed => placed
  | steps + 1, placed =>
    match nextReady? edges placed with
    | some index => orderFrom edges steps (placed ++ [index])
    | none => placed

end Graph

variable {edges : List (List Nat)}

/-- Once all slots have had their turn, none is ready that is not placed. -/
theorem nextReady?_orderFrom {steps : Nat} {placed : List Nat}
    (enough : edges.length ≤ steps + placed.length) (nodup : placed.Nodup)
    (within : ∀ node ∈ placed, node < edges.length) :
    Graph.nextReady? edges (Graph.orderFrom edges steps placed) = none := by
  induction steps generalizing placed with
  | zero =>
    have sub : placed ⊆ List.range edges.length :=
      fun node member => List.mem_range.2 (within node member)
    -- As many slots are placed as there are, so all of them are.
    have perm := (nodup.subperm sub).perm_of_length_le (by simpa using enough)
    refine List.find?_eq_none.2 fun node member => ?_
    simp [Graph.orderFrom, perm.mem_iff.2 member]
  | succ steps ih =>
    rw [Graph.orderFrom]
    split
    · rename_i index ready
      have fresh := List.find?_some ready
      have bound := List.mem_range.1 (List.mem_of_find?_eq_some ready)
      simp only [decide_not, Bool.and_eq_true, Bool.not_eq_eq_eq_not, Bool.not_true,
        decide_eq_false_iff_not] at fresh
      refine ih (by simp; omega) ?_ fun node member => ?_
      · refine List.nodup_append.2 ⟨nodup, List.nodup_singleton _, ?_⟩
        intro a member b one same
        exact fresh.1 (List.mem_singleton.1 one ▸ same ▸ member)
      · rcases List.mem_append.1 member with old | new
        · exact within node old
        · exact List.mem_singleton.1 new ▸ bound
    · assumption

/-! ## Dependents -/

/-- Entering a slot for each of its dependencies adds it to their dependents. -/
theorem count_foldl_modify (table : List (List Nat)) (slot : Nat) (deps : List Nat) {target : Nat}
    (inside : target < table.length) (other : Nat) :
    ((deps.foldl (fun table dep => table.modify dep fun dependents => dependents ++ [slot])
        table)[target]?.getD []).count other =
      (table[target]?.getD []).count other + if other = slot then deps.count target else 0 := by
  induction deps generalizing table with
  | nil => simp
  | cons dep rest ih =>
    rw [List.foldl_cons, ih _ (by simpa using inside), List.getElem?_modify, List.count_cons,
      List.getElem?_eq_getElem inside]
    by_cases here : dep = target <;> by_cases same : other = slot <;>
      simp [here, same, List.count_singleton, Nat.add_comm] <;> omega

/-- Entering slots keeps the number of slots. -/
theorem length_foldl_modify (table : List (List Nat)) (slot : Nat) (deps : List Nat) :
    (deps.foldl (fun table dep => table.modify dep fun dependents => dependents ++ [slot])
      table).length = table.length := by
  induction deps generalizing table with
  | nil => rfl
  | cons dep rest ih => rw [List.foldl_cons, ih, List.length_modify]

/-- **A slot stands among the dependents of another one as often as it depends on it.** -/
theorem count_dependentsOf {target : Nat} (inside : target < edges.length) (slot : Nat) :
    ((dependentsOf edges)[target]?.getD []).count slot = (depsOf edges slot).count target := by
  have entered : ∀ (slots : List Nat) (table : List (List Nat)), target < table.length →
      ((slots.foldl (fun table slot => (depsOf edges slot).foldl
          (fun table dep => table.modify dep fun dependents => dependents ++ [slot]) table)
          table)[target]?.getD []).count slot =
        (table[target]?.getD []).count slot +
          slots.count slot * (depsOf edges slot).count target := by
    intro slots
    induction slots with
    | nil => simp
    | cons first rest ih =>
      intro table within
      rw [List.foldl_cons, ih _ (by rwa [length_foldl_modify]),
        count_foldl_modify _ _ _ within, List.count_cons]
      by_cases same : slot = first
      · simp [same, Nat.add_mul]
        omega
      · simp [same, Ne.symm same]
  rw [dependentsOf, entered _ _ (by simpa using inside)]
  by_cases within : slot < edges.length
  · simp [List.count_range, inside, within]
  · simp [List.count_range, inside, within, depsOf]

/-! ## Counting -/

/-- What is inserted is there, and so is what was. -/
@[simp] theorem mem_insertSlot {slot other : Nat} {slots : List Nat} :
    other ∈ insertSlot slot slots ↔ other = slot ∨ other ∈ slots := by
  induction slots with
  | nil => simp [insertSlot]
  | cons first rest ih =>
    rw [insertSlot]
    split
    · rw [List.mem_cons]
    · split
      · rename_i same
        simp [same]
      · simp only [List.mem_cons, ih, or_left_comm]

/-- Inserting keeps a list ascending. -/
theorem pairwise_insertSlot {slots : List Nat} (ascending : slots.Pairwise (· < ·)) (slot : Nat) :
    (insertSlot slot slots).Pairwise (· < ·) := by
  induction ascending with
  | nil => exact List.pairwise_singleton _ _
  | @cons first rest later sorted ih =>
    rw [insertSlot]
    split
    · rename_i before
      refine List.pairwise_cons.2 ⟨fun other member => ?_, List.pairwise_cons.2 ⟨later, sorted⟩⟩
      rcases List.mem_cons.1 member with rfl | behind
      · exact before
      · exact Nat.lt_trans before (later other behind)
    · split
      · exact List.pairwise_cons.2 ⟨later, sorted⟩
      · refine List.pairwise_cons.2 ⟨fun other member => ?_, ih⟩
        rcases mem_insertSlot.1 member with rfl | behind
        · omega
        · exact later other behind

namespace Sorting

/-- What counts, list and places have to do with each other while the dependents of the slot that
was placed last are gone through. `left` are those that still have to be. -/
structure Sound (edges : List (List Nat)) (left : List Nat) (sorting : Sorting) : Prop where
  /-- Every slot has its count. -/
  length_missing : sorting.missing.length = edges.length
  /-- A slot misses the dependencies that are not placed, and counts those not gone through yet. -/
  missing_eq : ∀ slot < edges.length, sorting.missing[slot]?.getD 0 =
    (depsOf edges slot).countP (· ∉ sorting.placed) + left.count slot
  /-- The earliest slot comes first. -/
  ascending : sorting.ready.Pairwise (· < ·)
  /-- The list holds the slots that have no place and miss nothing. -/
  mem_ready : ∀ slot, slot ∈ sorting.ready ↔ slot < edges.length ∧ slot ∉ sorting.placed ∧
    sorting.missing[slot]?.getD 0 = 0
  /-- A slot has its place behind its dependencies. -/
  closed : ∀ slot ∈ sorting.placed, ∀ dep ∈ depsOf edges slot, dep ∈ sorting.placed

variable {sorting : Sorting} {slot : Nat} {left rest : List Nat}

/-- At first nothing is placed, so every slot misses all that it depends on. -/
theorem sound_start (edges : List (List Nat)) : Sound edges [] (start edges) where
  length_missing := List.length_map _
  missing_eq slot inside := by simp [start, depsOf, inside]
  ascending := List.pairwise_lt_range.filter _
  mem_ready slot := by simp [start]
  closed slot member := by cases member

/-- Going through dependents places nothing. -/
theorem placed_foldl_release (sorting : Sorting) (left : List Nat) :
    (left.foldl release sorting).placed = sorting.placed := by
  induction left generalizing sorting with
  | nil => rfl
  | cons slot rest ih => exact ih _

namespace Sound

/-- A slot is ready if it has no place and all that it depends on has. -/
theorem mem_ready_iff (sound : Sound edges [] sorting) : slot ∈ sorting.ready ↔
    slot < edges.length ∧ slot ∉ sorting.placed ∧
      ∀ dep ∈ depsOf edges slot, dep ∈ sorting.placed := by
  rw [sound.mem_ready]
  refine and_congr_right fun inside => and_congr_right fun _ => ?_
  simp [sound.missing_eq slot inside, List.countP_eq_zero]

/-- **The first slot of the list is the first one that is ready.** -/
theorem nextReady?_eq (sound : Sound edges [] sorting) :
    Graph.nextReady? edges sorting.placed = sorting.ready.head? := by
  cases listed : sorting.ready with
  | nil =>
    refine List.find?_eq_none.2 fun slot inside => ?_
    have none : slot ∉ sorting.ready := listed ▸ List.not_mem_nil
    rw [sound.mem_ready_iff] at none
    simpa [List.mem_range.1 inside, depsOf] using none
  | cons slot rest =>
    have here := sound.mem_ready_iff.1 (listed ▸ List.mem_cons_self)
    have later := (List.pairwise_cons.1 (listed ▸ sound.ascending)).1
    refine List.find?_range_eq_some.2 ⟨by simpa using here.2, List.mem_range.2 here.1, ?_⟩
    intro earlier before
    -- An earlier slot that is ready would be listed, and so behind the first one of the list.
    by_contra ready
    have listed' : earlier ∈ sorting.ready := sound.mem_ready_iff.2
      ⟨Nat.lt_trans before here.1, by simpa using ready⟩
    rcases List.mem_cons.1 (listed ▸ listed') with rfl | behind
    · exact Nat.lt_irrefl _ before
    · exact Nat.lt_asymm before (later earlier behind)

/-- Going through a dependent of the slot that was placed last. -/
theorem release (sound : Sound edges (slot :: left) sorting) (inside : slot < edges.length)
    (fresh : slot ∉ sorting.placed) : Sound edges left (sorting.release slot) := by
  have count := sound.missing_eq slot inside
  rw [List.count_cons_self] at count
  have here : slot < sorting.missing.length := sound.length_missing ▸ inside
  have others : ∀ other ≠ slot, (sorting.release slot).missing[other]?.getD 0 =
      sorting.missing[other]?.getD 0 := fun other apart => by
    simp [Sorting.release, Ne.symm apart]
  have own : (sorting.release slot).missing[slot]?.getD 0 =
      sorting.missing[slot]?.getD 0 - 1 := by
    simp [Sorting.release, here]
  refine ⟨by simpa [Sorting.release] using sound.length_missing, fun other within => ?_, ?_,
    fun other => ?_, sound.closed⟩
  · by_cases same : other = slot
    · subst same
      rw [own, count]
      rfl
    · rw [others other same, sound.missing_eq other within, List.count_cons_of_ne (Ne.symm same)]
      rfl
  · rw [Sorting.release]
    dsimp only
    split
    · exact pairwise_insertSlot sound.ascending slot
    · exact sound.ascending
  · by_cases same : other = slot
    · subst same
      rw [own]
      by_cases last : sorting.missing[other]?.getD 0 - 1 = 0
      · simp [Sorting.release, last, inside, fresh]
      · have unready : other ∉ sorting.ready := fun member =>
          last (by rw [((sound.mem_ready other).1 member).2.2])
        simp [Sorting.release, last, unready]
    · rw [others other same]
      have unchanged : other ∈ (sorting.release slot).ready ↔ other ∈ sorting.ready := by
        rw [Sorting.release]
        dsimp only
        split
        · simp [same]
        · rfl
      rw [unchanged, sound.mem_ready]
      rfl

/-- Going through all of them. -/
theorem foldl_release (sound : Sound edges left sorting)
    (within : ∀ slot ∈ left, slot < edges.length ∧ slot ∉ sorting.placed) :
    Sound edges [] (left.foldl Sorting.release sorting) := by
  induction left generalizing sorting with
  | nil => exact sound
  | cons slot rest ih =>
    obtain ⟨⟨inside, fresh⟩, others⟩ := List.forall_mem_cons.1 within
    exact ih (sound.release inside fresh) others

/-- **Placing the slot that is ready first** keeps counts, list and places as they should be. -/
theorem place (sound : Sound edges [] sorting) (listed : sorting.ready = slot :: rest) :
    Sound edges [] (sorting.place (dependentsOf edges) slot rest) := by
  obtain ⟨inside, fresh, complete⟩ := sound.mem_ready_iff.1 (listed ▸ List.mem_cons_self)
  obtain ⟨later, ascending⟩ := List.pairwise_cons.1 (listed ▸ sound.ascending)
  refine foldl_release ?_ fun dependent member => ?_
  · refine ⟨sound.length_missing, fun other within => ?_, ascending, fun other => ?_, ?_⟩
    · -- What is placed now is missing no longer, but it is counted until it is gone through.
      rw [sound.missing_eq other within, count_dependentsOf inside]
      have parts : ∀ deps : List Nat, deps.countP (· ∉ sorting.placed) =
          deps.countP (· ∉ sorting.placed ++ [slot]) + deps.count slot := by
        intro deps
        induction deps with
        | nil => rfl
        | cons dep others ih =>
          rw [List.countP_cons, List.countP_cons, List.count_cons, ih]
          by_cases same : dep = slot
          · simp [same, fresh]
            omega
          · simp [same]
            omega
      exact parts _
    · have among : other ∈ rest ↔ other ∈ sorting.ready ∧ other ≠ slot := by
        rw [listed, List.mem_cons]
        refine ⟨fun member => ⟨.inr member, fun same => ?_⟩, fun ⟨member, apart⟩ =>
          member.resolve_left apart⟩
        exact Nat.lt_irrefl _ (later slot (same ▸ member))
      rw [among, sound.mem_ready]
      simp only [List.mem_append, List.mem_singleton, not_or]
      tauto
    · intro other member dep needed
      refine List.mem_append_left _ ?_
      rcases List.mem_append.1 member with old | new
      · exact sound.closed other old dep needed
      · exact complete dep (List.mem_singleton.1 new ▸ needed)
  · -- A dependent of the slot cannot be placed before it.
    have needed : slot ∈ depsOf edges dependent := by
      rw [← List.count_pos_iff, ← count_dependentsOf inside]
      exact List.count_pos_iff.2 member
    refine ⟨?_, fun placed => ?_⟩
    · by_contra outside
      rw [depsOf, List.getElem?_eq_none (Nat.le_of_not_lt outside)] at needed
      cases needed
    · rcases List.mem_append.1 placed with old | new
      · exact fresh (sound.closed dependent old slot needed)
      · exact fresh (complete slot (List.mem_singleton.1 new ▸ needed))

/-- Counting goes on as looking does. -/
theorem run (sound : Sound edges [] sorting) (steps : Nat) :
    Sound edges [] (sorting.run (dependentsOf edges) steps) ∧
      (sorting.run (dependentsOf edges) steps).placed =
        Graph.orderFrom edges steps sorting.placed := by
  induction steps generalizing sorting with
  | zero => exact ⟨sound, rfl⟩
  | succ steps ih =>
    have next := sound.nextReady?_eq
    rw [Sorting.run, Graph.orderFrom, next]
    cases listed : sorting.ready with
    | nil => exact ⟨sound, rfl⟩
    | cons slot rest =>
      obtain ⟨after, placed⟩ := ih (sound.place listed)
      refine ⟨after, placed.trans ?_⟩
      rw [Sorting.place, placed_foldl_release]
      rfl

end Sound

/-- **Counting comes to the same order as looking** for the first slot that is ready. -/
theorem placed_ofEdges (edges : List (List Nat)) :
    (ofEdges edges).placed = Graph.orderFrom edges edges.length [] :=
  ((sound_start edges).run edges.length).2

/-- **It goes on until nothing is ready**, so the bound on its steps does not cut it short. -/
theorem ready_ofEdges (edges : List (List Nat)) : (ofEdges edges).ready = [] := by
  have sound := ((sound_start edges).run edges.length).1
  have none : Graph.nextReady? edges (Graph.orderFrom edges edges.length []) = none :=
    nextReady?_orderFrom (by simp) .nil (by simp)
  rw [← placed_ofEdges, ofEdges, sound.nextReady?_eq] at none
  exact List.head?_eq_none_iff.1 none

end Sorting

end RuleGraph
