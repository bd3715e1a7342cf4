import RuleGraph.Execution.State
import Mathlib.Algebra.BigOperators.Fin
import Mathlib.Data.List.Chain
import Mathlib.Logic.Relation

/-! # Following waits

`Waits.chain?` finds a way back from a slot to a path if and only if there is one: the steps that it
is given are enough to follow every wait.

* **`Waits.Edge`** — a slot waits for another one.
* **`Waits.IsFrontier`** — what a search relies on while it goes on.
* **`Waits.chain?_eq_none_iff`** — no chain is found when waiting does not lead to the path.
* **`Waits.isChain_of_chain?`** — what is found is a chain of waits.
-/

namespace RuleGraph.Waits

open Relation

/-- A slot waits for another one. -/
def Edge (waits : Waits) (slot target : Nat) : Prop := target ∈ waits.targets slot

variable {waits : Waits} {path seen : List Nat} {slot target source steps : Nat}
  {chain : List Nat} {chains : List (List Nat)}

/-- Slots beyond the last one wait for nothing. -/
theorem targets_of_length_le (h : waits.length ≤ slot) : waits.targets slot = [] := by
  rw [targets, List.getElem?_eq_none h, Option.getD_none]

/-! ## Steps enough -/

/-- How many waits the search may still have to follow: those of all slots not seen yet. -/
def unseen (waits : Waits) (seen : List Nat) : Nat :=
  ∑ slot ∈ Finset.range waits.length with slot ∉ seen, (waits.targets slot).length

/-- At first these are all waits. -/
theorem unseen_nil : waits.unseen [] = waits.count := by
  rw [unseen]
  simp only [List.not_mem_nil, not_false_eq_true, Finset.filter_true]
  induction waits with
  | nil => rfl
  | cons first rest ih =>
    rw [List.length_cons, Finset.sum_range_succ', count, List.foldr_cons, ← count, ← ih, add_comm]
    rfl

/-- A slot that is seen for the first time takes its waits away. -/
theorem unseen_cons (fresh : slot ∉ seen) :
    waits.unseen (slot :: seen) + (waits.targets slot).length = waits.unseen seen := by
  by_cases bound : slot < waits.length
  · have member : slot ∈ (Finset.range waits.length).filter (· ∉ seen) := by simp [bound, fresh]
    rw [unseen, unseen, ← Finset.sum_erase_add _ _ member]
    congr 2
    ext other
    simp only [List.mem_cons, not_or, Finset.mem_filter, Finset.mem_range, Finset.mem_erase]
    tauto
  -- A slot beyond the last one has no waits to take away.
  · have none := targets_of_length_le (Nat.le_of_not_lt bound)
    rw [none, List.length_nil, add_zero, unseen, unseen]
    congr 1
    ext other
    simp only [List.mem_cons, not_or, Finset.mem_filter, Finset.mem_range]
    have apart : other < waits.length → other ≠ slot := by omega
    tauto

/-! ## Completeness -/

/-- What a search relies on while it goes on: the chains in hand lead somewhere, no slot seen is on
the path, and every wait of a slot seen has been followed or is about to be. -/
structure IsFrontier (waits : Waits) (path seen : List Nat) (chains : List (List Nat)) : Prop where
  /-- Every chain ends somewhere. -/
  nonempty : ∀ chain ∈ chains, chain ≠ []
  /-- The path has not been met. -/
  apart : ∀ slot ∈ seen, slot ∉ path
  /-- No wait of a slot seen is left out. -/
  closed : ∀ slot ∈ seen, ∀ target, waits.Edge slot target →
    target ∈ seen ∨ ∃ chain ∈ chains, chain.getLast? = some target

/-- A chain that ends at a slot seen before can be left out. -/
theorem IsFrontier.skip (frontier : waits.IsFrontier path seen (chain :: chains))
    (last : chain.getLast? = some slot) (old : slot ∈ seen) :
    waits.IsFrontier path seen chains := by
  refine ⟨fun other member => frontier.nonempty other (List.mem_cons_of_mem _ member),
    frontier.apart, fun source member target edge => ?_⟩
  rcases frontier.closed source member target edge with known | ⟨other, listed, ends⟩
  · exact .inl known
  · rcases List.mem_cons.1 listed with rfl | later
    · have same : slot = target := Option.some_inj.1 (last.symm.trans ends)
      exact .inl (same ▸ old)
    · exact .inr ⟨other, later, ends⟩

/-- A chain that ends at a new slot off the path makes room for those that go on along its waits. -/
theorem IsFrontier.follow (frontier : waits.IsFrontier path seen (chain :: chains))
    (last : chain.getLast? = some slot) (offPath : slot ∉ path) :
    waits.IsFrontier path (slot :: seen)
      (((waits.targets slot).reverse.map fun target => chain ++ [target]) ++ chains) := by
  refine ⟨fun other member => ?_, fun source member => ?_, fun source member target edge => ?_⟩
  · rcases List.mem_append.1 member with longer | later
    · obtain ⟨target, -, rfl⟩ := List.mem_map.1 longer
      exact List.append_ne_nil_of_right_ne_nil _ (List.cons_ne_nil _ _)
    · exact frontier.nonempty other (List.mem_cons_of_mem _ later)
  · rcases List.mem_cons.1 member with rfl | earlier
    · exact offPath
    · exact frontier.apart source earlier
  · rcases List.mem_cons.1 member with rfl | earlier
    · -- The waits of the new slot are those that the longer chains follow.
      have longer : chain ++ [target] ∈ (waits.targets source).reverse.map
          fun target => chain ++ [target] :=
        List.mem_map.2 ⟨target, List.mem_reverse.2 edge, rfl⟩
      exact .inr ⟨_, List.mem_append_left _ longer, List.getLast?_concat⟩
    · rcases frontier.closed source earlier target edge with known | ⟨other, listed, ends⟩
      · exact .inl (List.mem_cons_of_mem _ known)
      · rcases List.mem_cons.1 listed with rfl | later
        · have same : slot = target := Option.some_inj.1 (last.symm.trans ends)
          exact .inl (same ▸ List.mem_cons_self)
        · exact .inr ⟨other, List.mem_append_right _ later, ends⟩

/-- A search that finds nothing has seen a set of slots, away from the path, that no wait leaves. -/
theorem exists_closed_of_search (nothing : waits.search path steps seen chains = none)
    (enough : chains.length + waits.unseen seen < steps)
    (frontier : waits.IsFrontier path seen chains) :
    ∃ region : Nat → Prop, (∀ slot ∈ seen, region slot) ∧
      (∀ chain ∈ chains, ∀ slot ∈ chain.getLast?, region slot) ∧
      ∀ slot, region slot → slot ∉ path ∧ ∀ target, waits.Edge slot target → region target := by
  induction steps generalizing seen chains with
  | zero => omega
  | succ steps ih =>
    cases chains with
    | nil =>
      -- No chain is left, so every wait of a slot seen leads to a slot seen.
      refine ⟨(· ∈ seen), fun _ member => member, by simp, fun slot member => ?_⟩
      refine ⟨frontier.apart slot member, fun target edge => ?_⟩
      simpa using frontier.closed slot member target edge
    | cons chain chains =>
      rw [search] at nothing
      cases last : chain.getLast? with
      | none =>
        have empty := List.getLast?_eq_none_iff.1 last
        exact absurd empty (frontier.nonempty chain List.mem_cons_self)
      | some slot =>
        rw [last] at nothing
        simp only at nothing
        split at nothing
        · cases nothing
        · rename_i offPath
          rw [List.length_cons] at enough
          split at nothing
          · rename_i old
            obtain ⟨region, ofSeen, ofChains, away⟩ :=
              ih nothing (by omega) (frontier.skip last old)
            refine ⟨region, ofSeen, fun other listed target ends => ?_, away⟩
            rcases List.mem_cons.1 listed with rfl | later
            · have same : slot = target := Option.some_inj.1 (last.symm.trans ends)
              exact same ▸ ofSeen slot old
            · exact ofChains other later target ends
          · rename_i fresh
            -- There is a chain more for each of its waits, but as many waits less to follow.
            have fewer := @unseen_cons waits _ _ fresh
            have longer : (((waits.targets slot).reverse.map fun target => chain ++ [target]) ++
                chains).length = (waits.targets slot).length + chains.length := by
              rw [List.length_append, List.length_map, List.length_reverse]
            obtain ⟨region, ofSeen, ofChains, away⟩ :=
              ih nothing (by omega) (frontier.follow last offPath)
            refine ⟨region, fun other member => ofSeen other (List.mem_cons_of_mem _ member),
              fun other listed target ends => ?_, away⟩
            rcases List.mem_cons.1 listed with rfl | later
            · have same : slot = target := Option.some_inj.1 (last.symm.trans ends)
              exact same ▸ ofSeen slot List.mem_cons_self
            · exact ofChains other (List.mem_append_right _ later) target ends

/-- **When no chain is found, waiting does not lead to the path.** -/
theorem not_reaches_of_chain?_eq_none (nothing : waits.chain? source path = none)
    (reaches : ReflTransGen waits.Edge source slot) : slot ∉ path := by
  -- The source is in a set of slots away from the path that no wait leaves.
  have frontier : waits.IsFrontier path [] [[source]] :=
    ⟨by simp, fun slot none => absurd none List.not_mem_nil,
      fun slot none => absurd none List.not_mem_nil⟩
  have enough : [[source]].length + waits.unseen [] < waits.count + 2 := by
    rw [unseen_nil, List.length_singleton]
    omega
  obtain ⟨region, -, start, away⟩ := exists_closed_of_search nothing enough frontier
  have inside : region slot := by
    induction reaches with
    | refl => exact start [source] (by simp) source (by simp)
    | tail _ edge ih => exact (away _ ih).2 _ edge
  exact (away slot inside).1

/-! ## Soundness -/

/-- What a search finds leads from the source along waits to the path. -/
theorem isChain_of_search (found : waits.search path steps seen chains = some chain)
    (sound : ∀ chain ∈ chains, chain.head? = some source ∧ chain.IsChain waits.Edge) :
    chain.head? = some source ∧ chain.IsChain waits.Edge ∧
      ∃ slot ∈ path, chain.getLast? = some slot := by
  induction steps generalizing seen chains with
  | zero => simp [search] at found
  | succ steps ih =>
    cases chains with
    | nil => simp [search] at found
    | cons first chains =>
      -- Every chain that is looked at begins at the source and goes along waits.
      have others : ∀ chain ∈ chains, chain.head? = some source ∧ chain.IsChain waits.Edge :=
        fun chain member => sound chain (by simp [member])
      obtain ⟨head, links⟩ := sound first (by simp)
      rw [search] at found
      cases last : first.getLast? with
      | none => simp [last] at found
      | some slot =>
        rw [last] at found
        simp only at found
        split at found
        · rename_i onPath
          cases found
          exact ⟨head, links, slot, onPath, last⟩
        · split at found
          · exact ih found others
          · refine ih found fun chain' member => ?_
            rcases List.mem_append.1 member with longer | later
            · obtain ⟨target, listed, rfl⟩ := List.mem_map.1 longer
              refine ⟨by simp [List.head?_append, head], ?_⟩
              refine List.isChain_append.2 ⟨links, List.isChain_singleton _, ?_⟩
              intro slot' ends target' begins
              rw [last, Option.mem_some_iff] at ends
              rw [List.head?_cons, Option.mem_some_iff] at begins
              exact ends ▸ begins ▸ List.mem_reverse.1 listed
            · exact others chain' later

/-- **What is found is a chain of waits** from the source to a slot of the path. -/
theorem isChain_of_chain? (found : waits.chain? source path = some chain) :
    chain.head? = some source ∧ chain.IsChain waits.Edge ∧
      ∃ slot ∈ path, chain.getLast? = some slot :=
  isChain_of_search found (by simp)

/-- No chain is found if and only if waiting does not lead to the path. -/
theorem chain?_eq_none_iff :
    waits.chain? source path = none ↔ ∀ slot ∈ path, ¬ReflTransGen waits.Edge source slot := by
  constructor
  · exact fun nothing slot member reaches => not_reaches_of_chain?_eq_none nothing reaches member
  · intro apart
    cases found : waits.chain? source path with
    | none => rfl
    | some chain =>
      obtain ⟨head, links, slot, member, last⟩ := isChain_of_chain? found
      have nonempty : chain ≠ [] := by
        rintro rfl
        simp at head
      -- A chain that was found would lead from the source to a slot of the path.
      have reaches := List.relationReflTransGen_of_exists_isChain chain links nonempty
      rw [List.head?_eq_some_head nonempty, Option.some_inj] at head
      rw [List.getLast?_eq_some_getLast nonempty, Option.some_inj] at last
      rw [head, last] at reaches
      exact absurd reaches (apart slot member)

end RuleGraph.Waits
