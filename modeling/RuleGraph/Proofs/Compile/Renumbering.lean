import RuleGraph.Proofs.Compile.Numbering
import RuleGraph.Proofs.Graph.Order
import RuleGraph.Proofs.Text.Numerals

/-! # Slots that are numbered anew

Slots in dependency order may be lowered once more, in that order. Statements then get other numbers
in their names, but nothing reads a single statement by its name except its statement feature, which
reads all of them. So the slots stay in the order in which they are.

* **`Slot.renumber_append`**, **`Slot.forall₂_renumber`** — what is numbered anew, slot by slot.
* **`Slot.AreNumberable`** — numbers of statements stand in no other names.
* **`IsGreedyOrder.renumber`** — slots that are numbered anew stay in order.
-/

namespace RuleGraph

namespace Slot

variable {slots : List Slot} {number : Nat}

/-! ## Slot by slot -/

/-- Numbers go on behind the slots in front. -/
theorem renumber_append (number : Nat) (before after : List Slot) :
    renumber number (before ++ after) =
      renumber number before ++ renumber (number + countStatements before) after := by
  induction before generalizing number with
  | nil => rfl
  | cons slot rest ih =>
    rw [List.cons_append]
    cases single : slot.isSingleStatement with
    | true =>
      obtain ⟨feature, condition, call, kind⟩ := exists_kind_of_isSingleStatement single
      rw [renumber_cons_statement kind, renumber_cons_statement kind, ih,
        countStatements_cons_single single, Nat.add_right_comm, Nat.add_assoc, List.cons_append]
    | false =>
      rw [renumber_cons_other single, renumber_cons_other single, ih,
        countStatements_cons_other single, List.cons_append]

/-- A slot is another one, except that statements may have other names. -/
structure IsRenamed (slot slot' : Slot) : Prop where
  /-- It computes the same. -/
  kind : slot'.kind = slot.kind
  /-- It depends on the same slots. -/
  deps : slot'.deps = slot.deps
  /-- Only statements get other names. -/
  eq_self : slot.isSingleStatement = false → slot' = slot

/-- Slots are numbered anew one by one. -/
theorem forall₂_renumber (number : Nat) (slots : List Slot) :
    List.Forall₂ IsRenamed slots (renumber number slots) := by
  induction slots generalizing number with
  | nil => exact .nil
  | cons slot rest ih =>
    cases single : slot.isSingleStatement with
    | true =>
      obtain ⟨feature, condition, call, kind⟩ := exists_kind_of_isSingleStatement single
      rw [renumber_cons_statement kind]
      refine .cons ⟨rfl, rfl, fun other => ?_⟩ (ih _)
      rw [single] at other
      cases other
    | false =>
      rw [renumber_cons_other single]
      exact .cons ⟨rfl, rfl, fun _ => rfl⟩ (ih _)

/-- Every slot is another one. -/
theorem exists_isRenamed {slots slots' : List Slot} (each : List.Forall₂ IsRenamed slots slots')
    {slot' : Slot} (member : slot' ∈ slots') : ∃ slot ∈ slots, IsRenamed slot slot' := by
  obtain ⟨place, bound, rfl⟩ := List.getElem_of_mem member
  have bound' : place < slots.length := each.length_eq ▸ bound
  exact ⟨_, List.getElem_mem bound', each.get bound' bound⟩

/-- What is numbered anew comes from slots in the same places. -/
theorem eq_append_of_renumber_eq_append {slot' : Slot} {before' after' : List Slot}
    (split : renumber number slots = before' ++ slot' :: after') :
    ∃ before slot after, slots = before ++ slot :: after ∧ before' = renumber number before ∧
      slot' :: after' = renumber (number + countStatements before) (slot :: after) := by
  have whole := renumber_append number (slots.take before'.length) (slots.drop before'.length)
  have lengths := (forall₂_renumber number slots).length_eq
  rw [split, List.length_append, List.length_cons] at lengths
  rw [List.take_append_drop, split] at whole
  have front : before'.length = (renumber number (slots.take before'.length)).length := by
    rw [← (forall₂_renumber _ _).length_eq, List.length_take]
    omega
  obtain ⟨same, rest⟩ := List.append_inj whole front
  obtain ⟨slot, after, parts⟩ : ∃ slot after, slots.drop before'.length = slot :: after := by
    refine List.exists_cons_of_length_pos ?_
    rw [List.length_drop]
    omega
  rw [parts] at rest
  refine ⟨slots.take before'.length, slot, after, ?_, same, rest⟩
  rw [← parts, List.take_append_drop]

/-- Slots without the statement features are numbered anew just as with them. -/
theorem filter_renumber (number : Nat) (slots : List Slot) :
    (renumber number slots).filter (fun slot => !slot.isGroup) =
      renumber number (slots.filter fun slot => !slot.isGroup) := by
  induction slots generalizing number with
  | nil => rfl
  | cons slot rest ih =>
    cases single : slot.isSingleStatement with
    | true =>
      obtain ⟨feature, condition, call, kind⟩ := exists_kind_of_isSingleStatement single
      have no := isGroup_of_isSingleStatement single
      have no' : ∀ name, ({ slot with name := name } : Slot).isGroup = false := fun _ => no
      simp only [renumber_cons_statement kind, List.filter_cons, no, no', Bool.not_false, if_true,
        ih]
    | false =>
      rw [renumber_cons_other single, List.filter_cons, List.filter_cons, ih]
      split
      · rw [renumber_cons_other single]
      · rfl

/-- Other slots than statements are not numbered. -/
theorem filter_other_renumber (number : Nat) (slots : List Slot) :
    (renumber number slots).filter (fun slot => !slot.isSingleStatement) =
      slots.filter fun slot => !slot.isSingleStatement := by
  induction slots generalizing number with
  | nil => rfl
  | cons slot rest ih =>
    cases single : slot.isSingleStatement with
    | true =>
      obtain ⟨feature, condition, call, kind⟩ := exists_kind_of_isSingleStatement single
      have single' : ∀ name, ({ slot with name := name } : Slot).isSingleStatement = true :=
        fun _ => single
      simp only [renumber_cons_statement kind, List.filter_cons, single, single', Bool.not_true,
        Bool.false_eq_true, if_false, ih]
    | false => rw [renumber_cons_other single, List.filter_cons, List.filter_cons, ih]

/-- Statement features are not numbered. -/
theorem filter_isGroup_renumber (number : Nat) (slots : List Slot) :
    (renumber number slots).filter isGroup = slots.filter isGroup := by
  have among : ∀ slots : List Slot, slots.filter isGroup =
      (slots.filter fun slot => !slot.isSingleStatement).filter isGroup := by
    intro slots
    rw [List.filter_filter]
    refine List.filter_congr fun slot _ => ?_
    cases single : slot.isSingleStatement with
    | true => rw [isGroup_of_isSingleStatement single, Bool.false_and]
    | false => rw [Bool.not_false, Bool.and_true]
  rw [among, filter_other_renumber, ← among]

/-- The statements get the numbers in a row. -/
theorem map_name_filter_renumber {feature : String} (only : AreStatementsOf feature slots)
    (number : Nat) : ((renumber number slots).filter isSingleStatement).map name =
      (List.range' number (countStatements slots)).map (CompileState.numbered feature) := by
  induction slots generalizing number with
  | nil => rfl
  | cons slot rest ih =>
    obtain ⟨first, others⟩ := List.forall_mem_cons.1 only
    cases single : slot.isSingleStatement with
    | true =>
      obtain ⟨feature', condition, call, kind⟩ := exists_kind_of_isSingleStatement single
      obtain rfl := first _ _ _ kind
      have single' : ∀ name, ({ slot with name := name } : Slot).isSingleStatement = true :=
        fun _ => single
      rw [renumber_cons_statement kind, List.filter_cons_of_pos (single' _), List.map_cons,
        ih others, countStatements_cons_single single, List.range'_succ, List.map_cons]
    | false =>
      rw [renumber_cons_other single, List.filter_cons_of_neg (by rw [single]; decide), ih others,
        countStatements_cons_other single]

/-- Slots stay as they are if their statements have the numbers in a row already. -/
theorem renumber_eq_self_iff {feature : String} (only : AreStatementsOf feature slots) :
    renumber number slots = slots ↔ (slots.filter isSingleStatement).map Slot.name =
      (List.range' number (countStatements slots)).map (CompileState.numbered feature) := by
  induction slots generalizing number with
  | nil => exact ⟨fun _ => rfl, fun _ => rfl⟩
  | cons slot rest ih =>
    obtain ⟨first, others⟩ := List.forall_mem_cons.1 only
    cases single : slot.isSingleStatement with
    | true =>
      obtain ⟨feature', condition, call, kind⟩ := exists_kind_of_isSingleStatement single
      obtain rfl := first _ _ _ kind
      rw [renumber_cons_statement kind, List.filter_cons_of_pos single, List.map_cons,
        countStatements_cons_single single, List.range'_succ, List.map_cons, List.cons.injEq,
        List.cons.injEq, ih others]
      refine and_congr_left fun _ => ⟨fun same => ?_, fun same => ?_⟩
      · rw [← same]
      · rw [← same]
    | false =>
      rw [renumber_cons_other single, List.filter_cons_of_neg (by rw [single]; decide),
        countStatements_cons_other single, List.cons.injEq, ih others]
      exact and_iff_right rfl

/-! ## Names -/

/-- Whether a name holds the mark that stands in front of numbers. -/
def HasNumber (name : String) : Prop := '#' ∈ name.toList

/-- Numbers have the mark. -/
theorem hasNumber_numbered (stem : String) (number : Nat) :
    HasNumber (CompileState.numbered stem number) := by
  rw [HasNumber, CompileState.numbered, String.toList_append, String.toList_append]
  exact List.mem_append_left _ (List.mem_append_right _ (by decide))

/-- A statement that was added has a number. -/
theorem hasNumber_of_isNumbered {lowered : Lowered} {feature : String} {slot : Slot}
    (numbered : lowered.IsNumbered) (member : slot ∈ lowered.slots)
    (own : slot.isStatementOf feature = true) : HasNumber slot.name := by
  have listed : slot.name ∈ lowered.groups.members feature := by
    rw [numbered.listed]
    exact List.mem_map_of_mem (List.mem_filter.2 ⟨member, own⟩)
  rw [numbered.numbers] at listed
  obtain ⟨number, -, same⟩ := List.mem_map.1 listed
  exact same ▸ hasNumber_numbered feature number

/-- Just the names of statements have numbers. -/
def AreNamed (slots : List Slot) : Prop :=
  ∀ slot ∈ slots, HasNumber slot.name ↔ slot.isSingleStatement = true

/-- A name without a number is that of the same slot. -/
theorem mem_map_name_renumber (named : AreNamed slots) {name : String} (plain : ¬HasNumber name) :
    name ∈ (renumber number slots).map Slot.name ↔ name ∈ slots.map Slot.name := by
  induction slots generalizing number with
  | nil => rfl
  | cons slot rest ih =>
    obtain ⟨first, others⟩ := List.forall_mem_cons.1 named
    cases single : slot.isSingleStatement with
    | true =>
      obtain ⟨feature, condition, call, kind⟩ := exists_kind_of_isSingleStatement single
      have old : name ≠ slot.name := fun same => plain (same ▸ first.2 single)
      have new : name ≠ CompileState.numbered feature number :=
        fun same => plain (same ▸ hasNumber_numbered feature number)
      rw [renumber_cons_statement kind, List.map_cons, List.map_cons, List.mem_cons, List.mem_cons,
        ih others]
      exact (or_iff_right new).trans (or_iff_right old).symm
    | false =>
      rw [renumber_cons_other single, List.map_cons, List.map_cons, List.mem_cons, List.mem_cons,
        ih others]

/-- Different numbers make different names. -/
theorem numbered_injective (stem : String) : Function.Injective (CompileState.numbered stem) := by
  intro a b same
  rw [CompileState.numbered, CompileState.numbered, String.append_right_inj] at same
  exact Numeral.natText_injective same

/-- Names stay distinct. -/
theorem nodup_map_name_renumber {feature : String} (only : AreStatementsOf feature slots)
    (named : AreNamed slots) (nodup : (slots.map Slot.name).Nodup) :
    ((renumber number slots).map Slot.name).Nodup := by
  have parts := (List.filter_append_perm isSingleStatement (renumber number slots)).map Slot.name
  rw [List.map_append, map_name_filter_renumber only, filter_other_renumber] at parts
  refine parts.nodup_iff.1 (List.nodup_append.2 ⟨?_, ?_, ?_⟩)
  · exact List.Nodup.map (numbered_injective feature) List.nodup_range'
  · exact nodup.sublist (List.filter_sublist.map _)
  · rintro name here other there rfl
    obtain ⟨place, -, rfl⟩ := List.mem_map.1 here
    obtain ⟨slot, member, same⟩ := List.mem_map.1 there
    obtain ⟨member, isOther⟩ := List.mem_filter.1 member
    have single := (named slot member).1 (same ▸ hasNumber_numbered feature place)
    rw [single] at isOther
    cases isOther

/-- Slots of one statement feature that can be numbered anew: nothing reads a statement by its name
except the statement feature, which lists all numbers. -/
structure AreNumberable (feature : String) (slots : List Slot) : Prop where
  /-- There is one statement feature. -/
  statements : AreStatementsOf feature slots
  /-- Just the names of statements have numbers. -/
  named : AreNamed slots
  /-- No number is read. -/
  deps : ∀ slot ∈ slots, slot.isGroup = false → ∀ dep ∈ slot.deps, ¬HasNumber dep
  /-- The statement feature lists all numbers. -/
  groups : slots.filter isGroup = (Groups.counted feature (countStatements slots)).slots

namespace AreNumberable

variable {feature : String} (numberable : AreNumberable feature slots)
include numberable

/-- A statement feature lists all numbers. -/
theorem deps_of_isGroup {slot : Slot} (member : slot ∈ slots) (group : slot.isGroup = true) :
    slot.deps = (List.range (countStatements slots)).map (CompileState.numbered feature) := by
  have listed : slot ∈ (Groups.counted feature (countStatements slots)).slots := by
    rw [← numberable.groups]
    exact List.mem_filter.2 ⟨member, group⟩
  rw [Groups.counted] at listed
  split at listed
  · cases listed
  · rw [List.mem_singleton.1 listed]
    rfl

/-- All statement features together list the numbers. -/
theorem flatMap_deps : (slots.filter isGroup).flatMap Slot.deps =
    (List.range (countStatements slots)).map (CompileState.numbered feature) := by
  rw [numberable.groups, Groups.counted]
  split
  · rename_i none
    rw [none]
    rfl
  · exact List.append_nil _

/-- What slots name is there after they are numbered anew. -/
theorem namesSlots (names : Graph.NamesSlots slots) : Graph.NamesSlots (renumber 0 slots) := by
  intro slot' member' dep inside
  obtain ⟨slot, member, renamed⟩ := exists_isRenamed (forall₂_renumber 0 slots) member'
  rw [renamed.deps] at inside
  cases group : slot.isGroup with
  | false =>
    exact (mem_map_name_renumber numberable.named (numberable.deps slot member group dep inside)).2
      (names slot member dep inside)
  | true =>
    have numbers := map_name_filter_renumber numberable.statements 0
    rw [← List.range_eq_range', ← numberable.deps_of_isGroup member group] at numbers
    exact (List.filter_sublist.map _).subset (numbers ▸ inside)

end AreNumberable

end Slot

open Slot

/-! ## Order -/

/-- With the statement features behind all other slots, a slot is the first one to be ready if none
in front of it is, and none at all in case of a statement feature. -/
theorem find?_filter_append_filter {ready : Slot → Bool} {before after : List Slot} {slot : Slot}
    (placed : ∀ other ∈ before, ready other = false) (here : ready slot = true)
    (later : slot.isGroup = true → ∀ other ∈ after, other.isGroup = false → ready other = false) :
    ((before ++ slot :: after).filter (fun slot => !slot.isGroup) ++
      (before ++ slot :: after).filter isGroup).find? ready = some slot := by
  have front : ∀ test : Slot → Bool, (before.filter test).find? ready = none := by
    intro test
    refine List.find?_eq_none.2 fun other member => ?_
    rw [placed other (List.mem_of_mem_filter member)]
    exact Bool.false_ne_true
  rw [List.find?_append, List.filter_append, List.find?_append, front, List.filter_append,
    List.find?_append, front, Option.none_or, Option.none_or]
  cases group : slot.isGroup with
  | false =>
    rw [List.filter_cons_of_pos (by rw [group]; rfl), List.find?_cons_of_pos here, Option.some_or]
  | true =>
    have others : (after.filter fun slot => !slot.isGroup).find? ready = none := by
      refine List.find?_eq_none.2 fun other member => ?_
      obtain ⟨member, isOther⟩ := List.mem_filter.1 member
      rw [later group other member (by simpa using isOther)]
      exact Bool.false_ne_true
    rw [List.filter_cons_of_neg (by rw [group]; decide), others, Option.none_or,
      List.filter_cons_of_pos group, List.find?_cons_of_pos here]

namespace IsGreedyOrder

variable {feature : String} {lowered ordered before after : List Slot} {slot : Slot}

/-- When a statement feature comes next, its statements are there. -/
theorem countStatements_before (greedy : IsGreedyOrder (lowered ++ ordered.filter isGroup) ordered)
    (numberable : AreNumberable feature ordered) (split : ordered = before ++ slot :: after)
    (group : slot.isGroup = true) :
    slot.deps = (List.range (countStatements before)).map (CompileState.numbered feature) := by
  have deps := numberable.deps_of_isGroup
    (split ▸ List.mem_append_right _ List.mem_cons_self) group
  -- All numbers are different names of statements in front, so there are as many of these.
  have inside : slot.deps ⊆ (before.filter isSingleStatement).map Slot.name := by
    intro dep member
    obtain ⟨other, there, rfl⟩ := List.mem_map.1 (greedy.mem_before split dep member)
    obtain ⟨place, -, same⟩ := List.mem_map.1 (deps ▸ member)
    have among : other ∈ ordered := split ▸ List.mem_append_left _ there
    have single := (numberable.named other among).1 (same ▸ hasNumber_numbered feature place)
    exact List.mem_map_of_mem (List.mem_filter.2 ⟨there, single⟩)
  have distinct : slot.deps.Nodup := by
    rw [deps]
    exact List.nodup_range.map (numbered_injective feature)
  have enough := (distinct.subperm inside).length_le
  have total : countStatements ordered =
      countStatements before + countStatements (slot :: after) := by
    rw [split]
    exact List.countP_append
  have count : countStatements ordered = countStatements before := by
    rw [deps, List.length_map, List.length_range, List.length_map,
      ← List.countP_eq_length_filter] at enough
    have fewer : countStatements ordered ≤ countStatements before := enough
    omega
  rw [deps, count]

/-- When a statement feature comes next, no other slot is ready. -/
theorem exists_dep_of_group (greedy : IsGreedyOrder (lowered ++ ordered.filter isGroup) ordered)
    (ungrouped : ∀ slot ∈ lowered, slot.isGroup = false) (nodup : (ordered.map Slot.name).Nodup)
    (split : ordered = before ++ slot :: after) (group : slot.isGroup = true) {other : Slot}
    (member : other ∈ after) (isOther : other.isGroup = false) :
    ∃ dep ∈ other.deps, dep ∉ before.map Slot.name := by
  obtain ⟨none, -⟩ := greedy.find?_of_group ungrouped split group
  have among : other ∈ ordered := by
    rw [split]
    exact List.mem_append_right _ (List.mem_cons_of_mem _ member)
  have listed : other ∈ lowered := by
    rcases List.mem_append.1 (greedy.perm.mem_iff.1 among) with here | there
    · exact here
    · rw [(List.mem_filter.1 there).2] at isOther
      cases isOther
  have apart : other.name ∉ before.map Slot.name := by
    intro here
    rw [split, List.map_append] at nodup
    exact (List.nodup_append.1 nodup).2.2 _ here _
      (List.mem_map_of_mem (List.mem_cons_of_mem _ member)) rfl
  by_contra nothing
  refine List.find?_eq_none.1 none other listed (Slot.isReady_iff.2 ⟨apart, fun dep inside => ?_⟩)
  by_contra missing
  exact nothing ⟨dep, inside, missing⟩

/-- **Slots that are numbered anew stay in order**: it is that of lowering them once more. -/
theorem renumber (greedy : IsGreedyOrder (lowered ++ ordered.filter isGroup) ordered)
    (ungrouped : ∀ slot ∈ lowered, slot.isGroup = false) (nodup : (ordered.map Slot.name).Nodup)
    (numberable : AreNumberable feature ordered) :
    IsGreedyOrder
      (Slot.renumber 0 (ordered.filter fun slot => !slot.isGroup) ++ ordered.filter isGroup)
      (Slot.renumber 0 ordered) := by
  rw [← filter_renumber, ← filter_isGroup_renumber 0]
  refine ⟨(List.perm_append_comm.trans (List.filter_append_perm isGroup _)).symm, ?_⟩
  intro before' slot' after' split'
  obtain ⟨before, slot, after, split, rfl, rest⟩ := eq_append_of_renumber_eq_append split'
  have nodup' := @nodup_map_name_renumber _ 0 _ numberable.statements numberable.named nodup
  have named : AreNamed before := fun other member =>
    numberable.named other (split ▸ List.mem_append_left _ member)
  have only : AreStatementsOf feature before := fun other member =>
    numberable.statements other (split ▸ List.mem_append_left _ member)
  have each := forall₂_renumber (0 + countStatements before) (slot :: after)
  rw [← rest] at each
  cases each with
  | cons renamed others =>
    have sameGroup : slot'.isGroup = slot.isGroup := by rw [isGroup, renamed.kind, isGroup]
    have here : slot ∈ ordered := split ▸ List.mem_append_right _ List.mem_cons_self
    rw [split']
    refine find?_filter_append_filter (fun other member => ?_) ?_ fun group other' member no => ?_
    · -- What is there is not ready.
      rw [← Bool.not_eq_true, Slot.isReady_iff]
      exact fun ready => ready.1 (List.mem_map_of_mem member)
    · refine Slot.isReady_iff.2 ⟨fun again => ?_, fun dep member => ?_⟩
      · rw [split', List.map_append] at nodup'
        exact (List.nodup_append.1 nodup').2.2 _ again _ List.mem_cons_self rfl
      · rw [renamed.deps] at member
        cases group : slot.isGroup with
        | false =>
          exact (mem_map_name_renumber named (numberable.deps slot here group dep member)).2
            (greedy.mem_before split dep member)
        | true =>
          have numbers := map_name_filter_renumber only 0
          rw [← List.range_eq_range', ← greedy.countStatements_before numberable split group]
            at numbers
          exact (List.filter_sublist.map _).subset (numbers ▸ member)
    · obtain ⟨other, there, renamed'⟩ := exists_isRenamed others member
      have no' : other.isGroup = false := by rwa [isGroup, renamed'.kind] at no
      obtain ⟨dep, reads, missing⟩ :=
        greedy.exists_dep_of_group ungrouped nodup split (sameGroup ▸ group) there no'
      have among : other ∈ ordered :=
        split ▸ List.mem_append_right _ (List.mem_cons_of_mem _ there)
      rw [← Bool.not_eq_true, Slot.isReady_iff, renamed'.deps]
      intro ready
      exact missing ((mem_map_name_renumber named (numberable.deps other among no' dep reads)).1
        (ready.2 dep reads))

end IsGreedyOrder

/-- **Slots in order are linked in the same order once more**, with their statements numbered
anew. -/
theorem linkSlots_renumber {feature : String} {lowered : List Slot} {graph : Graph}
    (linked : linkSlots (lowered ++ graph.slots.filter isGroup) = .ok graph)
    (ungrouped : ∀ slot ∈ lowered, slot.isGroup = false)
    (numberable : AreNumberable feature graph.slots) :
    ∃ graph', linkSlots (Slot.renumber 0 (graph.slots.filter fun slot => !slot.isGroup) ++
      graph.slots.filter isGroup) = .ok graph' ∧ graph'.slots = Slot.renumber 0 graph.slots := by
  have isLinked := (isBuilt_of_linkSlots linked).1.linked
  have greedy := (isGreedyOrder_of_linkSlots linked).renumber ungrouped isLinked.nodup numberable
  have nodup := @nodup_map_name_renumber _ 0 _ numberable.statements numberable.named isLinked.nodup
  have names := numberable.namesSlots isLinked.namesSlots
  refine exists_linkSlots_of_isGreedyOrder greedy ((greedy.perm.map _).nodup_iff.1 nodup) ?_
  intro slot member dep inside
  exact (greedy.perm.map _).mem_iff.1 (names slot (greedy.perm.mem_iff.2 member) dep inside)

end RuleGraph
