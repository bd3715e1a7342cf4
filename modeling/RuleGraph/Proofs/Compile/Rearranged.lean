import RuleGraph.Proofs.Compile.Unhooked
import Mathlib.Data.List.Perm.Basic

/-! # Programs in another order

Statements are numbered in the order of a program, features are not. Without custom hooks, features
may be moved about among the rules: the program is lowered to the same slots in another order.

* **`Program.Rearranged`** — the same definitions in another order, with rules in the same one.
* **`Lowered.exists_features_of_putsAll`** — the slots of features do not depend on their places.
* **`lowerProgram?_rearranged`** — a rearranged program is lowered to the same slots.
-/

namespace RuleGraph

/-- Whether a definition is a rule. -/
def Definition.isRule : Definition → Bool
  | .feature _ _ => false
  | .rule _ _ => true

/-- Two programs have the same definitions, and the rules among them in the same order. -/
structure Program.Rearranged (program other : Program) : Prop where
  /-- The definitions are the same. -/
  perm : other.Perm program
  /-- Rules keep their order. -/
  rules : other.filter Definition.isRule = program.filter Definition.isRule

/-- It is so in both directions. -/
theorem Program.Rearranged.symm {program other : Program} (rearranged : program.Rearranged other) :
    other.Rearranged program :=
  ⟨rearranged.perm.symm, rearranged.rules.symm⟩

/-- The features are the same. -/
theorem Program.Rearranged.features {program other : Program}
    (rearranged : program.Rearranged other) :
    (other.filter fun definition => !definition.isRule).Perm
      (program.filter fun definition => !definition.isRule) :=
  rearranged.perm.filter _

variable {scope : Scope} {limit rounds : Nat} {program other : Program}

namespace Lowered

variable {groups groups' : Groups} {slots : List Slot}

/-- A slot is that of a feature, whatever statements there are. -/
def IsSlotOf (scope : Scope) (limit : Nat) (definition : Definition) (slot : Slot) : Prop :=
  ∀ groups, Puts (fun lowered => lowered.addDefinition scope limit definition) groups [slot] groups

/-- Slots that definitions put are those of the features and those that the rules put by
themselves. -/
theorem exists_features_of_putsAll (unhooked : scope.catalog.HasNoCustomHooks)
    (all : PutsAll (addDefinition scope limit) program groups slots groups') :
    ∃ features rules, slots.Perm (features ++ rules) ∧
      List.Forall₂ (IsSlotOf scope limit) (program.filter fun definition => !definition.isRule)
        features ∧
      PutsAll (addDefinition scope limit) (program.filter Definition.isRule) groups rules
        groups' := by
  induction all with
  | nil => exact ⟨[], [], .nil, .nil, .nil⟩
  | @cons definition rest groups slots between more groups' first later ih =>
    obtain ⟨features, rules, perm, each, all⟩ := ih
    cases definition with
    | feature name body =>
      obtain ⟨-, slot, same, everywhere⟩ :=
        exists_puts_of_addFeature unhooked (first [] { defined := [] })
      cases same
      exact ⟨slot :: features, rules, perm.cons slot, .cons everywhere each, all⟩
    | rule condition calls =>
      refine ⟨features, slots ++ rules, ?_, each, .cons first all⟩
      exact (perm.append_left slots).trans (List.perm_append_comm_assoc _ _ _)

/-- Slots of features, and those that rules put by themselves, are put together. -/
theorem exists_putsAll_of_features {features rules : List Slot}
    (each : List.Forall₂ (IsSlotOf scope limit)
      (program.filter fun definition => !definition.isRule) features)
    (all : PutsAll (addDefinition scope limit) (program.filter Definition.isRule) groups rules
      groups') :
    ∃ slots, slots.Perm (features ++ rules) ∧
      PutsAll (addDefinition scope limit) program groups slots groups' := by
  induction program generalizing features rules groups with
  | nil =>
    cases each
    cases all
    exact ⟨[], .nil, .nil⟩
  | cons definition rest ih =>
    cases definition with
    | feature name body =>
      obtain _ | ⟨own, each⟩ := each
      obtain ⟨slots, perm, puts⟩ := ih each all
      exact ⟨_, perm.cons _, .cons (own groups) puts⟩
    | rule condition calls =>
      obtain _ | ⟨own, all⟩ := all
      obtain ⟨slots, perm, puts⟩ := ih each all
      exact ⟨_, (perm.append_left _).trans (List.perm_append_comm_assoc _ _ _), .cons own puts⟩

/-- **Rearranged definitions put the same slots** in another order, and list the same statements. -/
theorem PutsAll.rearranged (unhooked : scope.catalog.HasNoCustomHooks)
    (rearranged : program.Rearranged other)
    (all : PutsAll (addDefinition scope limit) program groups slots groups') :
    ∃ slots', slots'.Perm slots ∧
      PutsAll (addDefinition scope limit) other groups slots' groups' := by
  obtain ⟨features, rules, perm, each, onRules⟩ := exists_features_of_putsAll unhooked all
  obtain ⟨features', each', moved⟩ := List.perm_comp_forall₂ rearranged.features each
  rw [← rearranged.rules] at onRules
  obtain ⟨slots', perm', puts⟩ := exists_putsAll_of_features each' onRules
  exact ⟨slots', (perm'.trans (moved.append_right rules)).trans perm.symm, puts⟩

end Lowered

/-- **A rearranged program is lowered to the same slots**: in another order those of the
definitions, in the same order the statement features. -/
theorem lowerProgram?_rearranged (unhooked : scope.catalog.HasNoCustomHooks)
    (rearranged : program.Rearranged other) {found : Option (List Slot)}
    (lowered : lowerProgram? scope limit rounds program = .ok found) :
    ∃ slots slots', ∃ groups : Groups, found = some (slots ++ groups.slots) ∧
      lowerProgram? scope limit rounds other = .ok (some (slots' ++ groups.slots)) ∧
      slots'.Perm slots ∧ ∀ slot ∈ slots, slot.isGroup = false := by
  obtain ⟨slots, groups, all, rfl⟩ := (lowerProgram?_eq_ok_iff unhooked).1 lowered
  obtain ⟨slots', perm, all'⟩ := all.rearranged unhooked rearranged
  exact ⟨slots, slots', groups, rfl, (lowerProgram?_eq_ok_iff unhooked).2 ⟨_, _, all', rfl⟩, perm,
    all.isGroup_eq_false⟩

end RuleGraph
