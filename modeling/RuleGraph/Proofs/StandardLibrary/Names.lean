import RuleGraph.Proofs.Compile.Plain
import RuleGraph.StandardLibrary

/-! # The names of the standard library

What call sites see of the library, from whichever package: no function has a package, all names can
be written in source, one hook replaces calls, and one statement feature collects statements.

* **`StandardLibrary.kind_of_mem`** — the kinds of functions there are;
  `StandardLibrary.eq_concatHook_of_mem`, `StandardLibrary.eq_logStatements_of_mem`.
* **`Scope.isTame_standard`**, **`Scope.hasProperNames_standard`** — hooks and names.
* **`Scope.isIdle_input_standard`** — inputs are no calls of functions.
-/

namespace RuleGraph

open Source StandardLibrary

variable {entry : Entry} {package : Option String}

namespace StandardLibrary

/-- The library has functions that compute values, a hook that joins texts, and the logging
statement. -/
theorem kind_of_mem (member : entry ∈ Catalog.standard.entries) :
    entry.IsValue ∨ entry.kind = .transform concatHook ∨
      entry.kind = .statement logStatements logStatement := by
  obtain ⟨registration, listed, rfl⟩ := List.mem_map.1 member
  simp only [registrations, List.mem_cons, List.not_mem_nil, or_false] at listed
  rcases listed with rfl | rfl | rfl | rfl | rfl | rfl | rfl | rfl | rfl | rfl | rfl | rfl
  all_goals first
    | exact .inl (.inr ⟨_, rfl⟩)
    | exact .inr (.inl rfl)
    | exact .inr (.inr rfl)

/-- The only hook joins texts. -/
theorem eq_concatHook_of_mem (member : entry ∈ Catalog.standard.entries)
    {hook : CallNode → Except CompileError Expr} (kind : entry.kind = .transform hook) :
    hook = concatHook := by
  have known := kind_of_mem member
  rw [Entry.IsValue, kind] at known
  simpa using known

/-- No hook takes raw text. -/
theorem ne_custom_of_mem (member : entry ∈ Catalog.standard.entries) (hook : CustomNode → Hook) :
    entry.kind ≠ .custom hook := by
  intro kind
  have known := kind_of_mem member
  rw [Entry.IsValue, kind] at known
  simp at known

/-- The only statement feature collects the logging statements. -/
theorem eq_logStatements_of_mem (member : entry ∈ Catalog.standard.entries) {feature : String}
    {body : Invocation → List Value → Action Unit} (kind : entry.kind = .statement feature body) :
    feature = logStatements := by
  have known := kind_of_mem member
  rw [Entry.IsValue, kind] at known
  have same : feature = logStatements ∧ body = logStatement := by simpa using known
  exact same.1

/-- The names of the library can be written in source. -/
theorem isName_of_mem (member : entry ∈ Catalog.standard.entries) :
    IsName entry.qualifiedName ∨
      entry.qualifiedName = "not" ∧ ∀ args, entry.Accepts args → args.length = 1 := by
  have names : ∀ registration ∈ registrations, IsName registration.name ∨
      registration.name = "not" ∧ registration.options.args = some { required := [.any] } := by
    decide
  obtain ⟨registration, listed, rfl⟩ := List.mem_map.1 member
  refine (names registration listed).imp_right fun ⟨isNot, shape⟩ => ⟨isNot, fun args accepts => ?_⟩
  have fits := accepts _ shape
  have enough : 1 ≤ args.length := fits.enough
  have few : args.length ≤ 1 := fits.few rfl
  exact Nat.le_antisymm few enough

/-- No function of the library is named like inputs. -/
theorem ne_input_of_mem (member : entry ∈ Catalog.standard.entries) :
    entry.qualifiedName ≠ inputFunction ∧ '.' ∉ entry.qualifiedName.toList := by
  have names : ∀ registration ∈ registrations,
      registration.name ≠ inputFunction ∧ '.' ∉ registration.name.toList := by
    decide
  obtain ⟨registration, listed, rfl⟩ := List.mem_map.1 member
  exact names registration listed

end StandardLibrary

/-- No function of the library belongs to a package. -/
theorem Catalog.hasPlainPackages_standard : Catalog.standard.HasPlainPackages := by
  intro entry member package belongs
  obtain ⟨registration, -, rfl⟩ := List.mem_map.1 member
  cases belongs

namespace Scope

/-- The names of the library can be written in source. -/
theorem hasProperNames_standard : Scope.HasProperNames ⟨.standard, package⟩ :=
  fun found => isName_of_mem (mem_of_lookup found)

/-- The hook of the library makes plain expressions of plain ones. -/
theorem isTame_standard : Scope.IsTame ⟨.standard, package⟩ := by
  refine ⟨fun {name entry hook} found kind {node replaced} made plain => ?_,
    fun {name entry hook} found => ne_custom_of_mem (mem_of_lookup found) hook⟩
  obtain rfl := eq_concatHook_of_mem (mem_of_lookup found) kind
  unfold concatHook at made
  split at made
  · cases made
    exact .const (.text _)
  · cases made
    exact .call plain

/-- Inputs are no calls of functions. -/
theorem isIdle_input_standard :
    (Expr.call inputFunction []).IsIdle ⟨.standard, package⟩ := by
  intro pass
  rw [rewriteOnce_call, Expr.rewriteAll_of_isIdle (by simp)]
  show rewriteCall ⟨.standard, package⟩ ⟨inputFunction, []⟩ pass = _
  unfold rewriteCall
  split
  · rfl
  · rename_i found
    obtain ⟨other, noPoint⟩ := ne_input_of_mem (mem_of_lookup found)
    exact (qualifiedName_of_lookup found).elim (absurd · other) (absurd · noPoint)

end Scope

/-- All statements of a program in the library belong to one statement feature. -/
theorem feature_of_isLowered_standard {slot : Slot} (lowered : slot.IsLowered ⟨.standard, package⟩)
    {feature : String} {condition : Option SlotExpr} {call : SlotExpr}
    (kind : slot.kind = .statement feature condition call) : feature = logStatements := by
  cases lowered with
  | statement holds found statement accepts each =>
    cases kind
    exact eq_logStatements_of_mem (Scope.mem_of_lookup found) statement
  | input | feature | group => cases kind

end RuleGraph
