import RuleGraph.Executable
import RuleGraph.Proofs.Routine.Fetches
import Mathlib.Data.List.TakeDrop
import Mathlib.Data.List.TakeWhile

/-! # Qualified names

A call site may name a function by less than its qualified name, depending on the package from
which it is seen. Compiled graphs carry the qualified name, and an executable looks that up again.

* **`splitName?_eq_some_iff`** — a name is taken apart at its first point.
* **`Catalog.HasPlainPackages`** — no name of a package has a point in it.
* **`Scope.lookup_qualifiedName`** — then a qualified name stands for the same entry from anywhere.
* **`Executable.function?_ofGraph`** — names that a graph calls are bound to what they stand for.
-/

namespace RuleGraph

/-! ## Names with a point -/

/-- A list is cut at the first member that fails a test. -/
theorem span_eq_iff {α : Type} {test : α → Bool} {members before after : List α} {first : α} :
    members.span test = (before, first :: after) ↔
      members = before ++ first :: after ∧ (∀ a ∈ before, test a = true) ∧ test first = false := by
  rw [List.span_eq_takeWhile_dropWhile, Prod.mk.injEq]
  constructor
  · rintro ⟨rfl, dropped⟩
    have whole := List.takeWhile_append_dropWhile (p := test) (l := members)
    have head := List.head?_dropWhile_not test members
    rw [dropped] at whole head
    exact ⟨whole.symm, fun a member => List.mem_takeWhile_imp member, by simpa using head⟩
  · rintro ⟨rfl, each, fails⟩
    have stops : ¬test first = true := by simp [fails]
    constructor
    · rw [List.takeWhile_append_of_pos each, List.takeWhile_cons_of_neg stops, List.append_nil]
    · rw [List.dropWhile_append_of_pos each, List.dropWhile_cons_of_neg stops]

/-- A name is taken apart at its first point. -/
theorem splitName?_eq_some_iff {name package rest : String} :
    splitName? name = some (package, rest) ↔
      name = package ++ "." ++ rest ∧ '.' ∉ package.toList := by
  have point : ".".toList = ['.'] := by decide
  have cut : splitName? name = some (package, rest) ↔
      name.toList.span (fun c => c ≠ '.') = (package.toList, '.' :: rest.toList) := by
    unfold splitName?
    cases parts : name.toList.span fun c => c ≠ '.' with
    | mk before after =>
      cases after with
      | nil => simp
      | cons first after =>
        have fails : first = '.' := by simpa using (span_eq_iff.1 parts).2.2
        subst fails
        simp only [Option.some.injEq, Prod.mk.injEq, List.cons.injEq, true_and]
        constructor
        · rintro ⟨rfl, rfl⟩
          exact ⟨String.toList_ofList.symm, String.toList_ofList.symm⟩
        · rintro ⟨rfl, rfl⟩
          exact ⟨String.ofList_toList, String.ofList_toList⟩
  rw [cut, span_eq_iff, ← String.toList_inj, String.toList_append, String.toList_append, point,
    List.append_assoc]
  constructor
  · rintro ⟨same, each, -⟩
    refine ⟨same, fun member => ?_⟩
    simpa using each _ member
  · rintro ⟨same, apart⟩
    refine ⟨same, fun c member => ?_, by simp⟩
    rw [decide_eq_true_iff]
    rintro rfl
    exact apart member

/-- A name without a point is not taken apart. -/
theorem splitName?_eq_none_iff {name : String} : splitName? name = none ↔ '.' ∉ name.toList := by
  constructor
  · intro whole point
    obtain ⟨before, after, same, fresh⟩ := List.eq_append_cons_of_mem point
    have cut : splitName? name = some (String.ofList before, String.ofList after) := by
      rw [splitName?_eq_some_iff, ← String.toList_inj]
      simp [same, fresh]
    rw [whole] at cut
    cases cut
  · intro pointless
    refine Option.eq_none_iff_forall_not_mem.2 fun ⟨package, rest⟩ cut => pointless ?_
    rw [(splitName?_eq_some_iff.1 cut).1]
    simp

/-! ## Looking up a qualified name -/

namespace Catalog

/-- No name of a package has a point in it. -/
def HasPlainPackages (catalog : Catalog) : Prop :=
  ∀ entry ∈ catalog.entries, ∀ package, entry.package = some package → '.' ∉ package.toList

/-- What is found in a package is an entry of that package and that name. -/
theorem of_find? {catalog : Catalog} {package : Option String} {name : String} {entry : Entry}
    (found : catalog.find? package name = some entry) :
    entry ∈ catalog.entries ∧ entry.package = package ∧ entry.name = name := by
  have same := List.find?_some found
  rw [Bool.and_eq_true, decide_eq_true_iff, decide_eq_true_iff] at same
  exact ⟨List.mem_of_find?_eq_some found, same⟩

end Catalog

namespace Scope

variable {scope : Scope} {name package : String} {entry : Entry}

/-- Behind its package and a point, a function of a package is found from anywhere. -/
theorem lookup_of_find? (plain : '.' ∉ package.toList)
    (found : scope.catalog.find? (some package) name = some entry) :
    scope.lookup (package ++ "." ++ name) = .ok entry := by
  have parts : splitName? (package ++ "." ++ name) = some (package, name) :=
    splitName?_eq_some_iff.2 ⟨rfl, plain⟩
  simp only [lookup, parts, found]

/-- How a name without a point stands for an entry. -/
theorem of_lookupBare (found : scope.lookupBare name = .ok entry) :
    (∃ package, scope.catalog.find? (some package) name = some entry) ∨
      scope.catalog.find? none name = some entry := by
  unfold lookupBare at found
  dsimp only at found
  split at found
  · rename_i own
    cases found
    rcases Option.or_eq_some_iff.1 own with inside | ⟨-, outside⟩
    · obtain ⟨package, -, inside⟩ := Option.bind_eq_some_iff.1 inside
      exact .inl ⟨package, inside⟩
    · exact .inr outside
  · rename_i missing
    split at found
    · cases found
    · rename_i only
      cases found
      -- The only entry of the name belongs to some package, or it would be found outside of all.
      have ofName : ∀ other ∈ scope.catalog.entries, other.name = name → other = entry := by
        intro other member named
        have listed : other ∈ scope.catalog.entries.filter fun entry => entry.name = name :=
          List.mem_filter.2 ⟨member, by simpa using named⟩
        rw [only] at listed
        exact List.mem_singleton.1 listed
      have listed : entry ∈ scope.catalog.entries.filter fun entry => entry.name = name := by
        rw [only]
        exact List.mem_singleton_self entry
      obtain ⟨member, named⟩ := List.mem_filter.1 listed
      have here : scope.catalog.find? entry.package name = some entry := by
        cases found : scope.catalog.find? entry.package name with
        | some other =>
          obtain ⟨member', -, named'⟩ := Catalog.of_find? found
          rw [ofName other member' named']
        | none =>
          have fails := List.find?_eq_none.1 found entry member
          simp [of_decide_eq_true named] at fails
      cases belongs : entry.package with
      | some package => exact .inl ⟨package, belongs ▸ here⟩
      | none => exact .inr (belongs ▸ here)
    · cases found

/-- What a name stands for is an entry of the catalog. -/
theorem mem_of_lookup (found : scope.lookup name = .ok entry) : entry ∈ scope.catalog.entries := by
  unfold lookup at found
  split at found
  · split at found
    · rename_i here
      cases found
      exact (Catalog.of_find? here).1
    · cases found
  · rcases of_lookupBare found with ⟨package, here⟩ | here
    · exact (Catalog.of_find? here).1
    · exact (Catalog.of_find? here).1

/-- **The qualified name of what a name stands for stands for the same**, whichever package the name
was seen from. -/
theorem lookup_qualifiedName (plain : scope.catalog.HasPlainPackages)
    (found : scope.lookup name = .ok entry) : scope.lookup entry.qualifiedName = .ok entry := by
  have inPackage : ∀ {package name}, scope.catalog.find? (some package) name = some entry →
      scope.lookup entry.qualifiedName = .ok entry := by
    intro package name here
    obtain ⟨member, belongs, rfl⟩ := Catalog.of_find? here
    rw [Entry.qualifiedName, belongs]
    exact lookup_of_find? (plain entry member package belongs) here
  cases parts : splitName? name with
  | some parts =>
    simp only [lookup, parts] at found
    split at found
    · rename_i here
      cases found
      exact inPackage here
    · cases found
  | none =>
    have bare : scope.lookupBare name = .ok entry := by
      simpa only [lookup, parts] using found
    rcases of_lookupBare bare with ⟨package, here⟩ | here
    · exact inPackage here
    · -- Outside of all packages the qualified name is the name itself.
      obtain ⟨-, outside, rfl⟩ := Catalog.of_find? here
      have same : entry.qualifiedName = entry.name := by
        rw [Entry.qualifiedName, outside]
        rfl
      rw [same]
      exact found

end Scope

/-! ## Bound names -/

namespace Executable

/-- Names are bound one by one. -/
theorem lookup_filterMap {β : Type} (names : List String) (f : String → Option β) (name : String) :
    (names.filterMap fun name => (f name).map fun b => (name, b)).lookup name =
      if name ∈ names then f name else none := by
  induction names with
  | nil => rfl
  | cons first rest ih =>
    by_cases same : name = first
    · subst same
      cases here : f name with
      | none =>
        rw [List.filterMap_cons_none (by rw [here]; rfl), ih, if_pos List.mem_cons_self, here]
        split <;> rfl
      | some b =>
        rw [List.filterMap_cons_some (by rw [here]; rfl), List.lookup_cons_self,
          if_pos List.mem_cons_self]
    · have apart : (name == first) = false := by simpa using same
      have member : name ∈ first :: rest ↔ name ∈ rest := by simp [same]
      simp only [member, ← ih]
      cases here : f first with
      | none => rw [List.filterMap_cons_none (by rw [here]; rfl)]
      | some b =>
        rw [List.filterMap_cons_some (by rw [here]; rfl), List.lookup_cons, apart]

/-- A graph calls the names of the calls in its slots. -/
theorem mem_calledNames {graph : Graph} {slot : Slot} {body : SlotExpr} {call : String × Nat}
    (member : slot ∈ graph.slots) (inside : body ∈ slot.expressions) (called : call ∈ body.calls) :
    call.1 ∈ calledNames graph := by
  refine SlotExpr.mem_distinct.2 (List.mem_flatMap.2 ⟨body, ?_, List.mem_map_of_mem called⟩)
  exact List.mem_flatMap.2 ⟨slot, member, inside⟩

/-- A name is bound to an entry that it stands for. -/
theorem lookup_of_function? {graph : Graph} {scope : Scope} {config : EngineConfig} {name : String}
    {entry : Entry} (bound : (ofGraph graph scope config).function? name = some entry) :
    scope.lookup name = .ok entry := by
  rw [function?, ofGraph, lookup_filterMap] at bound
  split at bound
  · unfold Scope.get? at bound
    split at bound
    · rename_i found
      cases bound
      exact found
    · cases bound
  · cases bound

/-- **A name that a graph calls is bound to what it stands for**, if it stands for anything. -/
theorem function?_ofGraph {graph : Graph} {scope : Scope} {config : EngineConfig} {name : String}
    {entry : Entry} (called : name ∈ calledNames graph) (found : scope.lookup name = .ok entry) :
    (ofGraph graph scope config).function? name = some entry := by
  rw [function?, ofGraph, lookup_filterMap, if_pos called, Scope.get?, found]

end Executable

end RuleGraph
