import RuleGraph.Proofs.Catalog.Registry
import Mathlib.Data.List.Permutation
import Mathlib.Data.Prod.Lex
import Mathlib.Data.String.Basic
import Mathlib.Order.WithBot

/-! # The order of registration

Functions can be added to a catalog in any order and through any views. Listings and look-ups are
the same for all orders, since no two functions of a package have the same name.

* **`FunctionSummary.place`** — the order of listings.
* **`Catalog.pairwise_summaries`**, **`Catalog.summaries_eq_of_perm`** — listings are in that order,
  and the same functions have only one listing.
* **`Scope.Finds`**, **`Scope.finds_lookup`** — what a name stands for among functions.
* **`Scope.lookup_eq_of_perm`** — it is the same in whatever order they stand.
* **`Registry.Builds`** — a host adds functions, and none of them is refused.
* **`Registry.registered_in_any_order`** — the order does not matter to what callers see.
-/

namespace RuleGraph

/-! ## Sorted texts -/

/-- Texts that are sorted stand in order. -/
theorem pairwise_mergeSort_text (texts : List String) :
    (texts.mergeSort fun a b => a ≤ b).Pairwise (· ≤ ·) := by
  have sorted := @List.pairwise_mergeSort _ (fun a b : String => decide (a ≤ b))
    (by simpa using fun a b c => String.le_trans) (by simpa using String.le_total) texts
  simpa using sorted

/-- Texts are sorted to the same list in whatever order they stood. -/
theorem mergeSort_text_eq_of_perm {texts texts' : List String} (same : texts.Perm texts') :
    (texts.mergeSort fun a b => a ≤ b) = texts'.mergeSort fun a b => a ≤ b := by
  refine List.Perm.eq_of_pairwise (fun a b _ _ => String.le_antisymm)
    (pairwise_mergeSort_text texts) (pairwise_mergeSort_text texts') ?_
  exact (List.mergeSort_perm _ _).trans (same.trans (List.mergeSort_perm _ _).symm)

/-! ## Listings -/

namespace FunctionSummary

variable {a b : FunctionSummary}

/-- The place of a function in listings: they go by names, and under one name by packages, with the
function outside of all packages first. -/
def place (summary : FunctionSummary) : String ×ₗ WithBot String :=
  toLex (summary.name, summary.package)

/-- Summaries are sorted by their places. -/
theorem precedes_iff : a.precedes b = true ↔ a.place ≤ b.place := by
  rw [Prod.Lex.le_iff, precedes, Bool.or_eq_true, decide_eq_true_iff, Bool.and_eq_true,
    decide_eq_true_iff]
  refine or_congr_right (and_congr_right fun _ => ?_)
  show _ ↔ @LE.le (WithBot String) _ a.package b.package
  cases a.package with
  | none => exact iff_of_true rfl bot_le
  | some package =>
    cases b.package with
    | none => exact iff_of_false Bool.false_ne_true (WithBot.not_coe_le_bot package)
    | some package' => exact decide_eq_true_iff.trans WithBot.coe_le_coe.symm

end FunctionSummary

namespace Catalog

variable {catalog catalog' : Catalog} {package : Option String} {name : String} {entry : Entry}

/-- There is one summary for every function that is listed, and there are no others. -/
theorem summaries_perm (catalog : Catalog) :
    catalog.summaries.Perm ((catalog.entries.filter isListed).map summaryOf) :=
  List.mergeSort_perm _ _

/-- **Listings go strictly by places**, if no name is taken twice in a package. -/
theorem pairwise_summaries (nodup : (catalog.entries.map Entry.key).Nodup) :
    (catalog.summaries.map FunctionSummary.place).Pairwise (· < ·) := by
  have sorted := @List.pairwise_mergeSort _ FunctionSummary.precedes
    (fun _ _ _ first second => FunctionSummary.precedes_iff.2
      ((FunctionSummary.precedes_iff.1 first).trans (FunctionSummary.precedes_iff.1 second)))
    (fun a b => by
      rw [Bool.or_eq_true, FunctionSummary.precedes_iff, FunctionSummary.precedes_iff]
      exact le_total a.place b.place)
    ((catalog.entries.filter isListed).map summaryOf)
  -- Two functions in the same place would have the same package and the same name.
  have apart : (catalog.summaries.map FunctionSummary.place).Nodup := by
    refine ((catalog.summaries_perm.map FunctionSummary.place).nodup_iff).2 ?_
    have places : ((catalog.entries.filter isListed).map Entry.key).Nodup :=
      nodup.sublist (List.filter_sublist.map Entry.key)
    rw [List.map_map]
    refine List.Nodup.of_map (fun place => ((ofLex place).2, (ofLex place).1)) ?_
    rw [List.map_map]
    exact places
  rw [List.pairwise_map]
  refine (sorted.and (List.pairwise_map.1 apart)).imp fun ⟨least, other⟩ => ?_
  exact lt_of_le_of_ne (FunctionSummary.precedes_iff.1 least) other

/-- **The same functions have only one listing**, in whatever order they were added. -/
theorem summaries_eq_of_perm (nodup : (catalog.entries.map Entry.key).Nodup)
    (same : catalog.entries.Perm catalog'.entries) : catalog.summaries = catalog'.summaries := by
  have nodup' := (same.map Entry.key).nodup_iff.1 nodup
  refine List.Perm.eq_of_pairwise (fun a b _ _ first second => absurd second (lt_asymm first))
    (List.pairwise_map.1 (pairwise_summaries nodup))
    (List.pairwise_map.1 (pairwise_summaries nodup')) ?_
  exact catalog.summaries_perm.trans
    (((same.filter isListed).map summaryOf).trans catalog'.summaries_perm.symm)

/-! ## Look-ups -/

/-- A function is found under its own package and name, and no other is. -/
theorem find?_eq_some_iff (nodup : (catalog.entries.map Entry.key).Nodup) :
    catalog.find? package name = some entry ↔
      entry ∈ catalog.entries ∧ entry.key = (package, name) := by
  constructor
  · intro found
    obtain ⟨member, rfl, rfl⟩ := of_find? found
    exact ⟨member, rfl⟩
  · rintro ⟨member, key⟩
    cases found : catalog.find? package name with
    | none => exact absurd key (find?_eq_none_iff.1 found entry member)
    | some other =>
      obtain ⟨member', belongs, named⟩ := of_find? found
      have keys : other.key = entry.key := by rw [key, Entry.key, belongs, named]
      rw [List.inj_on_of_nodup_map nodup member' member keys]

/-- What is found under a name is the same in whatever order the functions stand. -/
theorem find?_eq_of_perm (nodup : (catalog.entries.map Entry.key).Nodup)
    (same : catalog.entries.Perm catalog'.entries) :
    catalog.find? package name = catalog'.find? package name := by
  refine Option.ext fun entry => ?_
  rw [find?_eq_some_iff nodup, find?_eq_some_iff ((same.map Entry.key).nodup_iff.1 nodup),
    same.mem_iff]

end Catalog

namespace Scope

variable {catalog catalog' : Catalog} {own : Option String} {name : String}

/-- What a name at a call site stands for among functions, from within a package or from outside of
all packages. -/
inductive Finds (entries : List Entry) (own : Option String) (name : String) :
    Except CompileError Entry → Prop where
  /-- Behind the first point, a function of the package in front of it. -/
  | selected {package rest entry} (parts : splitName? name = some (package, rest))
    (member : entry ∈ entries) (key : entry.key = (some package, rest)) :
    Finds entries own name (.ok entry)
  /-- Nothing, if there is no such function. -/
  | missing {package rest} (parts : splitName? name = some (package, rest))
    (free : ∀ entry ∈ entries, entry.key ≠ (some package, rest)) :
    Finds entries own name (.error (.unknownFunction name))
  /-- Without a point, a function of the own package. -/
  | inside {package entry} (whole : splitName? name = none) (within : own = some package)
    (member : entry ∈ entries) (key : entry.key = (some package, name)) :
    Finds entries own name (.ok entry)
  /-- If the own package has none, a function outside of all packages. -/
  | outside {entry} (whole : splitName? name = none)
    (others : ∀ package ∈ own, ∀ other ∈ entries, other.key ≠ (some package, name))
    (member : entry ∈ entries) (key : entry.key = (none, name)) :
    Finds entries own name (.ok entry)
  /-- If there is none either, the only function of any package. -/
  | only {entry} (whole : splitName? name = none) (member : entry ∈ entries)
    (named : entry.name = name) (alone : ∀ other ∈ entries, other.name = name → other = entry) :
    Finds entries own name (.ok entry)
  /-- Nothing, if no function has the name. -/
  | unknown (whole : splitName? name = none) (free : ∀ entry ∈ entries, entry.name ≠ name) :
    Finds entries own name (.error (.unknownFunction name))
  /-- Nothing, if several other packages have a function of the name. They are told in order. -/
  | ambiguous {packages} (whole : splitName? name = none)
    (others : ∀ package ∈ own, ∀ other ∈ entries, other.key ≠ (some package, name))
    (free : ∀ entry ∈ entries, entry.key ≠ (none, name)) (several : 2 ≤ packages.length)
    (sorted : packages.Pairwise (· < ·))
    (each : ∀ package, package ∈ packages ↔ ∃ entry ∈ entries, entry.key = (some package, name)) :
    Finds entries own name (.error (.ambiguousFunction name packages))

/-- The packages of functions of one name that belong to packages: each is told once. -/
theorem packages_of_name {entries : List Entry} (nodup : (entries.map Entry.key).Nodup)
    (free : ∀ entry ∈ entries, entry.key ≠ (none, name))
    (named : ∀ entry ∈ entries, entry.name = name) :
    (entries.filterMap Entry.package).length = entries.length ∧
      (entries.filterMap Entry.package).Nodup ∧
      ∀ package, package ∈ entries.filterMap Entry.package ↔
        ∃ entry ∈ entries, entry.key = (some package, name) := by
  have whole : (entries.filterMap Entry.package).map some = entries.map Entry.package := by
    rw [List.map_filterMap_some_eq_filter_map_isSome, List.filter_eq_self]
    intro package member
    obtain ⟨entry, inside, rfl⟩ := List.mem_map.1 member
    refine Option.isSome_iff_ne_none.2 fun outside => free entry inside ?_
    rw [Entry.key, outside, named entry inside]
  refine ⟨?_, ?_, fun package => ?_⟩
  · simpa using congrArg List.length whole
  · refine List.Nodup.of_map some ?_
    rw [whole]
    refine List.Nodup.of_map (fun package => (package, name)) ?_
    rw [List.map_map]
    have keys : entries.map ((fun package => (package, name)) ∘ Entry.package) =
        entries.map Entry.key :=
      List.map_congr_left fun entry member => by
        rw [Function.comp_apply, Entry.key, named entry member]
    rwa [keys]
  · rw [List.mem_filterMap]
    refine exists_congr fun entry => and_congr_right fun member => ?_
    rw [Entry.key, named entry member, Prod.mk.injEq, and_iff_left rfl]

/-- **A name stands for what the rules of names say**, if no name is taken twice in a package. -/
theorem finds_lookup (nodup : (catalog.entries.map Entry.key).Nodup) (own : Option String)
    (name : String) : Finds catalog.entries own name ((Scope.mk catalog own).lookup name) := by
  unfold lookup
  split
  · rename_i package rest parts
    split
    · rename_i found
      obtain ⟨member, key⟩ := (Catalog.find?_eq_some_iff nodup).1 found
      exact .selected parts member key
    · rename_i missing
      exact .missing parts (Catalog.find?_eq_none_iff.1 missing)
  · rename_i whole
    unfold lookupBare
    dsimp only
    split
    · rename_i entry found
      rcases Option.or_eq_some_iff.1 found with inside | ⟨free, outside⟩
      · obtain ⟨package, within, inside⟩ := Option.bind_eq_some_iff.1 inside
        obtain ⟨member, key⟩ := (Catalog.find?_eq_some_iff nodup).1 inside
        exact .inside whole within member key
      · obtain ⟨member, key⟩ := (Catalog.find?_eq_some_iff nodup).1 outside
        refine .outside whole (fun package within => ?_) member key
        exact Catalog.find?_eq_none_iff.1 (Option.bind_eq_none_iff.1 free package within)
    · rename_i missing
      obtain ⟨inside, outside⟩ := Option.or_eq_none_iff.1 missing
      have others : ∀ package ∈ own, ∀ other ∈ catalog.entries, other.key ≠ (some package, name) :=
        fun package within =>
          Catalog.find?_eq_none_iff.1 (Option.bind_eq_none_iff.1 inside package within)
      have free := Catalog.find?_eq_none_iff.1 outside
      have listed : ∀ entry, entry ∈ catalog.entries.filter (fun entry => entry.name = name) ↔
          entry ∈ catalog.entries ∧ entry.name = name := by simp
      split
      · rename_i none
        refine .unknown whole fun entry member named => ?_
        have inside := (listed entry).2 ⟨member, named⟩
        rw [none] at inside
        cases inside
      · rename_i entry only
        rw [only] at listed
        obtain ⟨member, named⟩ := (listed entry).1 (List.mem_singleton_self entry)
        exact .only whole member named fun other member' named' =>
          List.mem_singleton.1 ((listed other).2 ⟨member', named'⟩)
      · rename_i none one
        obtain ⟨count, apart, each⟩ := packages_of_name
          (nodup.sublist (List.filter_sublist.map Entry.key))
          (fun entry member => free entry ((listed entry).1 member).1)
          fun entry member => ((listed entry).1 member).2
        have sorted := List.mergeSort_perm
          ((catalog.entries.filter fun entry => entry.name = name).filterMap Entry.package)
          fun a b => a ≤ b
        refine .ambiguous whole others free ?_ ?_ fun package => ?_
        · rw [sorted.length_eq, count]
          match many : catalog.entries.filter fun entry => entry.name = name with
          | [] => exact absurd many none
          | [entry] => exact absurd many (one entry)
          | _ :: _ :: _ => exact many ▸ Nat.le_add_left 2 _
        · refine ((pairwise_mergeSort_text _).and (sorted.nodup_iff.2 apart)).imp ?_
          exact fun ⟨least, other⟩ => lt_of_le_of_ne least other
        · rw [sorted.mem_iff, each]
          refine exists_congr fun entry => ?_
          rw [listed]
          refine ⟨fun ⟨⟨member, _⟩, key⟩ => ⟨member, key⟩, fun ⟨member, key⟩ => ⟨⟨member, ?_⟩, key⟩⟩
          exact congrArg Prod.snd key

/-- **A name stands for the same in whatever order the functions stand.** -/
theorem lookup_eq_of_perm (nodup : (catalog.entries.map Entry.key).Nodup)
    (same : catalog.entries.Perm catalog'.entries) :
    (Scope.mk catalog own).lookup name = (Scope.mk catalog' own).lookup name := by
  have found : ∀ package name, catalog.find? package name = catalog'.find? package name :=
    fun _ _ => Catalog.find?_eq_of_perm nodup same
  have listed := same.filter fun entry => entry.name = name
  simp only [lookup, lookupBare, found]
  split
  · rfl
  · split
    · rfl
    · -- As many functions of the name are left, in another order.
      generalize catalog.entries.filter (fun entry => entry.name = name) = entries at listed
      generalize catalog'.entries.filter (fun entry => entry.name = name) = entries' at listed
      have count := listed.length_eq
      cases entries with
      | nil => rw [← listed.nil_eq]
      | cons first rest =>
        cases rest with
        | nil => rw [← List.singleton_perm.1 listed]
        | cons second rest =>
          cases entries' with
          | nil => cases count
          | cons first' rest' =>
            cases rest' with
            | nil => cases count
            | cons second' rest' =>
              have told := mergeSort_text_eq_of_perm (listed.filterMap Entry.package)
              exact congrArg (Except.error ∘ CompileError.ambiguousFunction name) told

end Scope

/-! ## Hosts that add functions -/

namespace Registry

variable {registry registry' : Registry} {added added' : List (Option String × Registration)}

/-- What a host may do, from a registry on, if nothing that it asks views to add is refused: the
functions that it adds, in order, each to a package or outside of all packages. -/
inductive Builds (registry : Registry) : List (Option String × Registration) → Registry → Prop where
  /-- Nothing is done. -/
  | start : Builds registry [] registry
  /-- One more view is asked for something. -/
  | step {added registry' registry'' place view call answer}
    (before : Builds registry added registry') (found : registry'.views[place]? = some view)
    (asked : registry'.ask place view call = (answer, registry''))
    (done : answer = .done (.ok ()) ∨ call.registrations view = []) :
    Builds registry (added ++ (call.registrations view).map (Prod.mk (call.home view))) registry''

namespace Builds

/-- All of this is a run. -/
theorem run (built : registry.Builds added registry') :
    ∃ events, registry.Run events registry' := by
  induction built with
  | start => exact ⟨[], .start⟩
  | step _ found asked _ ih =>
    obtain ⟨events, before⟩ := ih
    exact ⟨_, before.step found asked⟩

/-- **The functions that are added are all that the catalog has got**, in the order in which they
were added. -/
theorem entries_eq (built : registry.Builds added registry') : registry'.catalog.entries =
    registry.catalog.entries ++ added.map (Function.uncurry Entry.ofRegistration) := by
  induction built with
  | start => rw [List.map_nil, List.append_nil]
  | step _ _ asked done ih =>
    obtain ⟨taken, refused, all, -, whole, verdict, -⟩ := grows_ask asked
    have none : refused = [] := done.elim verdict fun nothing => by
      rw [nothing] at all
      exact (List.append_eq_nil_iff.1 all.symm).2
    rw [none, List.append_nil] at all
    rw [whole, ih, ← all, List.map_append, List.append_assoc, List.map_map]
    rfl

end Builds

/-- **The order in which functions are added does not matter to what callers see.** Take any two
ways in which a host adds the same functions, through whatever views and in whatever order, with
none of them refused. The listings are the same: they go strictly by names and then by packages,
with the function outside of all packages first, and have one summary for every function whose name
does not begin with the mark of hidden ones, and no others. From within every package and from
outside, every name stands for the same function, or is refused with the same error: it is unknown,
or the packages that have it are told in order. -/
theorem registered_in_any_order (same : added.Perm added')
    (built : Registry.Builds {} added registry) (built' : Registry.Builds {} added' registry') :
    registry.catalog.summaries = registry'.catalog.summaries ∧
    (registry.catalog.summaries.map FunctionSummary.place).Pairwise (· < ·) ∧
    registry.catalog.summaries.Perm (((added.map (Function.uncurry Entry.ofRegistration)).filter
      fun entry => entry.name.toList.head? ≠ some hiddenMark).map Catalog.summaryOf) ∧
    ∀ own name,
      (Scope.mk registry.catalog own).lookup name = (Scope.mk registry'.catalog own).lookup name ∧
      Scope.Finds (added.map (Function.uncurry Entry.ofRegistration)) own name
        ((Scope.mk registry.catalog own).lookup name) := by
  obtain ⟨_, run⟩ := built.run
  have nodup := (run.reachable .empty).nodup
  have entries : registry.catalog.entries = added.map (Function.uncurry Entry.ofRegistration) :=
    built.entries_eq
  have entries' : registry'.catalog.entries = added'.map (Function.uncurry Entry.ofRegistration) :=
    built'.entries_eq
  have rearranged : registry.catalog.entries.Perm registry'.catalog.entries := by
    rw [entries, entries']
    exact same.map _
  refine ⟨Catalog.summaries_eq_of_perm nodup rearranged, Catalog.pairwise_summaries nodup, ?_,
    fun own name => ⟨Scope.lookup_eq_of_perm nodup rearranged, ?_⟩⟩
  · rw [← entries]
    exact registry.catalog.summaries_perm
  · rw [← entries]
    exact Scope.finds_lookup nodup own name

/-! ## Two packages -/

/-- What a host has that has added functions and has views of packages, none of them read. -/
def holding (entries : List Entry) (packages : List String) : Registry where
  catalog := { entries }
  views := {} :: packages.map fun package => { package := some package }

/-- A function that two packages have, and a hidden one. -/
def sharing : List Entry :=
  [.ofRegistration (some "a") (.idle "f"), .ofRegistration (some "b") (.idle "f"),
    .ofRegistration none (.idle "_g")]

/-- They are added through views of the packages. -/
theorem builds_sharing : Builds {}
    [(some "a", .idle "f"), (some "b", .idle "f"), (none, .idle "_g")]
    (holding sharing ["a", "b"]) := by
  have first : ({} : Registry).ask 0 {} (.package "a") = (.done (.ok ()), holding [] ["a"]) := rfl
  have second : (holding [] ["a"]).ask 0 {} (.package "b") =
      (.done (.ok ()), holding [] ["a", "b"]) := rfl
  have here : (holding [] ["a", "b"]).ask 1 { package := some "a" } (.register (.idle "f")) =
      (.done (.ok ()), holding (sharing.take 1) ["a", "b"]) := rfl
  have there : (holding (sharing.take 1) ["a", "b"]).ask 2 { package := some "b" }
      (.register (.idle "f")) = (.done (.ok ()), holding (sharing.take 2) ["a", "b"]) := rfl
  have hidden : (holding (sharing.take 2) ["a", "b"]).ask 0 {} (.register (.idle "_g")) =
      (.done (.ok ()), holding sharing ["a", "b"]) := rfl
  have views := (Builds.start.step rfl first (.inl rfl)).step rfl second (.inl rfl)
  exact ((views.step rfl here (.inl rfl)).step rfl there (.inl rfl)).step rfl hidden (.inl rfl)

/-- They are added the other way round, and the second package is imported. -/
theorem builds_sharing_reverse : Builds {}
    [(none, .idle "_g"), (some "b", .idle "f"), (some "a", .idle "f")]
    (holding sharing.reverse ["a"]) := by
  have view : ({} : Registry).ask 0 {} (.package "a") = (.done (.ok ()), holding [] ["a"]) := rfl
  have hidden : (holding [] ["a"]).ask 0 {} (.register (.idle "_g")) =
      (.done (.ok ()), holding (sharing.reverse.take 1) ["a"]) := rfl
  have there : (holding (sharing.reverse.take 1) ["a"]).ask 0 {}
      (.importPackage "b" (some [.idle "f"])) =
        (.done (.ok ()), holding (sharing.reverse.take 2) ["a"]) := rfl
  have here : (holding (sharing.reverse.take 2) ["a"]).ask 1 { package := some "a" }
      (.register (.idle "f")) = (.done (.ok ()), holding sharing.reverse ["a"]) := rfl
  have first := (Builds.start.step rfl view (.inl rfl)).step rfl hidden (.inl rfl)
  exact (first.step rfl there (.inl rfl)).step rfl here (.inl rfl)

/-- Either way the hidden function is not listed, and from outside of all packages the shared name
is refused, with the packages told in order. -/
theorem registered_in_any_order_of_sharing :
    (holding sharing ["a", "b"]).catalog.summaries =
      (holding sharing.reverse ["a"]).catalog.summaries ∧
    (holding sharing ["a", "b"]).catalog.summaries.length = 2 ∧
    (Scope.mk (holding sharing ["a", "b"]).catalog none).lookup "f" =
      .error (.ambiguousFunction "f" ["a", "b"]) ∧
    (Scope.mk (holding sharing.reverse ["a"]).catalog none).lookup "f" =
      .error (.ambiguousFunction "f" ["a", "b"]) := by
  have rearranged : [(some "a", Registration.idle "f"), (some "b", .idle "f"),
      (none, .idle "_g")].Perm [(none, .idle "_g"), (some "b", .idle "f"), (some "a", .idle "f")] :=
    (List.reverse_perm _).symm
  obtain ⟨listing, -, listed, names⟩ :=
    registered_in_any_order rearranged builds_sharing builds_sharing_reverse
  have refused : (Scope.mk (holding sharing ["a", "b"]).catalog none).lookup "f" =
      .error (.ambiguousFunction "f" ["a", "b"]) := by cbv
  exact ⟨listing, listed.length_eq, refused, (names none "f").1.symm.trans refused⟩

end Registry

end RuleGraph
