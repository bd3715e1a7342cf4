import RuleGraph.Proofs.Blob.RoundTrip
import RuleGraph.Proofs.Catalog.Names
import RuleGraph.Proofs.Compile.CallSites
import RuleGraph.StandardLibrary

/-! # Registered functions under their qualified names

Hosts add functions to a catalog one by one, in packages and outside of them, and no name is taken
twice in a package. So a function can be told from its package and its name. Its qualified name
selects it too, except that within a package the package's own functions come first.

* **`Catalog.Reachable`** — catalogs that hosts can come to have.
* **`Catalog.Reachable.nodup`** — no name is taken twice in a package.
* **`Catalog.rival?`** — the function that hides another one from within a package.
* **`Scope.lookup_qualifiedName_eq`** — what a qualified name stands for.
* **`Catalog.qualifiedNames`** — so it is for call sites, compiled graphs and restored ones.
-/

namespace RuleGraph

/-! ## Catalogs of hosts -/

namespace Catalog

/-- A catalog that a host can come to have. -/
inductive Reachable : Catalog → Prop where
  /-- The empty one. -/
  | empty : Reachable {}
  /-- After a function was added to a package, or outside of all packages. -/
  | register {catalog catalog' : Catalog} {package : Option String} {registration : Registration}
    (before : Reachable catalog) (added : catalog.register package registration = .ok catalog') :
    Reachable catalog'
  /-- After registration has ended. -/
  | endRegistration {catalog : Catalog} (before : Reachable catalog) :
    Reachable catalog.endRegistration
  /-- After a key of the configuration was set. -/
  | setConfig {catalog : Catalog} (before : Reachable catalog) (key : String) (value : Json) :
    Reachable (catalog.setConfig key value)
  /-- After the configuration was overlaid. -/
  | withConfig {catalog : Catalog} (before : Reachable catalog) (config : Json) :
    Reachable (catalog.withConfig config)

variable {catalog catalog' : Catalog} {package own : Option String} {entry : Entry}

/-- Adding a function adds one entry, under a package and a name that nothing was kept under. -/
theorem of_register {registration : Registration}
    (added : catalog.register package registration = .ok catalog') :
    catalog'.entries = catalog.entries ++ [Entry.ofRegistration package registration] ∧
      catalog.find? package registration.name = none := by
  unfold register at added
  dsimp only at added
  split at added
  · cases added
  · split at added
    · cases added
    · split at added
      · cases added
      · rename_i fresh
        cases added
        exact ⟨rfl, Option.not_isSome_iff_eq_none.1 fresh⟩

/-- The configuration has no entries. -/
theorem entries_withConfig (catalog : Catalog) (config : Json) :
    (catalog.withConfig config).entries = catalog.entries := by
  cases config <;> rfl

/-- Adding a function that nothing was kept under leaves all others as they are. -/
theorem nodup_register {registration : Registration}
    (nodup : (catalog.entries.map Entry.key).Nodup)
    (added : catalog.register package registration = .ok catalog') :
    (catalog'.entries.map Entry.key).Nodup := by
  obtain ⟨whole, fresh⟩ := of_register added
  rw [whole, List.map_append, List.map_singleton, List.nodup_append]
  refine ⟨nodup, List.nodup_singleton _, fun key member new same => ?_⟩
  obtain ⟨entry, inside, rfl⟩ := List.mem_map.1 member
  rintro rfl
  -- The entry would have been found under the package and the name of the new one.
  have taken := List.find?_eq_none.1 fresh entry inside
  have keys : (entry.package, entry.name) = (package, registration.name) :=
    List.mem_singleton.1 same
  rw [Prod.mk.injEq] at keys
  simp [keys.1, keys.2] at taken

/-- **No name is taken twice in a package**, whatever a host has done. -/
theorem Reachable.nodup (reachable : catalog.Reachable) :
    (catalog.entries.map Entry.key).Nodup := by
  induction reachable with
  | empty => exact List.nodup_nil
  | register _ added ih => exact nodup_register ih added
  | endRegistration _ ih => exact ih
  | setConfig _ _ _ ih => exact ih
  | withConfig _ config ih =>
    rw [entries_withConfig]
    exact ih

/-- Functions can be added one after the other. -/
theorem Reachable.registerAll (reachable : catalog.Reachable) (package : Option String)
    (registrations : List Registration) :
    (catalog.registerAll package registrations).1.Reachable := by
  induction registrations generalizing catalog with
  | nil => exact reachable
  | cons registration rest ih =>
    rw [Catalog.registerAll]
    split
    · rename_i added
      exact ih (reachable.register added)
    · exact reachable

/-- An extension package can be imported. -/
theorem Reachable.importPackage (reachable : catalog.Reachable) (view : View) (name : String)
    (registrations : Option (List Registration)) :
    (view.importPackage catalog name registrations).1.Reachable := by
  unfold View.importPackage
  split
  · exact reachable
  · exact reachable
  · exact reachable.registerAll _ _

/-- A blob can be restored. -/
theorem Reachable.restore (reachable : catalog.Reachable) (package : Option String)
    (bytes : Bytes) : (catalog.restore package bytes).1.Reachable := by
  unfold Catalog.restore
  split
  · exact reachable
  · exact reachable.endRegistration

/-- An entry is found under its own package and name. -/
theorem Reachable.find?_key (reachable : catalog.Reachable) (member : entry ∈ catalog.entries) :
    catalog.find? entry.package entry.name = some entry := by
  cases found : catalog.find? entry.package entry.name with
  | none =>
    have apart := List.find?_eq_none.1 found entry member
    simp at apart
  | some other =>
    obtain ⟨member', package, name⟩ := of_find? found
    have keys : other.key = entry.key := by rw [Entry.key, Entry.key, package, name]
    rw [List.inj_on_of_nodup_map reachable.nodup member' member keys]

/-! ## Rivals -/

/-- The function that hides an entry from call sites in a package: one of the package under the name
of an entry that belongs to no package. -/
def rival? (catalog : Catalog) (own : Option String) (entry : Entry) : Option Entry :=
  match entry.package with
  | some _ => none
  | none => own.bind fun package => catalog.find? (some package) entry.name

end Catalog

/-- The name of an entry's package has no point in it. -/
def Entry.HasPlainPackage (entry : Entry) : Prop :=
  ∀ package, entry.package = some package → '.' ∉ package.toList

namespace Scope

variable {catalog : Catalog} {own : Option String} {entry : Entry} {name : String}

/-- **What the qualified name of an entry stands for**: the entry, unless it is hidden. -/
theorem lookup_qualifiedName_eq (found : catalog.find? entry.package entry.name = some entry)
    (plain : entry.HasPlainPackage) (bare : entry.package = none → '.' ∉ entry.name.toList) :
    (Scope.mk catalog own).lookup entry.qualifiedName =
      .ok ((catalog.rival? own entry).getD entry) := by
  cases belongs : entry.package with
  | some package =>
    rw [belongs] at found
    rw [Entry.qualifiedName, belongs, Catalog.rival?, belongs]
    exact lookup_of_find? (plain package belongs) found
  | none =>
    have whole : splitName? entry.name = none := splitName?_eq_none_iff.2 (bare belongs)
    rw [belongs] at found
    have either : (own.bind fun package => catalog.find? (some package) entry.name).or
        (catalog.find? none entry.name) =
          some ((own.bind fun package => catalog.find? (some package) entry.name).getD entry) := by
      rw [found]
      cases own.bind fun package => catalog.find? (some package) entry.name <;> rfl
    rw [Entry.qualifiedName, belongs, Catalog.rival?, belongs]
    show (Scope.mk catalog own).lookup entry.name = _
    simp only [lookup, whole, lookupBare]
    rw [either]

/-- What a name stands for is not hidden, and outside of all packages its name has no point. -/
theorem of_lookup (found : (Scope.mk catalog own).lookup name = .ok entry) :
    catalog.rival? own entry = none ∧ (entry.package = none → '.' ∉ entry.name.toList) := by
  cases belongs : entry.package with
  | some package =>
    refine ⟨by rw [Catalog.rival?, belongs], fun none => ?_⟩
    cases none
  | none =>
    have outside : ∀ {package rest}, catalog.find? (some package) rest ≠ some entry := by
      intro package rest here
      have inside := (Catalog.of_find? here).2.1
      rw [belongs] at inside
      cases inside
    suffices bare : splitName? name = none ∧ name = entry.name ∧
        (own.bind fun package => catalog.find? (some package) name) = none by
      obtain ⟨whole, rfl, free⟩ := bare
      exact ⟨by rw [Catalog.rival?, belongs]; exact free,
        fun _ => splitName?_eq_none_iff.1 whole⟩
    unfold lookup at found
    split at found
    · -- Behind a point there are functions of packages only.
      split at found
      · rename_i here
        cases found
        exact absurd here outside
      · cases found
    · rename_i whole
      refine ⟨whole, ?_⟩
      unfold lookupBare at found
      dsimp only at found
      split at found
      · rename_i here
        cases found
        rcases Option.or_eq_some_iff.1 here with inside | ⟨free, here⟩
        · obtain ⟨package, -, inside⟩ := Option.bind_eq_some_iff.1 inside
          exact absurd inside outside
        · exact ⟨(Catalog.of_find? here).2.2.symm, free⟩
      · rename_i missing
        split at found
        · cases found
        · rename_i only
          cases found
          -- An entry outside of all packages would have been found before.
          have listed : entry ∈ catalog.entries.filter fun entry => entry.name = name := by
            rw [only]
            exact List.mem_singleton_self entry
          obtain ⟨member, named⟩ := List.mem_filter.1 listed
          have fails := List.find?_eq_none.1 (Option.or_eq_none_iff.1 missing).2 entry member
          simp [belongs, of_decide_eq_true named] at fails
        · cases found

end Scope

/-! ## What compiled graphs call -/

/-- Every call site in a checked slot is one that the function it names has accepted. -/
theorem Slot.IsChecked.approves {scope : Scope} {slot : Slot} {body : SlotExpr} {function : String}
    {args : List SlotExpr} (checked : slot.IsChecked scope) (inside : body ∈ slot.expressions)
    (site : (function, args) ∈ body.sites) : scope.Approves (fun _ => True) function args := by
  have weaken : ∀ {kind : Entry → Prop}, scope.Approves kind function args →
      scope.Approves (fun _ => True) function args :=
    fun ⟨name, entry, found, qualified, _, accepts⟩ => ⟨name, entry, found, qualified, trivial,
      accepts⟩
  rw [Slot.IsChecked] at checked
  rw [Slot.expressions] at inside
  cases kind : slot.kind with
  | input | group =>
    rw [kind] at inside
    cases inside
  | feature item =>
    rw [kind] at checked inside
    rw [List.mem_singleton] at inside
    subst inside
    exact weaken (checked function args site)
  | statement feature condition call =>
    rw [kind] at checked inside
    obtain ⟨guard, own, given, rfl, statement, each⟩ := checked
    rcases List.mem_append.1 inside with held | called
    · exact weaken (guard body (Option.mem_toList.1 held) function args site)
    · rw [List.mem_singleton] at called
      subst called
      rw [SlotExpr.sites] at site
      rcases List.mem_cons.1 site with same | inner
      · cases same
        exact weaken statement
      · obtain ⟨arg, member, inner⟩ := SlotExpr.mem_sitesOfAll.1 inner
        exact weaken (each arg member function args inner)

/-- A call site names a function of those that its graph calls. -/
theorem mem_calledNames_of_site {graph : Graph} {slot : Slot} {body : SlotExpr} {function : String}
    {args : List SlotExpr} (member : slot ∈ graph.slots) (inside : body ∈ slot.expressions)
    (site : (function, args) ∈ body.sites) : function ∈ Executable.calledNames graph :=
  @Executable.mem_calledNames graph slot body (function, args.length) member inside
    (SlotExpr.mem_calls_iff.2 ⟨args, site, rfl⟩)

/-- A restored graph is bound to what its calls stand for in the view that restores it. -/
theorem function?_of_restore {catalog catalog' : Catalog} {own : Option String} {graph : Graph}
    {source : Option String} {bytes : Bytes} {executable : Executable} {name : String}
    {entry : Entry} (built : graph.IsBuilt) (encoded : Blob.encode graph source = .ok bytes)
    (restored : catalog.restore own bytes = (catalog', .ok executable))
    (called : name ∈ Executable.calledNames graph)
    (found : (Scope.mk catalog own).lookup name = .ok entry) :
    executable.function? name = some entry := by
  rw [Catalog.restore] at restored
  split at restored
  · cases restored
  · rename_i decoded accepted
    obtain rfl := Blob.eq_of_decode built encoded accepted
    cases restored
    exact Executable.function?_ofGraph called found

/-- **A qualified name stands for the function that it was made of**, in every catalog that a host
can come to have: from any view, unless the view belongs to a package that has its own function
under the name of one outside of all packages, which comes first. What a call site was resolved to
when a graph was compiled is never hidden, so the name in the graph is bound to that function, in an
executable and in a restored one. Names with a point of their own, of packages and of functions
outside of them, are set apart. -/
theorem qualified_names_resolved {catalog : Catalog} (reachable : catalog.Reachable) :
    (∀ own, ∀ entry ∈ catalog.entries, entry.HasPlainPackage →
      (entry.package = none → '.' ∉ entry.name.toList) →
      (Scope.mk catalog own).lookup entry.qualifiedName =
        .ok ((catalog.rival? own entry).getD entry)) ∧
    ∀ own limit rounds program graph,
      compile? ⟨catalog, own⟩ limit rounds program = .ok (some graph) →
      ∀ slot ∈ graph.slots, ∀ body ∈ slot.expressions, ∀ function args,
        (function, args) ∈ body.sites →
        ∃ name entry, (Scope.mk catalog own).lookup name = .ok entry ∧
          entry.qualifiedName = function ∧ entry.Accepts (SlotExpr.toExprs args) ∧
          (entry.HasPlainPackage →
            (∀ config, (Executable.ofGraph graph ⟨catalog, own⟩ config).function? function =
              some entry) ∧
            ∀ source bytes own' catalog' executable,
              own' = own ∨ catalog.rival? own' entry = none →
              Blob.encode graph source = .ok bytes →
              catalog.restore own' bytes = (catalog', .ok executable) →
              executable.function? function = some entry) := by
  have selects : ∀ own, ∀ entry ∈ catalog.entries, entry.HasPlainPackage →
      (entry.package = none → '.' ∉ entry.name.toList) →
      (Scope.mk catalog own).lookup entry.qualifiedName =
        .ok ((catalog.rival? own entry).getD entry) :=
    fun own entry member => Scope.lookup_qualifiedName_eq (reachable.find?_key member)
  refine ⟨selects, fun own limit rounds program graph compiled slot member body inside function
    args site => ?_⟩
  have called := mem_calledNames_of_site member inside site
  obtain ⟨name, entry, found, rfl, -, accepts⟩ :=
    (isLowered_of_compile? compiled slot member).isChecked.approves inside site
  refine ⟨name, entry, found, rfl, accepts, fun plain => ?_⟩
  obtain ⟨seen, bare⟩ := Scope.of_lookup found
  have stands : ∀ own', catalog.rival? own' entry = none →
      (Scope.mk catalog own').lookup entry.qualifiedName = .ok entry := by
    intro own' free
    rw [selects own' entry (Scope.mem_of_lookup found) plain bare, free]
    rfl
  refine ⟨fun config => Executable.function?_ofGraph called (stands own seen), ?_⟩
  intro source bytes own' catalog' executable view encoded restored
  refine function?_of_restore (isCompiled_of_compile? compiled).built encoded restored called ?_
  rcases view with rfl | free
  · exact stands _ seen
  · exact stands _ free

/-! ## Two functions of one name -/

/-- A function outside of all packages. -/
def Entry.score : Entry :=
  .ofRegistration none { name := "score", kind := .sync fun _ _ => ([], .ok (.int 1)) }

/-- A function of a package under the same name. -/
def Entry.shopScore : Entry :=
  .ofRegistration (some "shop") { name := "score", kind := .sync fun _ _ => ([], .ok (.int 2)) }

/-- A catalog of both. -/
def Catalog.scores : Catalog := { entries := [.score, .shopScore] }

/-- A host can come to have it. -/
theorem Catalog.reachable_scores : Catalog.scores.Reachable := by
  have first : Catalog.register {} none
      { name := "score", kind := .sync fun _ _ => ([], .ok (.int 1)) } =
        .ok { entries := [.score] } := rfl
  have second : Catalog.register { entries := [.score] } (some "shop")
      { name := "score", kind := .sync fun _ _ => ([], .ok (.int 2)) } = .ok .scores := rfl
  exact (Catalog.Reachable.empty.register first).register second

/-- **From within a package, the qualified name of a function outside of all packages may stand for
another one.** -/
theorem qualifiedName_hidden :
    Catalog.scores.Reachable ∧ Entry.score ∈ Catalog.scores.entries ∧
    (Scope.mk .scores (some "shop")).lookup Entry.score.qualifiedName = .ok .shopScore ∧
    Entry.shopScore.package ≠ Entry.score.package :=
  ⟨Catalog.reachable_scores, List.mem_cons_self, rfl, by decide⟩

/-- A feature of the package that calls its own function. -/
def Graph.shop : Graph := ⟨[.feature "S" (.call "shop.score" [])], [[]], [none]⟩

/-- From outside of all packages both functions are found, and what a feature of the package calls
is bound to the package's own one, also when it is restored outside of the package. -/
theorem qualified_names_resolved_of_scores :
    (Scope.mk .scores none).lookup "score" = .ok .score ∧
    (Scope.mk .scores none).lookup "shop.score" = .ok .shopScore ∧
    ∃ entry, (∃ name, (Scope.mk .scores (some "shop")).lookup name = .ok entry) ∧
      (Executable.ofGraph .shop ⟨.scores, some "shop"⟩ {}).function? "shop.score" = some entry ∧
      ∀ bytes catalog' executable, Blob.encode .shop none = .ok bytes →
        Catalog.scores.restore none bytes = (catalog', .ok executable) →
        executable.function? "shop.score" = some entry := by
  obtain ⟨selects, binds⟩ := qualified_names_resolved Catalog.reachable_scores
  have plain : ∀ entry ∈ Catalog.scores.entries, entry.HasPlainPackage := by
    intro entry member package belongs
    rcases List.mem_pair.1 member with rfl | rfl
    · cases belongs
    · cases belongs
      decide
  have outside : ∀ entry, Catalog.scores.rival? none entry = none := by
    intro entry
    unfold Catalog.rival?
    split <;> rfl
  have first : Entry.score ∈ Catalog.scores.entries := List.mem_cons_self
  have second : Entry.shopScore ∈ Catalog.scores.entries :=
    List.mem_cons_of_mem _ List.mem_cons_self
  have compiled : compile? ⟨.scores, some "shop"⟩ 10 1 [.feature "S" (.call "score" [])] =
      .ok (some Graph.shop) := by decide +kernel
  refine ⟨?_, ?_, ?_⟩
  · exact selects none .score first (plain _ first) fun _ => by decide
  · refine selects none .shopScore second (plain _ second) fun none => ?_
    cases none
  · obtain ⟨name, entry, found, -, -, bound⟩ := binds (some "shop") 10 1 _ .shop compiled
      (.feature "S" (.call "shop.score" [])) List.mem_cons_self (.call "shop.score" [])
      List.mem_cons_self "shop.score" [] List.mem_cons_self
    obtain ⟨here, there⟩ := bound (plain entry (Scope.mem_of_lookup found))
    refine ⟨entry, ⟨name, found⟩, here {}, fun bytes catalog' executable encoded restored => ?_⟩
    exact there none bytes none catalog' executable (.inr (outside entry)) encoded restored

end RuleGraph
