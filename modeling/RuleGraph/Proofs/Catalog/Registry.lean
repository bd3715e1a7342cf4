import RuleGraph.Proofs.Catalog.Registered

/-! # Registries

A host holds any number of views of one catalog. Whatever it does, it asks one of them; the catalog
behind them is the same for all.

* **`Registry`** — a catalog and its views.
* **`ViewCall`**, **`Registry.ask`** — what a view may be asked for, and what comes of it.
* **`Registry.Run`** — all that a host may do, with a record of it.
* **`Registry.grows_ask`** — what is asked for adds functions and changes no other.
* **`Registry.isSealed_ask`** — what ends registration.
-/

namespace RuleGraph

/-- A catalog and the views of it, in the order in which the host came to have them. -/
structure Registry where
  /-- The catalog. -/
  catalog : Catalog := {}
  /-- The views; the first one belongs to no package. -/
  views : List View := [{}]

/-- What a view may be asked for. The hook of an extension package adds functions one after the
other; one that does anything else asks the view of the package for it. -/
inductive ViewCall where
  /-- Add a function. -/
  | register (registration : Registration)
  /-- Make the view of a package. -/
  | package (name : String)
  /-- Make a copy of the view. -/
  | copy
  /-- Run the hook of an extension package, if it has one. -/
  | importPackage (name : String) (registrations : Option (List Registration))
  /-- Set a key of the configuration. -/
  | setConfig (key : String) (value : Json)
  /-- Read the configuration. -/
  | config
  /-- End registration. -/
  | endRegistration
  /-- Compile a program. -/
  | compile (limit rounds : Nat) (program : Program)
  /-- Restore a blob. -/
  | restore (bytes : Bytes)

/-- What a view answers. -/
inductive ViewAnswer where
  /-- It is done, or refused. -/
  | done (result : Except RegistryError Unit)
  /-- The configuration. -/
  | config (config : Dictionary Json)
  /-- What a program was compiled to. -/
  | compiled (result : Except CompileError (Option Graph))
  /-- What a blob was restored to. -/
  | restored (result : Except BlobError Executable)

namespace Registry

/-- Ask the view at a place. -/
def ask (registry : Registry) (place : Nat) (view : View) : ViewCall → ViewAnswer × Registry
  | .register registration =>
    match registry.catalog.register view.package registration with
    | .ok catalog => (.done (.ok ()), { registry with catalog })
    | .error error => (.done (.error error), registry)
  | .package name =>
    match view.ofPackage name with
    | .ok inner => (.done (.ok ()), { registry with views := registry.views ++ [inner] })
    | .error error => (.done (.error error), registry)
  | .copy => (.done (.ok ()), { registry with views := registry.views ++ [view] })
  | .importPackage name registrations =>
    let (catalog, result) := view.importPackage registry.catalog name registrations
    (.done result, { registry with catalog })
  | .setConfig key value =>
    (.done (.ok ()), { registry with catalog := registry.catalog.setConfig key value })
  | .config =>
    let (config, view) := view.config registry.catalog
    (.config config, { registry with views := registry.views.set place view })
  | .endRegistration =>
    (.done (.ok ()), { registry with catalog := registry.catalog.endRegistration })
  | .compile limit rounds program =>
    let (catalog, result) := registry.catalog.compile? view.package limit rounds program
    (.compiled result, { registry with catalog })
  | .restore bytes =>
    let (catalog, result) := registry.catalog.restore view.package bytes
    (.restored result, { registry with catalog })

end Registry

/-- Something that a host has asked a view for, and the answer. -/
structure ViewEvent where
  /-- The place of the view. -/
  place : Nat
  /-- What it was asked for. -/
  call : ViewCall
  /-- What it answered. -/
  answer : ViewAnswer

/-- Whether an event ends registration: to end it, to compile a program, whatever comes of that, and
to restore a blob that is accepted. -/
def ViewEvent.endsRegistration (event : ViewEvent) : Bool :=
  match event.call, event.answer with
  | .endRegistration, _ | .compile _ _ _, _ | .restore _, .restored (.ok _) => true
  | _, _ => false

/-- What a host may do, from a registry on, with a record of it. -/
inductive Registry.Run (registry : Registry) : List ViewEvent → Registry → Prop where
  /-- Nothing is done. -/
  | start : Run registry [] registry
  /-- One more view is asked for something. -/
  | step {events registry' registry'' place view call answer}
    (before : Run registry events registry') (found : registry'.views[place]? = some view)
    (asked : registry'.ask place view call = (answer, registry'')) :
    Run registry (events ++ [⟨place, call, answer⟩]) registry''

/-! ## Functions that are added -/

namespace ViewCall

/-- The functions that a view is asked to add, in order. -/
def registrations (view : View) : ViewCall → List Registration
  | .register registration => [registration]
  | .importPackage _ registrations =>
    if view.package.isNone then registrations.getD [] else []
  | _ => []

/-- The package that they are added to. -/
def home (view : View) : ViewCall → Option String
  | .importPackage name _ => some name
  | _ => view.package

end ViewCall

/-- A text is trimmed to nothing if it holds nothing but blanks, and only then. -/
theorem Text.trim_eq_empty_iff {text : String} : Text.trim text = "" ↔ isAllBlank text = true := by
  have trimmed : Text.trim text = "" ↔ trimChars text.toList = [] := by
    rw [trim, ← String.toList_inj, String.toList_ofList]
    rfl
  rw [trimmed, isAllBlank, List.all_eq_true, trimChars, trimEnd, List.reverse_eq_nil_iff,
    List.dropWhile_eq_nil_iff]
  constructor
  · intro all c member
    by_contra solid
    -- What is left begins with a character that is no blank.
    have rest : text.toList.dropWhile isBlank ≠ [] :=
      fun none => solid (List.dropWhile_eq_nil_iff.1 none c member)
    have head := List.head_dropWhile_not isBlank rest
    rw [all _ (List.mem_reverse.2 (List.head_mem rest))] at head
    cases head
  · intro all c member
    exact all c ((List.dropWhile_sublist isBlank).mem (List.mem_reverse.1 member))

namespace Catalog

variable {catalog catalog' : Catalog} {package : Option String} {name : String}
  {registration : Registration} {registrations : List Registration}
  {result : Except RegistryError Unit}

/-- Whether a catalog takes a function for a package: it has a name that is not blank, registration
has not ended, and the name is free in the package. -/
def Takes (catalog : Catalog) (package : Option String) (registration : Registration) : Prop :=
  Text.trim registration.name ≠ "" ∧ catalog.isSealed = false ∧
    ∀ entry ∈ catalog.entries, entry.key ≠ (package, registration.name)

/-- A catalog with further functions. -/
def extend (catalog : Catalog) (package : Option String) (registrations : List Registration) :
    Catalog :=
  { catalog with entries := catalog.entries ++ registrations.map (Entry.ofRegistration package) }

/-- Whether a catalog takes functions one after the other. -/
def TakesAll (catalog : Catalog) (package : Option String) : List Registration → Prop
  | [] => True
  | registration :: rest =>
    catalog.Takes package registration ∧
      (catalog.extend package [registration]).TakesAll package rest

/-- Nothing is found under a name that is free. -/
theorem find?_eq_none_iff : catalog.find? package name = none ↔
    ∀ entry ∈ catalog.entries, entry.key ≠ (package, name) := by
  simp [find?, List.find?_eq_none, Entry.key]

/-- **A function is added if and only if the catalog takes it**, and it is all that is added. -/
theorem register_eq_ok_iff : catalog.register package registration = .ok catalog' ↔
    catalog.Takes package registration ∧ catalog' = catalog.extend package [registration] := by
  unfold register
  dsimp only
  split
  · rename_i blank
    simp [Takes, Text.trim_eq_empty_iff.2 blank]
  · rename_i named
    have solid : Text.trim registration.name ≠ "" := mt Text.trim_eq_empty_iff.1 named
    split
    · rename_i ended
      simp [Takes, ended]
    · rename_i going
      split
      · rename_i taken
        have busy : ¬∀ entry ∈ catalog.entries, entry.key ≠ (package, registration.name) :=
          fun free => by simp [find?_eq_none_iff.2 free] at taken
        simp [Takes, busy]
      · rename_i free
        have free := find?_eq_none_iff.1 (Option.not_isSome_iff_eq_none.1 free)
        rw [Except.ok.injEq, eq_comm]
        exact ⟨fun same => ⟨⟨solid, Bool.eq_false_iff.2 going, free⟩, same⟩, And.right⟩

/-- How a catalog comes to have further functions, of those that it is asked to add: it takes them
one after the other up to the first one that it does not take, and all of them if the answer is that
it is done. -/
def Grows (catalog : Catalog) (package : Option String) (registrations : List Registration)
    (catalog' : Catalog) (isDone : Prop) : Prop :=
  ∃ added refused, registrations = added ++ refused ∧ catalog.TakesAll package added ∧
    catalog'.entries = catalog.entries ++ added.map (Entry.ofRegistration package) ∧
    (isDone → refused = []) ∧ ∀ first ∈ refused.head?, ¬catalog'.Takes package first

/-- No functions come from nothing. -/
theorem Grows.nothing {isDone : Prop} (same : catalog'.entries = catalog.entries) :
    catalog.Grows package [] catalog' isDone :=
  ⟨[], [], rfl, trivial, by rw [same, List.map_nil, List.append_nil], fun _ => rfl, by simp⟩

/-- A function that is refused adds none. -/
theorem Grows.refusal {isDone : Prop} {error : RegistryError} (not : ¬isDone)
    (refused : catalog.register package registration = .error error) :
    catalog.Grows package (registration :: registrations) catalog isDone := by
  refine ⟨[], _, rfl, trivial, by simp, fun isDone => absurd isDone not, fun first same takes => ?_⟩
  cases same
  rw [register_eq_ok_iff.2 ⟨takes, rfl⟩] at refused
  cases refused

/-- Nothing is added once registration has ended. -/
theorem Grows.entries_eq {isDone : Prop}
    (grows : catalog.Grows package registrations catalog' isDone)
    (ended : catalog.isSealed = true) : catalog'.entries = catalog.entries := by
  obtain ⟨added, _, -, takes, whole, -⟩ := grows
  cases added with
  | nil => rw [whole, List.map_nil, List.append_nil]
  | cons first rest =>
    have going := takes.1.2.1
    rw [ended] at going
    cases going

/-- **Functions are added one after the other as long as the catalog takes them.** -/
theorem grows_registerAll (done : catalog.registerAll package registrations = (catalog', result)) :
    catalog.Grows package registrations catalog' (result = .ok ()) := by
  induction registrations generalizing catalog with
  | nil =>
    cases done
    exact .nothing rfl
  | cons registration rest ih =>
    rw [registerAll] at done
    cases step : catalog.register package registration with
    | error error =>
      rw [step] at done
      cases done
      exact .refusal (by simp) step
    | ok next =>
      rw [step] at done
      obtain ⟨takes, rfl⟩ := register_eq_ok_iff.1 step
      obtain ⟨added, refused, rfl, others, whole, verdict, last⟩ := ih done
      refine ⟨registration :: added, refused, rfl, ⟨takes, others⟩, ?_, verdict, last⟩
      rw [whole, extend, List.append_assoc]
      rfl

/-- Adding functions does not end registration. -/
theorem isSealed_registerAll
    (done : catalog.registerAll package registrations = (catalog', result)) :
    catalog'.isSealed = catalog.isSealed := by
  induction registrations generalizing catalog with
  | nil =>
    cases done
    rfl
  | cons registration rest ih =>
    rw [registerAll] at done
    split at done
    · rename_i step
      rw [ih done, (register_eq_ok_iff.1 step).2]
      rfl
    · cases done
      rfl

/-- Restoring a blob adds no functions, and refusing it changes nothing. -/
theorem of_restore {bytes : Bytes} {restored : Except BlobError Executable}
    (done : catalog.restore package bytes = (catalog', restored)) :
    (∃ executable, restored = .ok executable ∧ catalog' = catalog.endRegistration) ∨
      ∃ error, restored = .error error ∧ catalog' = catalog := by
  unfold restore at done
  split at done
  · cases done
    exact .inr ⟨_, rfl, rfl⟩
  · cases done
    exact .inl ⟨_, rfl, rfl⟩

end Catalog

/-- An extension package adds the functions of its hook, if a view that belongs to no package is
asked to import it. -/
theorem View.grows_importPackage {view : View} {catalog catalog' : Catalog} {name : String}
    {registrations : Option (List Registration)} {result : Except RegistryError Unit}
    (done : view.importPackage catalog name registrations = (catalog', result)) :
    catalog.Grows (some name) ((ViewCall.importPackage name registrations).registrations view)
      catalog' (result = .ok ()) ∧ catalog'.isSealed = catalog.isSealed := by
  unfold importPackage ofPackage at done
  cases registrations with
  | none =>
    cases done
    refine ⟨?_, rfl⟩
    rw [ViewCall.registrations, Option.getD_none, ite_self]
    exact .nothing rfl
  | some registrations =>
    cases belongs : view.package with
    | some package =>
      rw [belongs] at done
      cases done
      refine ⟨?_, rfl⟩
      rw [ViewCall.registrations, belongs]
      exact .nothing rfl
    | none =>
      rw [belongs] at done
      rw [ViewCall.registrations, belongs]
      exact ⟨Catalog.grows_registerAll done, Catalog.isSealed_registerAll done⟩

namespace Registry

variable {registry registry' registry'' : Registry} {events events' : List ViewEvent} {place : Nat}
  {view : View} {call : ViewCall} {answer : ViewAnswer}

/-- **What a view is asked for adds functions and changes no other**: of the functions that it is
asked to add, all up to the first one that the catalog does not take. -/
theorem grows_ask (asked : registry.ask place view call = (answer, registry')) :
    registry.catalog.Grows (call.home view) (call.registrations view) registry'.catalog
      (answer = .done (.ok ())) := by
  cases call with
  | register registration =>
    rw [ask] at asked
    cases added : registry.catalog.register view.package registration with
    | ok catalog =>
      rw [added] at asked
      cases asked
      obtain ⟨takes, rfl⟩ := Catalog.register_eq_ok_iff.1 added
      exact ⟨[registration], [], rfl, ⟨takes, trivial⟩, rfl, fun _ => rfl, by simp⟩
    | error error =>
      rw [added] at asked
      cases asked
      exact .refusal (by simp) added
  | importPackage name registrations =>
    cases asked
    have grows := (@View.grows_importPackage view registry.catalog _ name registrations _ rfl).1
    rwa [← ViewAnswer.done.injEq] at grows
  | package name =>
    rw [ask] at asked
    split at asked <;> cases asked <;> exact .nothing rfl
  | copy | setConfig | config | endRegistration | compile =>
    cases asked
    exact .nothing rfl
  | restore bytes =>
    cases done : registry.catalog.restore view.package bytes with
    | mk catalog result =>
      rw [ask, done] at asked
      cases asked
      rcases Catalog.of_restore done with ⟨_, rfl, rfl⟩ | ⟨_, rfl, rfl⟩ <;> exact .nothing rfl

/-- **What ends registration**: to end it, to compile a program, whatever comes of that, and to
restore a blob that is accepted. Nothing else does, and nothing undoes it. -/
theorem isSealed_ask (asked : registry.ask place view call = (answer, registry')) :
    registry'.catalog.isSealed =
      (registry.catalog.isSealed || ViewEvent.endsRegistration ⟨place, call, answer⟩) := by
  cases call with
  | register registration =>
    rw [ask] at asked
    split at asked
    · rename_i added
      cases asked
      obtain ⟨-, rfl⟩ := Catalog.register_eq_ok_iff.1 added
      exact (Bool.or_false _).symm
    · cases asked
      exact (Bool.or_false _).symm
  | importPackage name registrations =>
    cases asked
    have still := (@View.grows_importPackage view registry.catalog _ name registrations _ rfl).2
    exact still.trans (Bool.or_false _).symm
  | package name =>
    rw [ask] at asked
    split at asked <;> cases asked <;> exact (Bool.or_false _).symm
  | copy | setConfig | config =>
    cases asked
    exact (Bool.or_false _).symm
  | endRegistration | compile =>
    cases asked
    exact (Bool.or_true _).symm
  | restore bytes =>
    cases done : registry.catalog.restore view.package bytes with
    | mk catalog result =>
      rw [ask, done] at asked
      cases asked
      rcases Catalog.of_restore done with ⟨_, rfl, rfl⟩ | ⟨_, rfl, rfl⟩
      · exact (Bool.or_true _).symm
      · exact (Bool.or_false _).symm

/-! ## Everything that a host does -/

namespace Run

/-- What follows on a run is a run. -/
theorem append (run : registry.Run events registry') (further : registry'.Run events' registry'') :
    registry.Run (events ++ events') registry'' := by
  induction further with
  | start => simpa using run
  | step _ found asked ih =>
    rw [← List.append_assoc]
    exact ih.step found asked

/-- A host can come to have the catalog behind its views. -/
theorem reachable (run : registry.Run events registry') (begun : registry.catalog.Reachable) :
    registry'.catalog.Reachable := by
  induction run with
  | start => exact begun
  | @step _ registry' _ _ view call _ _ _ asked ih =>
    cases call with
    | register registration =>
      rw [ask] at asked
      split at asked
      · rename_i added
        cases asked
        exact ih.register added
      · cases asked
        exact ih
    | importPackage name registrations =>
      cases asked
      exact ih.importPackage view name registrations
    | package name =>
      rw [ask] at asked
      split at asked <;> cases asked <;> exact ih
    | copy | config =>
      cases asked
      exact ih
    | setConfig key value =>
      cases asked
      exact ih.setConfig key value
    | endRegistration | compile =>
      cases asked
      exact ih.endRegistration
    | restore bytes =>
      cases asked
      exact ih.restore view.package bytes

/-- **Functions are never replaced or removed.** -/
theorem isPrefix (run : registry.Run events registry') :
    registry.catalog.entries <+: registry'.catalog.entries := by
  induction run with
  | start => exact List.prefix_rfl
  | step _ _ asked ih =>
    obtain ⟨added, _, -, -, whole, -⟩ := grows_ask asked
    exact ih.trans (whole ▸ List.prefix_append _ _)

/-- **Registration has ended if and only if something in the run ended it**, or it had before. -/
theorem isSealed_iff (run : registry.Run events registry') : registry'.catalog.isSealed = true ↔
    registry.catalog.isSealed = true ∨ ∃ event ∈ events, event.endsRegistration = true := by
  induction run with
  | start => simp
  | step _ _ asked ih =>
    rw [isSealed_ask asked, Bool.or_eq_true, ih, or_assoc]
    refine or_congr_right ⟨?_, ?_⟩
    · rintro (⟨event, member, ends⟩ | ends)
      · exact ⟨event, List.mem_append_left _ member, ends⟩
      · exact ⟨_, List.mem_append_right _ List.mem_cons_self, ends⟩
    · rintro ⟨event, member, ends⟩
      rcases List.mem_append.1 member with before | last
      · exact .inl ⟨event, before, ends⟩
      · exact .inr (List.mem_singleton.1 last ▸ ends)

/-- Once registration has ended, there are no further functions. -/
theorem entries_of_isSealed (run : registry.Run events registry')
    (ended : registry.catalog.isSealed = true) :
    registry'.catalog.entries = registry.catalog.entries := by
  induction run with
  | start => rfl
  | step before _ asked ih =>
    exact ((grows_ask asked).entries_eq (before.isSealed_iff.2 (.inl ended))).trans ih

/-- **What is found under a name is found there ever after.** -/
theorem find?_eq_some (run : registry.Run events registry') {package : Option String}
    {name : String} {entry : Entry} (found : registry.catalog.find? package name = some entry) :
    registry'.catalog.find? package name = some entry := by
  obtain ⟨further, whole⟩ := run.isPrefix
  rw [Catalog.find?] at found ⊢
  rw [← whole, List.find?_append, found]
  rfl

end Run

/-- A view adds a function if and only if the catalog takes it. -/
theorem ask_register_iff {registration : Registration}
    (asked : registry.ask place view (.register registration) = (answer, registry')) :
    (answer = .done (.ok ()) ↔ registry.catalog.Takes view.package registration) ∧
      (answer = .done (.ok ()) → registry' =
        { registry with catalog := registry.catalog.extend view.package [registration] }) ∧
      (answer ≠ .done (.ok ()) → registry' = registry) := by
  rw [ask] at asked
  cases added : registry.catalog.register view.package registration with
  | ok catalog =>
    rw [added] at asked
    cases asked
    obtain ⟨takes, rfl⟩ := Catalog.register_eq_ok_iff.1 added
    exact ⟨by simp [takes], fun _ => rfl, fun no => absurd rfl no⟩
  | error error =>
    rw [added] at asked
    cases asked
    have not : ViewAnswer.done (.error error) ≠ .done (.ok ()) := by simp
    refine ⟨⟨fun same => absurd same not, fun takes => ?_⟩, fun same => absurd same not,
      fun _ => rfl⟩
    rw [Catalog.register_eq_ok_iff.2 ⟨takes, rfl⟩] at added
    cases added

/-- **A catalog only grows, until registration ends.** In everything that a host does with the
views of a catalog, a view adds a function if and only if its name is not blank, registration has
not ended and the name is free in the package of the view; then that is all that changes, and
otherwise nothing does. What an extension package adds is added so, one after the other, and nothing
else adds functions. No function is ever replaced or removed, none is added once registration has
ended, and what ends it, for all views and for good, is to end it, to compile a program and to
restore a blob that is accepted. -/
theorem grows_until_sealed (run : Registry.Run {} events registry) :
    (registry.catalog.isSealed = true ↔ ∃ event ∈ events, event.endsRegistration = true) ∧
    (registry.catalog.entries.map Entry.key).Nodup ∧
    (∀ place view registration answer registry',
      registry.ask place view (.register registration) = (answer, registry') →
      (answer = .done (.ok ()) ↔ registry.catalog.Takes view.package registration) ∧
      (answer = .done (.ok ()) → registry' =
        { registry with catalog := registry.catalog.extend view.package [registration] }) ∧
      (answer ≠ .done (.ok ()) → registry' = registry)) ∧
    (∀ place view call answer registry', registry.ask place view call = (answer, registry') →
      registry.catalog.Grows (call.home view) (call.registrations view) registry'.catalog
        (answer = .done (.ok ())) ∧
      registry'.catalog.isSealed =
        (registry.catalog.isSealed || ViewEvent.endsRegistration ⟨place, call, answer⟩)) ∧
    ∀ events' registry', registry.Run events' registry' →
      registry.catalog.entries <+: registry'.catalog.entries ∧
      (∀ package name entry, registry.catalog.find? package name = some entry →
        registry'.catalog.find? package name = some entry) ∧
      (registry.catalog.isSealed = true → registry'.catalog.isSealed = true ∧
        registry'.catalog.entries = registry.catalog.entries) := by
  refine ⟨?_, (run.reachable .empty).nodup, fun _ _ _ _ _ asked => ask_register_iff asked,
    fun _ _ _ _ _ asked => ⟨grows_ask asked, isSealed_ask asked⟩,
    fun events' registry' further => ?_⟩
  · rw [run.isSealed_iff]
    exact or_iff_right (by decide)
  · exact ⟨further.isPrefix, fun _ _ _ found => further.find?_eq_some found, fun ended =>
      ⟨further.isSealed_iff.2 (.inl ended), further.entries_of_isSealed ended⟩⟩

end Registry

/-! ## Failures before the end and after it -/

/-- A function to register. -/
def Registration.idle (name : String) : Registration :=
  { name, kind := .sync fun _ _ => ([], .ok .null) }

/-- A catalog that was made by adding a function. A second function of that name was refused, and so
was a blob. -/
def Registry.opened : Registry := { catalog := { entries := [.ofRegistration none (.idle "f")] } }

/-- A program that does not compile ends registration. -/
def Registry.closed : Registry := { catalog := { Registry.opened.catalog with isSealed := true } }

/-- What led to the catalog. -/
theorem Registry.run_opened : Registry.Run {} [
    ⟨0, .register (.idle "f"), .done (.ok ())⟩,
    ⟨0, .register (.idle "f"), .done (.error (.duplicate "f" none))⟩,
    ⟨0, .restore [], .restored (.error (.lengthMismatch 32 0))⟩] .opened := by
  have added : ({} : Registry).ask 0 {} (.register (.idle "f")) = (.done (.ok ()), .opened) := rfl
  have taken : Registry.opened.ask 0 {} (.register (.idle "f")) =
      (.done (.error (.duplicate "f" none)), .opened) := rfl
  have refused : Registry.opened.ask 0 {} (.restore []) =
      (.restored (.error (.lengthMismatch 32 0)), .opened) := rfl
  exact ((Run.start.step rfl added).step rfl taken).step rfl refused

/-- What happened to it then. -/
theorem Registry.run_closed : Registry.opened.Run [
    ⟨0, .compile 8 1 [.feature "X" (.call "g" [])], .compiled (.error (.unknownFunction "g"))⟩,
    ⟨0, .register (.idle "g"), .done (.error (.catalogSealed "g"))⟩] .closed := by
  have failed : Registry.opened.ask 0 {} (.compile 8 1 [.feature "X" (.call "g" [])]) =
      (.compiled (.error (.unknownFunction "g")), .closed) := rfl
  have late : Registry.closed.ask 0 {} (.register (.idle "g")) =
      (.done (.error (.catalogSealed "g")), .closed) := rfl
  exact (Run.start.step rfl failed).step rfl late

/-- Neither a refused function nor a refused blob ends registration, a program that does not compile
does, and all the while the first function is found. -/
theorem Registry.grows_until_sealed_of_failures :
    Registry.opened.catalog.isSealed = false ∧ Registry.closed.catalog.isSealed = true ∧
    Registry.opened.catalog.Takes none (.idle "g") ∧
    ¬Registry.closed.catalog.Takes none (.idle "g") ∧
    Registry.closed.catalog.find? none "f" = some (.ofRegistration none (.idle "f")) := by
  obtain ⟨ended, -, adds, -, later⟩ := Registry.grows_until_sealed Registry.run_opened
  obtain ⟨ended', -, adds', -⟩ :=
    Registry.grows_until_sealed (Registry.run_opened.append Registry.run_closed)
  obtain ⟨-, found, -⟩ := later _ _ Registry.run_closed
  refine ⟨?_, ?_, ?_, ?_, found _ _ _ rfl⟩
  · exact Bool.eq_false_iff.2 (mt ended.1 (by decide))
  · exact ended'.2 ⟨_, List.mem_append_right _ List.mem_cons_self, rfl⟩
  · exact (adds 0 {} (.idle "g") _ _ rfl).1.1 rfl
  · intro takes
    have added := (adds' 0 {} (.idle "g") _ _ rfl).1.2 takes
    cases added

end RuleGraph
