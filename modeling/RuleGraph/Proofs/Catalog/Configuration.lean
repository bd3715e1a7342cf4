import RuleGraph.Proofs.Catalog.Registry

/-! # The configuration that views show

All views of a catalog set keys of one configuration. A view shows it as it was when the view was
first read, and a copy of a view that had been read shows what the view showed.

* **`Registry.momentShown?`** — the moment at which what a view shows was read.
* **`Registry.Remembers`**, **`Registry.remembers_ask`** — views show what they showed at that
  moment, whatever is asked for.
* **`Registry.config_at_first_reading`** — what all readings of all views answer.
-/

namespace RuleGraph

/-! ## Keys of dictionaries -/

namespace Dictionary

variable {α : Type} {entries base overlay : Dictionary α} {key key' : String} {value : α}

/-- The value in the last pair with a key. -/
def last? (entries : List (String × α)) (key : String) : Option α :=
  entries.reverse.lookup key

/-- What is found in the pairs that follow a pair is found if the key is another one. -/
theorem find?_cons : find? ((key', value) :: entries) key =
    if key = key' then some value else find? entries key := by
  rw [find?, List.lookup_cons]
  split <;> simp_all [find?]

/-- **Setting a key** changes the value of that key and of no other. -/
theorem find?_insert : find? (insert key' value entries) key =
    if key = key' then some value else find? entries key := by
  induction entries with
  | nil => exact find?_cons
  | cons entry rest ih =>
    obtain ⟨k, v⟩ := entry
    rw [insert]
    split
    · exact find?_cons
    · split
      · rename_i same
        subst same
        rw [find?_cons, find?_cons]
        split <;> rfl
      · rename_i other
        rw [find?_cons, find?_cons, ih]
        split
        · rename_i same
          rw [if_neg fun same' => other (same'.symm.trans same)]
        · rfl

/-- **Overlaying a dictionary** changes the values of the keys of the overlay and of no others. -/
theorem find?_union : find? (union base overlay) key =
    (last? overlay key).or (find? base key) := by
  induction overlay using List.reverseRecOn with
  | nil => rfl
  | append_singleton overlay entry ih =>
    obtain ⟨k, v⟩ := entry
    have latest : last? (overlay ++ [(k, v)]) key = if key = k then some v else last? overlay key := by
      rw [last?, List.reverse_append]
      exact find?_cons
    rw [union, List.foldl_concat, find?_insert, ← union, ih, latest]
    split <;> rfl

end Dictionary

/-- The last member of an object under a name. -/
def Json.lastMember? (name : String) : Json → Option Json
  | .object members => Dictionary.last? members name
  | _ => none

/-- The value of a key that a package sees, in terms of the values of all keys: the one in the block
of the package, if it has a block with that key, else the one outside of it. -/
def overlaid (value : String → Option Json) (package : Option String) (key : String) :
    Option Json :=
  ((package.bind value).bind (Json.lastMember? key)).or (value key)

/-- Adding functions does not set the configuration. -/
theorem Catalog.config_registerAll {catalog : Catalog} {package : Option String}
    {registrations : List Registration} :
    (catalog.registerAll package registrations).1.config = catalog.config := by
  induction registrations generalizing catalog with
  | nil => rfl
  | cons registration rest ih =>
    rw [registerAll]
    split
    · rename_i added
      obtain ⟨-, rfl⟩ := register_eq_ok_iff.1 added
      exact ih
    · rfl

/-- A package sees the configuration overlaid, key by key, with its own block. -/
theorem Catalog.find?_configFor (catalog : Catalog) (package : Option String) (key : String) :
    Dictionary.find? (catalog.configFor package) key =
      overlaid (Dictionary.find? catalog.config) package key := by
  unfold configFor overlaid
  rw [Option.bind_eq_bind]
  cases package.bind (Dictionary.find? catalog.config) with
  | none => rfl
  | some block =>
    cases block with
    | object overlay => exact Dictionary.find?_union
    | _ => rfl

/-! ## What is known from what happened -/

namespace ViewEvent

/-- Whether a view is added to those of the host. -/
def addsView (event : ViewEvent) : Bool :=
  match event.call, event.answer with
  | .package _, .done (.ok _) | .copy, _ => true
  | _, _ => false

/-- The place of the view that is copied. -/
def original? (event : ViewEvent) : Option Nat :=
  match event.call with
  | .copy => some event.place
  | _ => none

/-- Whether the configuration of the view at a place is read. -/
def reads (event : ViewEvent) (place : Nat) : Bool :=
  match event.call with
  | .config => event.place = place
  | _ => false

/-- The value that a key is set to. -/
def setsTo? (event : ViewEvent) (key : String) : Option Json :=
  match event.call with
  | .setConfig key' value => if key = key' then some value else none
  | _ => none

end ViewEvent

/-- Extension packages do not set the configuration by adding functions. -/
theorem View.config_importPackage {view : View} {catalog : Catalog} {name : String}
    {registrations : Option (List Registration)} :
    (view.importPackage catalog name registrations).1.config = catalog.config := by
  unfold importPackage
  split
  · rfl
  · rfl
  · exact Catalog.config_registerAll

namespace Registry

/-- The number of views after what happened, one of them there from the start. -/
def viewCount (history : List ViewEvent) : Nat :=
  1 + history.countP ViewEvent.addsView

/-- What had happened, latest first, at the moment at which what a view shows was read, in terms of
all that happened, latest first: at the first reading of the view, unless it is a copy of a view
that had been read when it was copied, and then at the moment of that one. -/
def momentShown? : List ViewEvent → Nat → Option (List ViewEvent)
  | [], _ => none
  | event :: earlier, place =>
    if place < viewCount earlier then
      (momentShown? earlier place).or (if event.reads place then some earlier else none)
    else event.original?.bind (momentShown? earlier)

/-- The configuration after what happened, latest first. -/
def configAfter (initial : Dictionary Json) : List ViewEvent → Dictionary Json
  | [] => initial
  | event :: earlier =>
    match event.call with
    | .setConfig key value => Dictionary.insert key value (configAfter initial earlier)
    | _ => configAfter initial earlier

/-- The value of a key after what happened: the one that it was last set to, or the initial one. -/
def valueAfter (initial : Dictionary Json) (history : List ViewEvent) (key : String) :
    Option Json :=
  (history.findSome? fun event => event.setsTo? key).or (Dictionary.find? initial key)

/-- What a view of a package shows after what happened, if it is read then. -/
def shownAfter (initial : Dictionary Json) (history : List ViewEvent) (place : Nat)
    (package : Option String) : Dictionary Json :=
  Catalog.configFor { config := configAfter initial ((momentShown? history place).getD history) }
    package

variable {registry registry' registry'' : Registry} {events events' : List ViewEvent}
  {history : List ViewEvent} {place place' : Nat} {view view' : View} {call : ViewCall}
  {answer : ViewAnswer} {initial : Dictionary Json} {event : ViewEvent} {key : String}

/-- A key has the value that it was last set to. -/
theorem find?_configAfter :
    Dictionary.find? (configAfter initial history) key = valueAfter initial history key := by
  induction history with
  | nil => rfl
  | cons event earlier ih =>
    obtain ⟨place, call, answer⟩ := event
    rw [valueAfter, List.findSome?_cons]
    cases call with
    | setConfig key' value =>
      rw [configAfter, Dictionary.find?_insert, ih, valueAfter]
      dsimp only [ViewEvent.setsTo?]
      split <;> rfl
    | _ => exact ih

/-- What a view shows, key by key. -/
theorem find?_shownAfter {package : Option String} :
    Dictionary.find? (shownAfter initial history place package) key =
      overlaid (valueAfter initial ((momentShown? history place).getD history)) package key := by
  rw [shownAfter, Catalog.find?_configFor]
  exact congrArg (fun value => overlaid value package key) (funext fun _ => find?_configAfter)

/-! ## One step -/

/-- All that may become of the configuration and the views: a key is set, a view is read, a view is
added, or nothing happens to either. -/
theorem ask_cases (asked : registry.ask place view call = (answer, registry')) :
    (∃ key value, call = .setConfig key value ∧
      registry' = { registry with catalog := registry.catalog.setConfig key value }) ∨
    (call = .config ∧ answer = .config (view.config registry.catalog).1 ∧ registry' =
      { registry with views := registry.views.set place (view.config registry.catalog).2 }) ∨
    (∃ added, ViewEvent.addsView ⟨place, call, answer⟩ = true ∧
      registry' = { registry with views := registry.views ++ [added] } ∧
      (call = .copy ∧ added = view ∨
        ∃ name, call = .package name ∧ added = { package := some name })) ∨
    ((∀ key value, call ≠ .setConfig key value) ∧ call ≠ .config ∧
      ViewEvent.addsView ⟨place, call, answer⟩ = false ∧ registry'.views = registry.views ∧
      registry'.catalog.config = registry.catalog.config) := by
  cases call with
  | setConfig key value =>
    cases asked
    exact .inl ⟨key, value, rfl, rfl⟩
  | config =>
    cases asked
    exact .inr (.inl ⟨rfl, rfl, rfl⟩)
  | copy =>
    cases asked
    exact .inr (.inr (.inl ⟨view, rfl, rfl, .inl ⟨rfl, rfl⟩⟩))
  | package name =>
    rw [ask, View.ofPackage] at asked
    split at asked
    · rename_i made
      cases asked
      split at made
      · cases made
      · cases made
        exact .inr (.inr (.inl ⟨_, rfl, rfl, .inr ⟨name, rfl, rfl⟩⟩))
    · cases asked
      exact .inr (.inr (.inr ⟨by simp, by simp, rfl, rfl, rfl⟩))
  | register registration =>
    rw [ask] at asked
    split at asked
    · rename_i added
      cases asked
      obtain ⟨-, rfl⟩ := Catalog.register_eq_ok_iff.1 added
      exact .inr (.inr (.inr ⟨by simp, by simp, rfl, rfl, rfl⟩))
    · cases asked
      exact .inr (.inr (.inr ⟨by simp, by simp, rfl, rfl, rfl⟩))
  | importPackage name registrations =>
    cases asked
    exact .inr (.inr (.inr ⟨by simp, by simp, rfl, rfl, View.config_importPackage⟩))
  | endRegistration | compile =>
    cases asked
    exact .inr (.inr (.inr ⟨by simp, by simp, rfl, rfl, rfl⟩))
  | restore bytes =>
    cases done : registry.catalog.restore view.package bytes with
    | mk catalog result =>
      rw [ask, done] at asked
      cases asked
      rcases Catalog.of_restore done with ⟨_, rfl, rfl⟩ | ⟨_, rfl, rfl⟩ <;>
        exact .inr (.inr (.inr ⟨by simp, by simp, rfl, rfl, rfl⟩))

/-- One more event adds one more view if it adds one. -/
theorem viewCount_cons : viewCount (event :: history) =
    viewCount history + if event.addsView then 1 else 0 := by
  rw [viewCount, viewCount, List.countP_cons, Nat.add_assoc]

/-- What a view shows may be fixed by one more event only if the event reads the view. -/
theorem momentShown?_cons (there : place < viewCount history) :
    momentShown? (event :: history) place =
      (momentShown? history place).or (if event.reads place then some history else none) := by
  rw [momentShown?, if_pos there]

/-- What a host knows from what happened, latest first: how many views there are, what the
configuration is, and what each view shows if it has been read. -/
structure Remembers (initial : Dictionary Json) (history : List ViewEvent) (registry : Registry) :
    Prop where
  /-- How many views there are. -/
  count : registry.views.length = viewCount history
  /-- What the configuration is. -/
  config : registry.catalog.config = configAfter initial history
  /-- What each view shows. -/
  seen : ∀ place view, registry.views[place]? = some view →
    view.seenConfig = (momentShown? history place).map fun moment =>
      Catalog.configFor { config := configAfter initial moment } view.package

/-- What a view shows if it is read now. -/
theorem Remembers.config_eq (remembers : Remembers initial history registry)
    (found : registry.views[place]? = some view) :
    (view.config registry.catalog).1 = shownAfter initial history place view.package := by
  rw [View.config, shownAfter, remembers.seen place view found]
  cases momentShown? history place with
  | some moment => rfl
  | none =>
    rw [Option.getD_none, ← remembers.config]
    rfl

/-- A view that is read belongs to its package still, and shows what it showed. -/
theorem package_config (view : View) (catalog : Catalog) :
    (view.config catalog).2.package = view.package ∧
      (view.config catalog).2.seenConfig = some (view.config catalog).1 := by
  unfold View.config
  split
  · rename_i seen
    exact ⟨rfl, seen⟩
  · exact ⟨rfl, rfl⟩

/-- A view of the host is one of those that are known. -/
theorem Remembers.lt (remembers : Remembers initial history registry)
    (found : registry.views[place]? = some view) : place < viewCount history := by
  rw [← remembers.count]
  exact (List.getElem?_eq_some_iff.1 found).1

/-- What a view shows is not changed by an event that does not read it. -/
theorem Remembers.seen_cons (remembers : Remembers initial history registry)
    (found : registry.views[place]? = some view) (unread : event.reads place = false) :
    view.seenConfig = (momentShown? (event :: history) place).map fun moment =>
      Catalog.configFor { config := configAfter initial moment } view.package := by
  rw [momentShown?_cons (remembers.lt found), unread, remembers.seen place view found]
  exact congrArg _ Option.or_none.symm

/-- A view that is read shows what it showed, or the latest values if it had not been read. -/
theorem Remembers.read (remembers : Remembers initial history registry)
    (found : registry.views[place]? = some view) :
    Remembers initial (⟨place, .config, answer⟩ :: history)
      { registry with views := registry.views.set place (view.config registry.catalog).2 } := by
  refine ⟨?_, remembers.config, fun place' view' found' => ?_⟩
  · rw [List.length_set, remembers.count, viewCount_cons]
    rfl
  · rw [List.getElem?_set] at found'
    split at found'
    · rename_i same
      subst same
      obtain rfl : (view.config registry.catalog).2 = view' := by
        split at found'
        · exact Option.some.inj found'
        · cases found'
      obtain ⟨package, shows⟩ := package_config view registry.catalog
      have reads : ViewEvent.reads ⟨place, .config, answer⟩ place = true := decide_eq_true rfl
      rw [package, shows, remembers.config_eq found, shownAfter,
        momentShown?_cons (remembers.lt found), reads]
      cases momentShown? history place <;> rfl
    · rename_i other
      exact remembers.seen_cons found' (decide_eq_false other)

/-- A copy of a view shows what the view shows, and the view of a package the latest values. -/
theorem Remembers.add (remembers : Remembers initial history registry) {added : View}
    (found : registry.views[place]? = some view)
    (adds : ViewEvent.addsView ⟨place, call, answer⟩ = true)
    (origin : call = .copy ∧ added = view ∨
      ∃ name, call = .package name ∧ added = { package := some name }) :
    Remembers initial (⟨place, call, answer⟩ :: history)
      { registry with views := registry.views ++ [added] } := by
  refine ⟨?_, ?_, fun place' view' found' => ?_⟩
  · rw [viewCount_cons, adds, List.length_append, remembers.count]
    rfl
  · rcases origin with ⟨rfl, -⟩ | ⟨_, rfl, -⟩ <;> exact remembers.config
  · rcases Nat.lt_or_ge place' registry.views.length with old | new
    · rw [List.getElem?_append_left old] at found'
      refine remembers.seen_cons found' ?_
      rcases origin with ⟨rfl, -⟩ | ⟨_, rfl, -⟩ <;> rfl
    · rw [List.getElem?_append_right new, List.getElem?_singleton] at found'
      obtain rfl : added = view' := by
        split at found'
        · exact Option.some.inj found'
        · cases found'
      rw [momentShown?, if_neg (Nat.not_lt.2 (remembers.count ▸ new))]
      rcases origin with ⟨rfl, rfl⟩ | ⟨_, rfl, rfl⟩
      · exact remembers.seen place added found
      · rfl

/-- **Views show what they showed when they were first read**, whatever they are asked for. -/
theorem remembers_ask (before : Remembers initial history registry)
    (found : registry.views[place]? = some view)
    (asked : registry.ask place view call = (answer, registry')) :
    Remembers initial (⟨place, call, answer⟩ :: history) registry' := by
  rcases ask_cases asked with ⟨key, value, rfl, rfl⟩ | ⟨rfl, -, rfl⟩ |
    ⟨added, adds, rfl, origin⟩ | ⟨unset, unread, unadded, views, config⟩
  · refine ⟨?_, congrArg (Dictionary.insert key value) before.config,
      fun _ _ found' => before.seen_cons found' rfl⟩
    rw [viewCount_cons]
    exact before.count
  · exact before.read found
  · exact before.add found adds origin
  · refine ⟨?_, ?_, fun place' view' found' => before.seen_cons (views ▸ found') ?_⟩
    · rw [viewCount_cons, unadded, views]
      exact before.count
    · rw [config, before.config, configAfter]
      split
      · rename_i set
        exact absurd set (unset _ _)
      · rfl
    · unfold ViewEvent.reads
      split
      · rename_i read
        exact absurd read unread
      · rfl

/-! ## Everything that a host does -/

/-- A host knows all that from the start. -/
theorem Run.remembers {catalog : Catalog} (run : Run { catalog } events registry) :
    Remembers catalog.config events.reverse registry := by
  induction run with
  | start =>
    refine ⟨rfl, rfl, fun place view found => ?_⟩
    match place, found with
    | 0, rfl => rfl
  | step _ found asked ih =>
    rw [List.reverse_append]
    exact remembers_ask ih found asked

/-- Views stay where they are and belong to their packages. -/
theorem Run.exists_view (run : registry.Run events registry')
    (found : registry.views[place]? = some view) :
    ∃ view', registry'.views[place]? = some view' ∧ view'.package = view.package := by
  induction run with
  | start => exact ⟨view, found, rfl⟩
  | @step _ registry' _ asking asked' _ _ _ found' asked ih =>
    obtain ⟨kept, found, package⟩ := ih
    rcases ask_cases asked with ⟨_, _, -, rfl⟩ | ⟨-, -, rfl⟩ | ⟨_, -, rfl, -⟩ | ⟨-, -, -, same, -⟩
    · exact ⟨kept, found, package⟩
    · by_cases same : asking = place
      · subst same
        obtain rfl : asked' = kept := Option.some.inj (found'.symm.trans found)
        refine ⟨_, ?_, (package_config asked' registry'.catalog).1.trans package⟩
        exact List.getElem?_set_self (List.getElem?_eq_some_iff.1 found).1
      · exact ⟨kept, (List.getElem?_set_ne same).trans found, package⟩
    · refine ⟨kept, ?_, package⟩
      rw [List.getElem?_append_left (List.getElem?_eq_some_iff.1 found).1]
      exact found
    · exact ⟨kept, same ▸ found, package⟩

/-- What happened is a run up to an event, the event, and a run from there on. -/
theorem Run.exists_of_event (run : registry.Run events registry') {later : List ViewEvent}
    (whole : events = events' ++ event :: later) :
    ∃ before after view, registry.Run events' before ∧
      before.views[event.place]? = some view ∧
      before.ask event.place view event.call = (event.answer, after) ∧
      after.Run later registry' := by
  induction run generalizing later with
  | start => simp at whole
  | step ran found asked ih =>
    rcases List.eq_nil_or_concat' later with rfl | ⟨later, last, rfl⟩
    · obtain ⟨rfl, same⟩ := List.append_inj' whole rfl
      cases same
      exact ⟨_, _, _, ran, found, asked, .start⟩
    · rw [← List.cons_append, ← List.append_assoc] at whole
      obtain ⟨rfl, same⟩ := List.append_inj' whole rfl
      cases same
      obtain ⟨before, after, view, ran, found', asked', further⟩ := ih rfl
      exact ⟨before, after, view, ran, found', asked', further.step found asked⟩

/-- The moment whose configuration a view shows is the same ever after. -/
theorem momentShown?_append {moment : List ViewEvent} (there : place < viewCount history)
    (known : momentShown? history place = some moment) (later : List ViewEvent) :
    place < viewCount (later ++ history) ∧ momentShown? (later ++ history) place = some moment := by
  induction later with
  | nil => exact ⟨there, known⟩
  | cons event later ih =>
    rw [List.cons_append, viewCount_cons, momentShown?_cons ih.1, ih.2]
    exact ⟨Nat.lt_add_right _ ih.1, rfl⟩

/-- A reading fixes what the view shows. -/
theorem momentShown?_of_reads (there : place < viewCount history)
    (reads : event.reads place = true) :
    momentShown? (event :: history) place = some ((momentShown? history place).getD history) := by
  rw [momentShown?_cons there, reads]
  cases momentShown? history place <;> rfl

/-- A view shows the same from its first reading on. -/
theorem shownAfter_append {package : Option String} (there : place < viewCount history)
    (reads : event.reads place = true) (later : List ViewEvent) :
    shownAfter initial (later ++ event :: history) place package =
      shownAfter initial history place package := by
  have known := momentShown?_of_reads there reads
  have there' : place < viewCount (event :: history) := by
    rw [viewCount_cons]
    exact Nat.lt_add_right _ there
  rw [shownAfter, (momentShown?_append there' known later).2]
  rfl

/-- What a reading answers. -/
theorem Run.answer_eq {catalog : Catalog} {later : List ViewEvent}
    (run : Run { catalog } events registry) (whole : events = events' ++ event :: later)
    (reading : event.call = .config) :
    ∃ view, registry.views[event.place]? = some view ∧ event.place < viewCount events'.reverse ∧
      event.answer = .config
        (shownAfter catalog.config events'.reverse event.place view.package) := by
  obtain ⟨before, after, view, ran, found, asked, further⟩ := run.exists_of_event whole
  obtain ⟨view', found', package⟩ :=
    ((Run.start.step found asked).append further).exists_view found
  have remembers := ran.remembers
  refine ⟨view', found', remembers.lt found, ?_⟩
  rw [package, ← remembers.config_eq found]
  rw [reading] at asked
  exact (congrArg Prod.fst asked).symm

/-- **Views show the configuration as it was when they were first read.** In everything that a host
does with the views of a catalog, a reading of a view answers the configuration as it was at the
first reading of the view, or, for a copy of a view that had been read, at the moment of that one,
with the block that the package of the view had at that moment laid over it key by key. Every later
reading of the view answers the same, and a view that has not been read shows the latest values. -/
theorem config_at_first_reading {catalog : Catalog} (run : Run { catalog } events registry) :
    (∀ earlier event later, events = earlier ++ event :: later → event.call = .config →
      ∃ view, registry.views[event.place]? = some view ∧ event.answer = .config
        (shownAfter catalog.config earlier.reverse event.place view.package)) ∧
    (∀ earlier event middle event' later,
      events = earlier ++ event :: (middle ++ event' :: later) →
      event.call = .config → event'.call = .config → event'.place = event.place →
      event'.answer = event.answer) ∧
    (∀ place view, registry.views[place]? = some view →
      (view.config registry.catalog).1 =
        shownAfter catalog.config events.reverse place view.package ∧
      (momentShown? events.reverse place = none →
        (view.config registry.catalog).1 = registry.catalog.configFor view.package ∧
        ∀ key, Dictionary.find? (view.config registry.catalog).1 key =
          overlaid (valueAfter catalog.config events.reverse) view.package key) ∧
      ((momentShown? events.reverse place).isSome → ∀ events' registry',
        registry.Run events' registry' → ∃ view', registry'.views[place]? = some view' ∧
          (view'.config registry'.catalog).1 = (view.config registry.catalog).1)) ∧
    ∀ history place package key,
      Dictionary.find? (shownAfter catalog.config history place package) key =
        overlaid (valueAfter catalog.config ((momentShown? history place).getD history)) package
          key := by
  refine ⟨fun earlier event later whole reading => ?_,
    fun earlier event middle event' later whole reading reading' same => ?_,
    fun place view found => ⟨run.remembers.config_eq found, fun unread => ?_,
      fun fixed events' registry' further => ?_⟩, fun _ _ _ _ => find?_shownAfter⟩
  · obtain ⟨view, found, -, answer⟩ := run.answer_eq whole reading
    exact ⟨view, found, answer⟩
  · obtain ⟨view, found, there, answer⟩ := run.answer_eq whole reading
    rw [← List.cons_append, ← List.append_assoc] at whole
    obtain ⟨view', found', -, answer'⟩ := run.answer_eq whole reading'
    rw [same] at found' answer'
    obtain rfl : view = view' := Option.some.inj (found.symm.trans found')
    have reads : event.reads event.place = true := by
      rw [ViewEvent.reads, reading]
      exact decide_eq_true rfl
    rw [answer, answer', List.reverse_append, List.reverse_cons, List.append_assoc]
    exact congrArg _ (shownAfter_append there reads middle.reverse)
  · have shows := run.remembers.config_eq found
    refine ⟨?_, fun key => ?_⟩
    · rw [shows, shownAfter, unread, Option.getD_none, ← run.remembers.config]
      rfl
    · rw [shows, find?_shownAfter, unread, Option.getD_none]
  · obtain ⟨moment, known⟩ := Option.isSome_iff_exists.1 fixed
    obtain ⟨view', found', package⟩ := further.exists_view found
    have later := (momentShown?_append (run.remembers.lt found) known events'.reverse).2
    refine ⟨view', found', ?_⟩
    rw [run.remembers.config_eq found, (run.append further).remembers.config_eq found', package,
      List.reverse_append, shownAfter, shownAfter, later, known]
    rfl

end Registry

/-! ## A copy of a view that had been read -/

/-- The block of a package that sets a threshold. -/
def Json.threshold (value : Int) : Json := .object [("threshold", .int value)]

/-- What a host did before it changed the block of a package: the view of the package is read. -/
def Registry.earlyEvents : List ViewEvent :=
  [⟨0, .setConfig "threshold" (.int 5), .done (.ok ())⟩,
    ⟨0, .setConfig "pkg" (.threshold 9), .done (.ok ())⟩,
    ⟨0, .package "pkg", .done (.ok ())⟩,
    ⟨1, .config, .config [("pkg", .threshold 9), ("threshold", .int 9)]⟩]

/-- What it did then: it changed the block, copied the view, and read the copy. -/
def Registry.lateEvents : List ViewEvent :=
  [⟨0, .setConfig "pkg" (.threshold 1), .done (.ok ())⟩,
    ⟨1, .copy, .done (.ok ())⟩,
    ⟨2, .config, .config [("pkg", .threshold 9), ("threshold", .int 9)]⟩]

/-- What the host has, given the threshold in the block of the package and the views. -/
def Registry.withBlock (value : Int) (views : List View) : Registry where
  catalog := { config := [("pkg", .threshold value), ("threshold", .int 5)] }
  views := views

/-- The view of the package once it has been read. -/
def View.seen : View := ⟨some "pkg", some [("pkg", .threshold 9), ("threshold", .int 9)]⟩

/-- What happened before the block was changed. -/
theorem Registry.run_early : Run {} earlyEvents (withBlock 9 [{}, View.seen]) := by
  have first : ({} : Registry).ask 0 {} (.setConfig "threshold" (.int 5)) =
      (.done (.ok ()), { catalog := { config := [("threshold", .int 5)] } }) := rfl
  have second : Registry.ask { catalog := { config := [("threshold", .int 5)] } } 0 {}
      (.setConfig "pkg" (.threshold 9)) = (.done (.ok ()), withBlock 9 [{}]) := rfl
  have made : (withBlock 9 [{}]).ask 0 {} (.package "pkg") =
      (.done (.ok ()), withBlock 9 [{}, ⟨some "pkg", none⟩]) := rfl
  have read : (withBlock 9 [{}, ⟨some "pkg", none⟩]).ask 1 ⟨some "pkg", none⟩ .config =
      (.config [("pkg", .threshold 9), ("threshold", .int 9)], withBlock 9 [{}, View.seen]) := rfl
  exact (((Run.start.step rfl first).step rfl second).step rfl made).step rfl read

/-- What happened from then on. -/
theorem Registry.run_late : (withBlock 9 [{}, View.seen]).Run lateEvents
    (withBlock 1 [{}, View.seen, View.seen]) := by
  have changed : (withBlock 9 [{}, View.seen]).ask 0 {} (.setConfig "pkg" (.threshold 1)) =
      (.done (.ok ()), withBlock 1 [{}, View.seen]) := rfl
  have copied : (withBlock 1 [{}, View.seen]).ask 1 View.seen .copy =
      (.done (.ok ()), withBlock 1 [{}, View.seen, View.seen]) := rfl
  have read : (withBlock 1 [{}, View.seen, View.seen]).ask 2 View.seen .config =
      (.config [("pkg", .threshold 9), ("threshold", .int 9)],
        withBlock 1 [{}, View.seen, View.seen]) := rfl
  exact ((Run.start.step rfl changed).step rfl copied).step rfl read

/-- The copy shows the block as it was when the original was read, and the first view, which has not
been read, the block as it is. -/
theorem Registry.config_at_first_reading_of_copy :
    momentShown? (earlyEvents ++ lateEvents).reverse 2 = some (earlyEvents.take 3).reverse ∧
    Dictionary.find? (View.seen.config (withBlock 1 []).catalog).1 "threshold" = some (.int 9) ∧
    (({} : View).config (withBlock 1 []).catalog).1 =
      [("pkg", .threshold 1), ("threshold", .int 5)] := by
  obtain ⟨-, -, shows, keys⟩ := config_at_first_reading (run_early.append run_late)
  refine ⟨rfl, ?_, ((shows 0 {} rfl).2.1 rfl).1⟩
  exact (congrArg (Dictionary.find? · _) (shows 2 View.seen rfl).1).trans (keys _ _ _ _)

end RuleGraph
