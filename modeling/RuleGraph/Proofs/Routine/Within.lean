import RuleGraph.Proofs.Compile.Definitions
import RuleGraph.Proofs.Routine.Bound

/-! # What routines keep to

Bounds on all that a routine can come to, whatever it learns on its way: the slots that it fetches
and what it does. If no function fetches a slot, evaluating an expression fetches the slots that it
names and does nothing but what the functions do that it calls, and none of these is a statement.

* **`Routine.KeepsTo`** — a routine fetches slots of a region only, and does only what is allowed.
* **`Entry.Performs`** — a function may have an effect.
* **`Setting.IsValueDeed`** — something that functions do which compute values.
* **`Setting.keepsTo_slotRoutine`** — what features and inputs keep to.
* **`Setting.leads_of_mayFetch_of_silent`** — slots fetch nothing but their dependencies.
-/

namespace RuleGraph

/-! ## Regions -/

namespace Routine

/-- A routine fetches slots of a region only, and does only what is allowed. -/
inductive KeepsTo (region : Nat → Prop) (allowed : Deed → Prop) : Routine → Prop where
  /-- It ends. -/
  | done {outcome} : KeepsTo region allowed (.done outcome)
  /-- The effect is allowed. -/
  | perform {effect next} (may : allowed (.perform effect)) (rest : KeepsTo region allowed next) :
    KeepsTo region allowed (.perform effect next)
  /-- The invocation is allowed. -/
  | invoke {function args next} (may : allowed (.invoke function args))
    (rest : ∀ ordinal, KeepsTo region allowed (next ordinal)) :
    KeepsTo region allowed (.invoke function args next)
  /-- A pause is always allowed. -/
  | pause {next} (rest : KeepsTo region allowed next) : KeepsTo region allowed (.pause next)
  /-- So is a sleep. -/
  | sleep {milliseconds next} (rest : KeepsTo region allowed next) :
    KeepsTo region allowed (.sleep milliseconds next)
  /-- The slot is one of the region. -/
  | fetch {index next} (inside : region index)
    (rest : ∀ outcome, KeepsTo region allowed (next outcome)) :
    KeepsTo region allowed (.fetch index next)
  /-- So does what is run for some time. -/
  | within {milliseconds child next} (first : KeepsTo region allowed child)
    (rest : ∀ outcome, KeepsTo region allowed (next outcome)) :
    KeepsTo region allowed (.within milliseconds child next)
  /-- All routines side by side do so. -/
  | join {breadth children next} (each : ∀ child ∈ children, KeepsTo region allowed child)
    (rest : ∀ outcomes, KeepsTo region allowed (next outcomes)) :
    KeepsTo region allowed (.join breadth children next)

namespace KeepsTo

variable {region : Nat → Prop} {allowed : Deed → Prop} {children : List Routine}

/-- Effects in order keep to what is allowed if all of them are. -/
theorem performAll {effects : List Effect} {next : Routine}
    (may : ∀ effect ∈ effects, allowed (.perform effect)) (rest : next.KeepsTo region allowed) :
    (Routine.performAll effects next).KeepsTo region allowed := by
  induction effects with
  | nil => exact rest
  | cons effect others ih =>
    rw [List.forall_mem_cons] at may
    exact .perform may.1 (ih may.2)

/-- Going on with values only, too. -/
theorem allValues {next : List Value → Routine}
    (each : ∀ child ∈ children, child.KeepsTo region allowed)
    (rest : ∀ values, (next values).KeepsTo region allowed) :
    (Routine.allValues children next).KeepsTo region allowed := by
  refine .join each fun outcomes => ?_
  split
  · exact rest _
  · exact .done

end KeepsTo

end Routine

/-! ## Functions -/

/-- The steps of a function may have an effect. -/
inductive Action.Performs {α : Type} : Action α → Effect → Prop where
  /-- After a pause. -/
  | pause {next effect} : Performs next effect → Performs (.pause next) effect
  /-- After a sleep. -/
  | sleep {milliseconds next effect} :
    Performs next effect → Performs (.sleep milliseconds next) effect
  /-- After fetching slots. -/
  | fetch {names next outcomes effect} :
    Performs (next outcomes) effect → Performs (.fetch names next) effect
  /-- After fetching a slot for some time. -/
  | fetchWithin {milliseconds name next outcome effect} :
    Performs (next outcome) effect → Performs (.fetchWithin milliseconds name next) effect
  /-- At once. -/
  | here {effect next} : Performs (.perform effect next) effect
  /-- After another effect. -/
  | perform {effect next other} : Performs next other → Performs (.perform effect next) other

/-- A function may have an effect. -/
def Entry.Performs (entry : Entry) (effect : Effect) : Prop :=
  match entry.kind with
  | .sync body => ∃ invocation args, effect ∈ (body invocation args).1
  | .async body => ∃ invocation args, (body invocation args).Performs effect
  | .statement _ body => ∃ invocation args, (body invocation args).Performs effect
  | .custom _ | .transform _ => False

/-- No function that is bound fetches a slot. -/
def Executable.IsSilent (executable : Executable) : Prop :=
  ∀ name entry, executable.function? name = some entry → ∀ feature, ¬entry.Fetches feature

namespace Setting

variable {setting : Setting} {region : Nat → Prop} {allowed : Deed → Prop} {index target : Nat}

/-- Something that functions do which compute values: they are invoked, and may have effects of
their own. -/
inductive IsValueDeed (setting : Setting) : Deed → Prop where
  /-- One of them is invoked. -/
  | invoke {name entry args} (bound : setting.executable.function? name = some entry)
    (value : entry.isStatement = false) : IsValueDeed setting (.invoke entry.key args)
  /-- One of them has an effect. -/
  | perform {name entry effect} (bound : setting.executable.function? name = some entry)
    (value : entry.isStatement = false) (performs : entry.Performs effect) :
    IsValueDeed setting (.perform effect)

/-- Fetching by name keeps to a region that the slot of that name is in. -/
theorem keepsTo_fetchNamed {name : String}
    (inside : ∀ target, setting.graph.indexOf? name = some target → region target) :
    (setting.fetchNamed name).KeepsTo region allowed := by
  unfold fetchNamed
  split
  · rename_i target found
    exact .fetch (inside target found) fun _ => .done
  · exact .done

/-- Fetching ahead keeps to a region that the named slots are in. -/
theorem keepsTo_prefetch {names : List String} {next : Routine}
    (inside : ∀ name ∈ names, ∀ target, setting.graph.indexOf? name = some target →
      region target) (rest : next.KeepsTo region allowed) :
    (setting.prefetch names next).KeepsTo region allowed := by
  refine .allValues (fun child member => ?_) fun _ => rest
  obtain ⟨name, listed, rfl⟩ := List.mem_map.1 member
  exact setting.keepsTo_fetchNamed (inside name listed)

/-- The steps of a function that fetches nothing keep to its effects. -/
theorem keepsTo_actionRoutine {α : Type} {next : Except FunctionError α → Routine}
    {action : Action α} (silent : ∀ feature, ¬action.Fetches feature)
    (may : ∀ effect, action.Performs effect → allowed (.perform effect))
    (ended : ∀ result, (next result).KeepsTo region allowed) :
    (setting.actionRoutine next action).KeepsTo region allowed := by
  induction action with
  | finish result => exact ended result
  | pause rest ih =>
    exact .pause (ih (fun feature fetched => silent feature (.pause fetched))
      fun effect performs => may effect (.pause performs))
  | sleep milliseconds rest ih =>
    exact .sleep (ih (fun feature fetched => silent feature (.sleep fetched))
      fun effect performs => may effect (.sleep performs))
  | perform effect rest ih =>
    exact .perform (may effect .here) (ih (fun feature fetched => silent feature (.perform fetched))
      fun other performs => may other (.perform performs))
  | fetch names rest ih =>
    -- There is no name to be fetched.
    refine .join (fun child member => ?_) fun outcomes =>
      ih outcomes (fun feature fetched => silent feature (.fetch fetched))
        fun effect performs => may effect (.fetch performs)
    obtain ⟨name, listed, -⟩ := List.mem_map.1 member
    exact absurd (.here listed) (silent name)
  | fetchWithin milliseconds name rest => exact absurd .limited (silent name)

/-- A call does what functions do that compute values. -/
theorem keepsTo_callRoutine (silent : setting.executable.IsSilent) {name : String}
    {args : List Value} :
    (setting.callRoutine name args).KeepsTo region setting.IsValueDeed := by
  unfold callRoutine
  split
  · exact .done
  · rename_i entry bound
    split
    · exact .done
    · split
      · exact .done
      · unfold invokeValue
        split
        · rename_i args' _ body kind
          have value : entry.isStatement = false := by rw [Entry.isStatement, kind]
          refine .invoke (.invoke bound value) fun ordinal => .performAll (fun effect listed => ?_)
            .done
          refine .perform bound value ?_
          rw [Entry.Performs, kind]
          exact ⟨_, _, listed⟩
        · rename_i args' _ body kind
          have value : entry.isStatement = false := by rw [Entry.isStatement, kind]
          refine .invoke (.invoke bound value) fun ordinal =>
            setting.keepsTo_actionRoutine (fun feature fetched => ?_) (fun effect performs => ?_)
              fun _ => .done
          · refine silent name entry bound feature ?_
            rw [Entry.Fetches, kind]
            exact ⟨_, _, fetched⟩
          · refine .perform bound value ?_
            rw [Entry.Performs, kind]
            exact ⟨_, _, performs⟩
        -- Functions of any other kind are not called here.
        all_goals exact .done

/-- Several expressions keep to what each of them does. -/
theorem keepsTo_exprRoutines {bodies : List SlotExpr}
    (each : ∀ body ∈ bodies, (setting.exprRoutine body).KeepsTo region allowed) :
    ∀ child ∈ setting.exprRoutines bodies, child.KeepsTo region allowed := by
  rw [exprRoutines_eq_map]
  intro child member
  obtain ⟨body, listed, rfl⟩ := List.mem_map.1 member
  exact each body listed

/-- **Evaluating an expression fetches the slots that it names**, and does what functions do that
compute values. -/
theorem keepsTo_exprRoutine (silent : setting.executable.IsSilent) {body : SlotExpr}
    (inside : ∀ name ∈ body.features, ∀ target, setting.graph.indexOf? name = some target →
      region target) :
    (setting.exprRoutine body).KeepsTo region setting.IsValueDeed := by
  induction body with
  | const value =>
    rw [exprRoutine]
    exact .done
  | feature name =>
    rw [exprRoutine]
    exact setting.keepsTo_fetchNamed (inside name List.mem_cons_self)
  | list items ih =>
    rw [exprRoutine]
    refine .allValues (keepsTo_exprRoutines fun item listed => ih item listed ?_) fun _ => .done
    exact fun name named =>
      inside name (SlotExpr.mem_featuresOfAll.2 ⟨item, listed, named⟩)
  | call function args ih =>
    rw [exprRoutine]
    refine .allValues (keepsTo_exprRoutines fun arg listed => ih arg listed ?_)
      fun _ => keepsTo_callRoutine silent
    exact fun name named => inside name (SlotExpr.mem_featuresOfAll.2 ⟨arg, listed, named⟩)

/-! ## Slots -/

/-- An input or a feature fetches its dependencies, and does what functions do that compute
values. -/
theorem keepsTo_slotRoutine (silent : setting.executable.IsSilent) {slot : Slot}
    (found : setting.graph.slots[index]? = some slot) (constructed : slot.IsConstructed)
    (kinds : slot.kind = .input ∨ ∃ body, slot.kind = .feature body)
    (inside : ∀ name ∈ slot.deps, ∀ target, setting.graph.indexOf? name = some target →
      region target) :
    (setting.slotRoutine index).KeepsTo region setting.IsValueDeed := by
  rcases kinds with kind | ⟨body, kind⟩
  · simp only [slotRoutine, found, kind]
    exact .done
  · simp only [slotRoutine, found, kind]
    refine setting.keepsTo_prefetch inside (keepsTo_exprRoutine silent fun name named => ?_)
    have own : body ∈ slot.expressions := by simp [Slot.expressions, kind]
    exact inside name (constructed.mem_deps_of_mem_features own named)

/-- With functions that fetch nothing, calls fetch nothing. -/
theorem not_callsFetch (silent : setting.executable.IsSilent) {calls : List (String × Nat)} :
    ¬setting.CallsFetch calls index := by
  rintro ⟨call, -, entry, bound, feature, fetched, -⟩
  exact silent call.1 entry bound feature fetched

/-- What a statement fetches, its condition or its call names, or a function that it calls
fetches. -/
theorem mayFetch_statement {slot : Slot} {feature : String} {condition : Option SlotExpr}
    {call : SlotExpr} (found : setting.graph.slots[index]? = some slot)
    (kind : slot.kind = .statement feature condition call) (h : setting.MayFetch index target) :
    (∃ body ∈ slot.expressions, ∃ name ∈ body.features,
      setting.graph.indexOf? name = some target) ∨
      ∃ calls, setting.CallsFetch calls target := by
  have ofCall : (setting.statementCall call).Fetches target →
      (∃ body ∈ slot.expressions, ∃ name ∈ body.features,
        setting.graph.indexOf? name = some target) ∨
        ∃ calls, setting.CallsFetch calls target := fun fetched =>
    (fetches_of_statementCall fetched).imp
      (fun named => ⟨call, by simp [Slot.expressions, kind], named⟩) fun called => ⟨_, called⟩
  simp only [MayFetch, slotRoutine, found, kind, statementRoutine] at h
  split at h
  · cases h
  · cases condition with
    | none => exact ofCall h
    | some condition =>
      have own : condition ∈ slot.expressions := by simp [Slot.expressions, kind]
      rcases fetches_of_prefetch h with ⟨name, listed, place⟩ | later
      · exact .inl ⟨condition, own, name, SlotExpr.mem_references.1 listed, place⟩
      · rcases later.of_value with inner | ⟨value, later⟩
        · exact (fetches_of_exprRoutine inner).imp (fun named => ⟨condition, own, named⟩)
            fun called => ⟨_, called.callsFetch⟩
        · split at later
          · exact ofCall later
          · cases later

/-- **With functions that fetch nothing, slots fetch nothing but their dependencies.** -/
theorem leads_of_mayFetch_of_silent (linked : setting.graph.Linked)
    (silent : setting.executable.IsSilent)
    (constructed : ∀ slot ∈ setting.graph.slots, slot.IsConstructed)
    (fetched : setting.MayFetch index target) : Leads setting.graph.edges index target := by
  cases found : setting.graph.slots[index]? with
  | none =>
    rw [MayFetch, slotRoutine, found] at fetched
    cases fetched
  | some slot =>
  have constructed := constructed slot (List.mem_of_getElem? found)
  have ofName : ∀ name ∈ slot.deps, setting.graph.indexOf? name = some target →
      Leads setting.graph.edges index target := fun name listed place =>
    (Graph.mem_dependencies linked).2 ⟨slot, found, name, listed, place⟩
  cases kind : slot.kind with
  | input => exact absurd fetched (not_mayFetch_input found kind)
  | feature body =>
    rcases mayFetch_feature found kind fetched with ⟨name, listed, place⟩ | called
    · refine ofName name ?_ place
      have own : body ∈ slot.expressions := by simp [Slot.expressions, kind]
      rcases List.mem_append.1 listed with dep | read
      · exact dep
      · exact constructed.mem_deps_of_mem_features own read
    · exact absurd called.callsFetch (not_callsFetch silent)
  | statement feature condition call =>
    rcases mayFetch_statement found kind fetched with
      ⟨body, inside, name, named, place⟩ | ⟨calls, called⟩
    · exact ofName name (constructed.mem_deps_of_mem_features inside named) place
    · exact absurd called (not_callsFetch silent)
  | group =>
    simp only [MayFetch, slotRoutine, found, kind] at fetched
    rcases Routine.fetches_all.1 fetched with ⟨child, member, inner⟩ | ⟨_, later⟩
    · obtain ⟨dep, listed, rfl⟩ := List.mem_map.1 member
      cases inner with
      | here => exact listed
      | fetch later => cases later
    · cases later

end Setting

end RuleGraph
