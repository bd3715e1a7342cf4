import RuleGraph.Blob
import RuleGraph.Compile
import RuleGraph.Proofs.Graph.Cycles

/-! # Where graphs come from

Every graph is made by `Graph.ofSlots`: compiling a program ends with it, and so does restoring a
blob. The slots of a compiled graph depend on what they refer to, while a blob may say anything
about the dependencies of its slots.

* **`Graph.IsBuilt`** — a graph was made by `Graph.ofSlots`.
* **`Slot.IsConstructed`** — a slot has the dependencies that its constructor gives it.
* **`Graph.IsCompiled`** — a graph was made from such slots, and every statement belongs to a
  statement feature.
* **`isCompiled_of_compile?`** — compiled graphs.
* **`ofSlots_of_link`** — linked payloads.
-/

namespace RuleGraph

/-- A graph that `Graph.ofSlots` has made. -/
def Graph.IsBuilt (graph : Graph) : Prop :=
  ∃ slots, Graph.ofSlots slots = .ok graph

/-- Graphs that were made are linked. -/
theorem Graph.IsBuilt.linked {graph : Graph} (built : graph.IsBuilt) : graph.Linked := by
  obtain ⟨slots, made⟩ := built
  exact (Graph.linked_of_ofSlots made).2

/-- Graphs that were made are the same if they have the same slots. -/
theorem Graph.IsBuilt.ext {graph graph' : Graph} (built : graph.IsBuilt) (built' : graph'.IsBuilt)
    (same : graph'.slots = graph.slots) : graph' = graph := by
  obtain ⟨slots, made⟩ := built
  obtain ⟨slots', made'⟩ := built'
  obtain ⟨rfl, -⟩ := Graph.linked_of_ofSlots made
  obtain ⟨rfl, -⟩ := Graph.linked_of_ofSlots made'
  rw [same, made] at made'
  exact (Except.ok.inj made').symm

/-- Steps one after the other succeed if all of them do. -/
private theorem ok_of_bind {ε α β : Type} {first : Except ε α} {next : α → Except ε β} {b : β}
    (h : first >>= next = .ok b) : ∃ a, first = .ok a ∧ next a = .ok b := by
  cases first with
  | error error => cases h
  | ok a => exact ⟨a, rfl, h⟩

/-! ## Restored graphs -/

/-- A linked payload is a graph that was made of its slots. -/
theorem ofSlots_of_link {scope : Scope} {payload : Payload} {graph : Graph}
    (h : Blob.link scope payload = .ok graph) : Graph.ofSlots payload.slots = .ok graph := by
  unfold Blob.link at h
  dsimp only at h
  by_cases count : payload.count ≠ payload.slots.length
  · rw [if_pos count] at h
    cases h
  · rw [if_neg count] at h
    obtain ⟨_, -, h⟩ := ok_of_bind h
    split at h
    · cases h
    · rename_i made
      split at h
      · cases h
        exact made
      · cases h

/-! ## Compiled graphs -/

/-- A slot that one of the constructors makes, with the dependencies that go with it. -/
inductive Slot.IsConstructed : Slot → Prop where
  /-- An input. -/
  | input (name) : IsConstructed (.input name)
  /-- A feature. -/
  | feature (name body) : IsConstructed (.feature name body)
  /-- A statement. -/
  | statement (name feature condition call) :
    IsConstructed (.statement name feature condition call)
  /-- A statement feature. -/
  | group (name members) : IsConstructed (.group name members)

/-- Compilation steps end with a value of a kind, if they succeed. -/
def CompileM.Ensures {α : Type} (steps : CompileM α) (kind : α → Prop) : Prop :=
  ∀ state value state', steps state = .ok (value, state') → kind value

namespace CompileM.Ensures

variable {α β : Type} {kind : α → Prop} {kind' : β → Prop}

/-- A value of the kind. -/
theorem pure {a : α} (h : kind a) : Ensures (Pure.pure a) kind := by
  intro state value state' run
  cases run
  exact h

/-- A value that is found without a state. -/
theorem lift {found : Except CompileError α} (h : ∀ a, found = .ok a → kind a) :
    Ensures (liftM found) kind := by
  intro state value state' run
  obtain ⟨a, same, run⟩ := ok_of_bind run
  cases run
  exact h _ same

/-- Steps of which the last ones matter. -/
theorem bind {first : CompileM α} {next : α → CompileM β} (onFirst : Ensures first kind)
    (onNext : ∀ a, kind a → Ensures (next a) kind') : Ensures (first >>= next) kind' := by
  intro state value state' run
  obtain ⟨⟨a, between⟩, run, rest⟩ := ok_of_bind run
  exact onNext a (onFirst state a between run) between value state' rest

/-- Steps of which only the last ones matter. -/
theorem andThen {first : CompileM α} {next : α → CompileM β}
    (onNext : ∀ a, Ensures (next a) kind') : Ensures (first >>= next) kind' :=
  @bind _ _ (fun _ => True) _ _ _ (fun _ _ _ _ => trivial) fun a _ => onNext a

/-- Steps for each member of a list. -/
theorem foldlM {step : α → β → CompileM α} {bs : List β} {a : α} (start : kind a)
    (onStep : ∀ a, kind a → ∀ b, Ensures (step a b) kind) : Ensures (bs.foldlM step a) kind := by
  induction bs generalizing a with
  | nil => exact pure start
  | cons b rest ih =>
    rw [List.foldlM_cons]
    exact (onStep a start b).bind fun a' next => ih next

end CompileM.Ensures

/-- A lowered feature is an input or the value of an expression. -/
theorem eq_of_lowerFeature {scope : Scope} {name : String} {body : Expr} {slot : Slot}
    (h : lowerFeature scope name body = .ok slot) :
    slot = .input name ∨ ∃ value, slot = .feature name value := by
  have feature : ∀ {body : Expr},
      (do return .feature name (← lowerValue scope body) : Except CompileError Slot) = .ok slot →
        ∃ value, slot = .feature name value := by
    intro body h
    obtain ⟨value, -, h⟩ := ok_of_bind h
    cases h
    exact ⟨value, rfl⟩
  unfold lowerFeature at h
  split at h
  · split at h
    · split at h
      · cases h
        exact .inl rfl
      · cases h
    · exact .inr (feature h)
  · exact .inr (feature h)

/-- A statement is a call, and listed among the statements of a statement feature. -/
def Slot.IsGrouped (groups : Groups) (slot : Slot) : Prop :=
  ∀ feature condition call, slot.kind = .statement feature condition call →
    (∃ function args, call = .call function args) ∧ ∃ group ∈ groups, slot.name ∈ group.2

/-- A lowered feature is made by a constructor and is no statement. -/
theorem of_lowerFeature {scope : Scope} {name : String} {body : Expr} {slot : Slot}
    {groups : Groups} (h : lowerFeature scope name body = .ok slot) :
    slot.IsConstructed ∧ slot.IsGrouped groups := by
  rcases eq_of_lowerFeature h with rfl | ⟨value, rfl⟩
  · refine ⟨.input name, fun feature condition call kind => ?_⟩
    cases kind
  · refine ⟨.feature name value, fun feature condition call kind => ?_⟩
    cases kind

namespace Groups

variable {groups : Groups} {feature member name : String}

/-- A statement that is added is listed. -/
theorem exists_mem_add (groups : Groups) (feature member : String) :
    ∃ group ∈ groups.add feature member, member ∈ group.2 := by
  induction groups with
  | nil => exact ⟨(feature, [member]), List.mem_cons_self, List.mem_cons_self⟩
  | cons group rest ih =>
    obtain ⟨first, names⟩ := group
    rw [add]
    split
    · exact ⟨(first, names ++ [member]), List.mem_cons_self, by simp⟩
    · obtain ⟨group, listed, here⟩ := ih
      exact ⟨group, List.mem_cons_of_mem _ listed, here⟩

/-- Adding a statement leaves the others listed. -/
theorem exists_mem_add_of_exists_mem (h : ∃ group ∈ groups, name ∈ group.2) :
    ∃ group ∈ groups.add feature member, name ∈ group.2 := by
  obtain ⟨group, listed, here⟩ := h
  induction groups with
  | nil => cases listed
  | cons first rest ih =>
    obtain ⟨other, names⟩ := first
    rw [add]
    rcases List.mem_cons.1 listed with rfl | later
    · split
      · exact ⟨(other, names ++ [member]), List.mem_cons_self, List.mem_append_left _ here⟩
      · exact ⟨(other, names), List.mem_cons_self, here⟩
    · split
      · exact ⟨group, List.mem_cons_of_mem _ later, here⟩
      · obtain ⟨group, listed, here⟩ := ih later
        exact ⟨group, List.mem_cons_of_mem _ listed, here⟩

end Groups

/-- A lowered statement is made by a constructor, is a call and gets listed. -/
theorem of_lowerStatement {groups groups' : Groups} {scope : Scope}
    {condition : Option SlotExpr} {call : Expr} {slot : Slot}
    (h : groups.lowerStatement scope condition call = .ok (slot, groups')) :
    slot.IsConstructed ∧ slot.IsGrouped groups' ∧
      ∀ other : Slot, other.IsGrouped groups → other.IsGrouped groups' := by
  unfold Groups.lowerStatement at h
  split at h
  · obtain ⟨entry, -, h⟩ := ok_of_bind h
    split at h
    · obtain ⟨_, -, h⟩ := ok_of_bind h
      obtain ⟨args, -, h⟩ := ok_of_bind h
      cases h
      refine ⟨.statement _ _ _ _, ?_, ?_⟩
      · intro feature condition call kind
        cases kind
        exact ⟨⟨_, _, rfl⟩, Groups.exists_mem_add _ _ _⟩
      · intro other grouped feature condition call kind
        obtain ⟨isCall, listed⟩ := grouped feature condition call kind
        exact ⟨isCall, Groups.exists_mem_add_of_exists_mem listed⟩
    · cases h
  · cases h

namespace Lowered

/-- All slots lowered so far are made by constructors, and all statements are listed. -/
def IsSound (lowered : Lowered) : Prop :=
  ∀ slot ∈ lowered.slots, slot.IsConstructed ∧ slot.IsGrouped lowered.groups

/-- A further slot. -/
theorem IsSound.concat {lowered : Lowered} {slot : Slot} {groups : Groups}
    (sound : lowered.IsSound) (new : slot.IsConstructed ∧ slot.IsGrouped groups)
    (others : ∀ other : Slot, other.IsGrouped lowered.groups → other.IsGrouped groups) :
    IsSound ⟨lowered.slots ++ [slot], groups⟩ := by
  intro other member
  rcases List.mem_append.1 member with old | last
  · exact ⟨(sound other old).1, others other (sound other old).2⟩
  · exact List.mem_singleton.1 last ▸ new

/-- What every further slot keeps: that of a feature, and that of a statement under a lowered
condition if there is one. -/
structure Keeps (scope : Scope) (kind : Lowered → Prop) : Prop where
  /-- Nothing is lowered at first. -/
  start : kind {}
  /-- A feature is lowered. -/
  feature : ∀ {lowered name body slot}, kind lowered → lowerFeature scope name body = .ok slot →
    kind { lowered with slots := lowered.slots ++ [slot] }
  /-- A statement is lowered. -/
  statement : ∀ {lowered condition call slot groups}, kind lowered →
    (∀ body, condition = some body → ∃ item, lowerValue scope item = .ok body) →
    lowered.groups.lowerStatement scope condition call = .ok (slot, groups) →
    kind ⟨lowered.slots ++ [slot], groups⟩

namespace Keeps

variable {scope : Scope} {kind : Lowered → Prop} {limit : Nat} {lowered : Lowered}
  (keeps : Keeps scope kind)
include keeps

/-- Lowering a feature adds a slot. -/
theorem addFeature (here : kind lowered) (name : String) (body : Expr) :
    (lowered.addFeature scope limit name body).Ensures kind :=
  .andThen fun _ => .bind (.lift fun _ made => made) fun _ made =>
    .pure (keeps.feature here made)

/-- Lowering a statement adds a slot. -/
theorem addStatement (here : kind lowered) {condition : Option SlotExpr}
    (holds : ∀ body, condition = some body → ∃ item, lowerValue scope item = .ok body)
    (call : Expr) : (lowered.addStatement scope limit condition call).Ensures kind := by
  unfold Lowered.addStatement
  split
  · exact .andThen fun _ => .bind (.lift fun _ made => made) fun _ made =>
      .pure (keeps.statement here holds made)
  · intro state value state' run
    cases run

/-- Lowering a definition adds slots. -/
theorem addDefinition (here : kind lowered) (definition : Definition) :
    (lowered.addDefinition scope limit definition).Ensures kind := by
  unfold Lowered.addDefinition
  split
  · exact keeps.addFeature here _ _
  · refine .foldlM here fun lowered here call => keeps.addStatement here ?_ call
    intro body same
    cases same
  -- The condition is lowered once, for all statements behind it.
  · refine .andThen fun item => .bind (.lift fun _ made => made) fun condition made => ?_
    refine .foldlM here fun lowered here call => keeps.addStatement here ?_ call
    intro body same
    cases same
    exact ⟨item, made⟩

/-- Lowering what hooks have added adds slots. -/
theorem addPending (here : kind lowered) (rounds : Nat) :
    (lowered.addPending scope limit rounds).Ensures fun found =>
      ∀ lowered ∈ found, kind lowered := by
  induction rounds generalizing lowered with
  | zero =>
    refine .andThen fun state => .pure ?_
    split
    · simpa using here
    · simp
  | succ rounds ih =>
    refine .andThen fun state => ?_
    split
    · exact .pure (by simpa using here)
    · refine .andThen fun _ => ?_
      refine .bind (.foldlM here fun lowered here feature =>
        keeps.addFeature here feature.1 feature.2) fun lowered here => ?_
      exact ih here

/-- **What every further slot keeps holds of a lowered program.** -/
theorem of_run {rounds : Nat} {program : Program} {state state' : CompileState}
    (run : (do
      let lowered ← program.foldlM (Lowered.addDefinition scope limit) {}
      lowered.addPending scope limit rounds : CompileM (Option Lowered)) state =
        .ok (some lowered, state')) : kind lowered := by
  have ensures : CompileM.Ensures (do
      let lowered ← program.foldlM (Lowered.addDefinition scope limit) {}
      lowered.addPending scope limit rounds) _ :=
    .bind (.foldlM keeps.start fun _ here definition => keeps.addDefinition here definition)
      fun _ here => keeps.addPending here rounds
  exact ensures _ _ _ run lowered rfl

end Keeps

/-- Every further slot keeps what is lowered sound. -/
theorem keeps_isSound {scope : Scope} : Keeps scope IsSound := by
  refine ⟨fun slot none => ?_, fun sound made => ?_, fun sound _ made => ?_⟩
  · cases none
  · exact sound.concat (of_lowerFeature made) fun _ grouped => grouped
  · obtain ⟨constructed, grouped, others⟩ := of_lowerStatement made
    exact sound.concat ⟨constructed, grouped⟩ others

end Lowered

/-- What is so of the slots of a compiled program: constructors make them, and every statement is a
call that belongs to a statement feature. -/
def AreCompiled (slots : List Slot) : Prop :=
  (∀ slot ∈ slots, slot.IsConstructed) ∧
  ∀ slot ∈ slots, ∀ feature condition call, slot.kind = .statement feature condition call →
    (∃ function args, call = .call function args) ∧
    ∃ group ∈ slots, group.kind = .group ∧ slot.name ∈ group.deps

/-- The slots that a program is lowered to. -/
theorem areCompiled_of_lowerProgram? {scope : Scope} {limit rounds : Nat} {program : Program}
    {slots : List Slot} (h : lowerProgram? scope limit rounds program = .ok (some slots)) :
    AreCompiled slots := by
  unfold lowerProgram? at h
  dsimp only at h
  split at h
  · cases h
  · rename_i lowered? state run
    cases lowered? with
    | none => cases h
    | some lowered =>
      cases h
      have sound := (@Lowered.keeps_isSound scope).of_run run
      constructor
      · intro slot member
        rcases List.mem_append.1 member with lowered | group
        · exact (sound slot lowered).1
        · obtain ⟨⟨name, names⟩, -, rfl⟩ := List.mem_map.1 group
          exact .group name names
      · intro slot member feature condition call kind
        rcases List.mem_append.1 member with lowered | group
        · obtain ⟨isCall, ⟨name, names⟩, listed, here⟩ :=
            (sound slot lowered).2 feature condition call kind
          exact ⟨isCall, .group name names,
            List.mem_append_right _ (List.mem_map.2 ⟨_, listed, rfl⟩), rfl, here⟩
        · obtain ⟨⟨name, names⟩, -, rfl⟩ := List.mem_map.1 group
          cases kind

/-- Linking puts all slots in order and makes a graph of them. -/
theorem isBuilt_of_linkSlots {slots : List Slot} {graph : Graph}
    (h : linkSlots slots = .ok graph) :
    graph.IsBuilt ∧ ∀ slot, slot ∈ graph.slots ↔ slot ∈ slots := by
  unfold linkSlots at h
  obtain ⟨unordered, made, h⟩ := ok_of_bind h
  split at h
  · cases h
  -- The slots are linked twice, the second time in dependency order.
  · rename_i acyclic
    obtain ⟨same, linked⟩ := Graph.linked_of_ofSlots made
    refine ⟨⟨_, h⟩, fun slot => ?_⟩
    -- Without cycles the order has all slots.
    rw [(Graph.linked_of_ofSlots h).1, ← same]
    constructor
    · intro member
      obtain ⟨index, -, found⟩ := List.mem_filterMap.1 member
      exact List.mem_of_getElem? found
    · exact Graph.mem_orderedSlots linked acyclic

/-- A graph made from the slots of a compiled program. -/
structure Graph.IsCompiled (graph : Graph) : Prop where
  /-- It was made. -/
  built : graph.IsBuilt
  /-- Its slots are those of a compiled program. -/
  slots : AreCompiled graph.slots

/-- **A compiled graph is one that was made**, from the slots that its program is lowered to. -/
theorem isCompiled_of_compile? {scope : Scope} {limit rounds : Nat} {program : Program}
    {graph : Graph} (h : compile? scope limit rounds program = .ok (some graph)) :
    graph.IsCompiled := by
  obtain ⟨slots?, lowered, h⟩ := ok_of_bind h
  cases slots? with
  | none => cases h
  | some slots =>
    obtain ⟨graph', linked, h⟩ := ok_of_bind h
    cases h
    obtain ⟨built, same⟩ := isBuilt_of_linkSlots linked
    obtain ⟨constructed, grouped⟩ := areCompiled_of_lowerProgram? lowered
    refine ⟨built, fun slot member => constructed slot ((same slot).1 member), ?_⟩
    intro slot member feature condition call kind
    obtain ⟨isCall, group, listed, isGroup, here⟩ :=
      grouped slot ((same slot).1 member) feature condition call kind
    exact ⟨isCall, group, (same group).2 listed, isGroup, here⟩

end RuleGraph
