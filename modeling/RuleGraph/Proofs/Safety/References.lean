import RuleGraph.Proofs.Blob.Refusals
import RuleGraph.Proofs.Graph.Order
import RuleGraph.Proofs.Interleaving.Outcomes
import RuleGraph.Proofs.Routine.Relay

/-! # References

A graph is checked for the names that its slots list as dependencies, while the expressions in the
slots are evaluated by the names that are written there. Who makes a slot by hand, or writes a blob,
may have a slot read what it does not list.

* **`Slot.ListsReads`** — a slot lists what it reads.
* **`Graph.exists_ofSlots_iff`** — which slots are accepted.
* **`Execution.Reaches.missed_of_kept`** — a slot that comes to miss a feature, or depends on one
  that does, does so for a name that is written in some slot.
* **`Execution.unknown_only_unlisted`** — what is missing then is listed nowhere.
-/

namespace RuleGraph

open Relation

/-- A slot lists what it reads. -/
def Slot.ListsReads (slot : Slot) : Prop :=
  ∀ name, slot.Reads name → name ∈ slot.deps

namespace Graph

/-- An expression of the slot of one name reads another name. -/
def RefersTo (slots : List Slot) (name other : String) : Prop :=
  ∃ slot ∈ slots, slot.name = name ∧ slot.Reads other

variable {slots slots' : List Slot} {graph : Graph}

/-- **Slots are accepted if and only if their names are distinct and what they list are slots.** -/
theorem exists_ofSlots_iff : (∃ graph, ofSlots slots = .ok graph) ↔
    (slots.map Slot.name).Nodup ∧ NamesSlots slots := by
  constructor
  · rintro ⟨graph, made⟩
    obtain ⟨rfl, linked⟩ := linked_of_ofSlots made
    exact ⟨linked.nodup, linked.namesSlots⟩
  · rintro ⟨nodup, names⟩
    exact exists_ofSlots nodup names

/-- So their expressions make no difference. -/
theorem exists_ofSlots_congr (made : ofSlots slots = .ok graph)
    (names : slots'.map Slot.name = slots.map Slot.name)
    (deps : slots'.map Slot.deps = slots.map Slot.deps) :
    ∃ graph', ofSlots slots' = .ok graph' := by
  obtain ⟨nodup, listed⟩ := exists_ofSlots_iff.1 ⟨graph, made⟩
  refine exists_ofSlots_iff.2 ⟨names ▸ nodup, fun slot member dep inside => ?_⟩
  have same : slot.deps ∈ slots.map Slot.deps := deps ▸ List.mem_map_of_mem member
  obtain ⟨other, member', same⟩ := List.mem_map.1 same
  exact names ▸ listed other member' dep (same ▸ inside)

/-- A name that no slot has is listed by none. -/
theorem not_mem_deps_of_indexOf? (linked : graph.Linked) {slot : Slot} {name : String}
    (member : slot ∈ graph.slots) (none : graph.indexOf? name = none) : name ∉ slot.deps := by
  intro inside
  obtain ⟨place, found⟩ := List.mem_iff_getElem?.1 member
  obtain ⟨target, there, -⟩ := exists_indexOf?_of_mem_deps linked found inside
  rw [none] at there
  cases there

end Graph

/-- A graph that is decoded has no cycle. -/
theorem Blob.isAcyclic_of_decode {scope : Scope} {bytes : Bytes} {graph : Graph}
    (decoded : decode scope bytes = .ok graph) : graph.isAcyclic = true := by
  obtain ⟨data, -, rest⟩ := bind_eq_ok_iff.1 decoded
  split at rest
  · cases rest
  · exact ((exists_link_iff (ofSlots_of_link rest)).1 ⟨graph, rest⟩).2

namespace Execution

variable {execution : Execution} {trace : Trace} {session : Session} {index : Nat} {name : String}

/-- **A slot that comes to miss a feature does so for a name that is written in some slot.** -/
theorem Reaches.missed_of_kept (started : execution.Started)
    (reaches : execution.Reaches trace session)
    (kept : session.state.outcome? index = some (.error (.unknownFeature name))) :
    ∃ place, execution.setting.Misses place name := by
  have only := @Reaches.forall_kept execution trace session index _
    (fun outcome => ∀ name, outcome = .error (.unknownFeature name) →
      ∃ place, execution.setting.Misses place name)
    started (fun _ _ same => by cases same) (fun _ _ same => by cases same) ?_ reaches kept
  · exact only name rfl
  · rintro reply place replies deeds outcome told name rfl
    rcases Setting.endsIn_slotRoutine_relays _ _ told with own | ⟨target, told⟩
    · cases own with
      | unknownFeature missed => exact ⟨place, missed⟩
    · exact replies target _ told name rfl

/-- **Only what is not listed can be missing.** Slots are accepted, by themselves or in a blob, for
their names and for what they list; whatever their expressions read makes no difference. In no
execution does a slot come to miss a feature, unless some slot reads that name without listing it
and no slot has it. If all slots list what they read, as they do when they are constructed, every
name that is read is a slot; and in what a blob is decoded to, no slot comes back to itself along
what it lists, nor then along what it reads. -/
theorem unknown_only_unlisted {executable : Executable} {slots : List Slot}
    {options : ExecuteOptions} {history : History}
    (made : Graph.ofSlots slots = .ok executable.graph)
    (begun : executable.execute options history = .ok execution)
    (reaches : execution.Reaches trace session) :
    ((slots.map Slot.name).Nodup ∧ Graph.NamesSlots slots) ∧
    (∀ slots', slots'.map Slot.name = slots.map Slot.name →
      slots'.map Slot.deps = slots.map Slot.deps → ∃ graph', Graph.ofSlots slots' = .ok graph') ∧
    (∀ index name, session.state.outcome? index = some (.error (.unknownFeature name)) →
      name ∉ slots.map Slot.name ∧ ∃ slot ∈ slots, slot.Reads name ∧ name ∉ slot.deps) ∧
    ((∀ slot ∈ slots, slot.ListsReads) →
      ∀ slot ∈ slots, ∀ name, slot.Reads name → name ∈ slots.map Slot.name) ∧
    ∀ scope bytes, Blob.decode scope bytes = .ok executable.graph →
      (∀ name, ¬TransGen (Graph.DependsOn slots) name name) ∧
      ((∀ slot ∈ slots, slot.ListsReads) → ∀ name, ¬TransGen (Graph.RefersTo slots) name name) := by
  have accepted := Graph.exists_ofSlots_iff.1 ⟨_, made⟩
  obtain ⟨same, linked⟩ := Graph.linked_of_ofSlots made
  have started := started_of_execute ⟨_, made⟩ begun
  have isGraph : execution.setting.graph = executable.graph := by
    rw [Setting.graph, (eq_of_execute begun).1]
  refine ⟨accepted, fun slots' => Graph.exists_ofSlots_congr made, fun index name kept => ?_,
    fun lists slot member name read => accepted.2 slot member name (lists slot member name read),
    fun scope bytes decoded => ?_⟩
  · obtain ⟨place, none, slot, found, mentioned⟩ := reaches.missed_of_kept started kept
    rw [isGraph] at none found
    have member := List.mem_of_getElem? found
    have unlisted := Graph.not_mem_deps_of_indexOf? linked member none
    refine ⟨fun listed => ?_, slot, same ▸ member, mentioned.resolve_left unlisted, unlisted⟩
    obtain ⟨other, there, rfl⟩ := List.mem_map.1 listed
    have absent := List.findIdx?_eq_none_iff.1 none other (same ▸ there)
    simp at absent
  · have acyclic := (Graph.isAcyclic_iff linked).1 (Blob.isAcyclic_of_decode decoded)
    rw [same] at acyclic
    refine ⟨acyclic, fun lists name around => acyclic name (around.lift id ?_)⟩
    rintro name other ⟨slot, member, named, read⟩
    exact ⟨slot, member, named, lists slot member other read⟩

end Execution

/-! ## Slots that list nothing -/

/-- An acyclic graph has a blob, unless it is too long, and the blob is accepted wherever the calls
of the graph can be called. -/
theorem Blob.exists_decode {scope : Scope} {graph : Graph}
    (made : Graph.ofSlots graph.slots = .ok graph) (acyclic : graph.isAcyclic = true)
    (callable : ∀ slot ∈ graph.slots, slot.IsCallable scope)
    (fits : (payloadOf graph none).write.length < 2 ^ 32) :
    ∃ bytes, decode scope bytes = .ok graph := by
  obtain ⟨bytes, encoded⟩ : ∃ bytes, encode graph none = .ok bytes := ⟨_, if_pos fits⟩
  exact ⟨bytes, (decode_eq_link encoded scope).trans (link_payloadOf made acyclic callable)⟩

/-- A slot that reads a name that no slot has. -/
def Graph.stray : Graph :=
  { slots := [⟨"X", .feature (.feature "Missing"), []⟩], edges := [[]], cycles := [none] }

/-- Slots that read each other. -/
def Graph.entwined : Graph where
  slots := [⟨"X", .feature (.feature "Y"), []⟩, ⟨"Y", .feature (.feature "X"), []⟩]
  edges := [[], []]
  cycles := [none, none]

namespace Execution

/-- An execution of the first graph. -/
def stray : Execution where
  setting := { executable := .ofGraph .stray { catalog := {} } {} }
  state := .initial 1

/-- **What is read is not checked.** A slot that reads a name that no slot has is accepted, by
itself and in a blob, and fails when it is fetched. Slots in a blob that read each other are
accepted. -/
theorem unlisted_reads_accepted :
    Graph.ofSlots Graph.stray.slots = .ok .stray ∧
    (∃ bytes, Blob.decode { catalog := {} } bytes = .ok .stray) ∧
    (∃ slot ∈ Graph.stray.slots, slot.Reads "Missing") ∧
    "Missing" ∉ Graph.stray.slots.map Slot.name ∧
    (Executable.ofGraph .stray { catalog := {} } {}).execute {} {} = .ok stray ∧
    (stray.fetch 1 "X").1 = some (.error (.unknownFeature "Missing")) ∧
    (∃ bytes, Blob.decode { catalog := {} } bytes = .ok .entwined) ∧
    TransGen (Graph.RefersTo Graph.entwined.slots) "X" "X" := by
  have callable : ∀ graph, graph = Graph.stray ∨ graph = Graph.entwined →
      ∀ slot ∈ graph.slots, slot.IsCallable { catalog := {} } := by
    rintro graph which slot member
    apply Blob.checkSlot_eq_ok_iff.1
    revert slot
    rcases which with rfl | rfl <;> decide +kernel
  have first : Graph.RefersTo Graph.entwined.slots "X" "Y" :=
    ⟨_, List.mem_cons_self, rfl, _, List.mem_cons_self, List.mem_cons_self⟩
  have second : Graph.RefersTo Graph.entwined.slots "Y" "X" :=
    ⟨_, List.mem_cons_of_mem _ List.mem_cons_self, rfl, _, List.mem_cons_self, List.mem_cons_self⟩
  refine ⟨by decide +kernel, ?_, ⟨_, List.mem_cons_self, _, List.mem_cons_self,
    List.mem_cons_self⟩, by decide, rfl, by decide +kernel, ?_, .head first (.single second)⟩
  · exact Blob.exists_decode (by decide +kernel) (by decide +kernel) (callable _ (.inl rfl))
      (by decide +kernel)
  · exact Blob.exists_decode (by decide +kernel) (by decide +kernel) (callable _ (.inr rfl))
      (by decide +kernel)

/-- When that slot is fetched it misses what it reads, and that is listed nowhere. -/
theorem unknown_only_unlisted_of_stray :
    "Missing" ∉ Graph.stray.slots.map Slot.name ∧
      ∃ slot ∈ Graph.stray.slots, slot.Reads "Missing" ∧ "Missing" ∉ slot.deps := by
  have made : Graph.ofSlots Graph.stray.slots = .ok .stray := by decide +kernel
  have begun : (Executable.ofGraph .stray { catalog := {} } {}).execute {} {} = .ok stray := rfl
  have linked := (started_of_execute ⟨_, made⟩ begun).linked
  obtain ⟨trace, threads, reaches, -⟩ := reaches_of_runSide linked .start 1 1 ["X"]
  obtain ⟨-, -, missing, -⟩ := unknown_only_unlisted made begun reaches
  have kept : (stray.fetchEach 1 ["X"]).2.state.outcome? 0 =
      some (.error (.unknownFeature "Missing")) := by decide +kernel
  exact missing 0 "Missing" kept

end Execution

end RuleGraph
