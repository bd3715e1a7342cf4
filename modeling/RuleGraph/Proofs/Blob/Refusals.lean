import RuleGraph.Proofs.Blob.RoundTrip

/-! # Blobs that are refused for a cycle

A blob with a sound header and a payload that can be read is refused for a cycle if and only if
nothing else is wrong with its graph and the graph has one.

* **`Blob.exists_refusal_of_checkSlot`** — a slot is refused for one of its calls.
* **`Blob.link_cases`** — what is wrong with a graph besides cycles is told first.
* **`Blob.exists_link_iff`** — which graphs are accepted.
* **`Blob.link_eq_error_iff`** — which graphs are refused for a cycle.
* **`Blob.decode_eq_link_of_read`** — a blob is decoded by linking its payload.
-/

namespace RuleGraph.Blob

variable {scope : Scope} {slot : Slot} {payload : Payload} {graph : Graph} {error : BlobError}

/-- A check of all members of a list fails at one of them. -/
theorem exists_mem_of_forM_eq_error {ε α : Type} {check : α → Except ε Unit} {items : List α}
    {error : ε} (failed : items.forM check = .error error) :
    ∃ item ∈ items, check item = .error error := by
  induction items with
  | nil => cases failed
  | cons first rest ih =>
    rw [show (first :: rest).forM check = (check first >>= fun _ => rest.forM check) from rfl]
      at failed
    cases here : check first with
    | error found =>
      rw [here] at failed
      cases failed
      exact ⟨first, List.mem_cons_self, here⟩
    | ok =>
      rw [here] at failed
      obtain ⟨item, member, there⟩ := ih failed
      exact ⟨item, List.mem_cons_of_mem _ member, there⟩

/-- A call is refused by name. -/
theorem exists_refusal_of_checkCall {name : String} {asStatement : Bool} {call : String × Nat}
    (failed : checkCall scope name asStatement call = .error error) :
    ∃ reason, error = refusal name call.1 reason := by
  unfold checkCall at failed
  split at failed
  · cases failed
    exact ⟨_, rfl⟩
  · split at failed
    · cases failed
      exact ⟨_, rfl⟩
    · split at failed
      · cases failed
        exact ⟨_, rfl⟩
      · split at failed
        · cases failed
          exact ⟨_, rfl⟩
        · cases failed

/-- A slot is refused for one of its calls. -/
theorem exists_refusal_of_checkSlot (failed : checkSlot scope slot = .error error) :
    ∃ function reason, error = refusal slot.name function reason := by
  unfold checkSlot at failed
  dsimp only at failed
  cases values : (callsOf slot).1.forM (checkCall scope slot.name false) with
  | error found =>
    rw [values] at failed
    cases failed
    obtain ⟨call, -, refused⟩ := exists_mem_of_forM_eq_error values
    exact ⟨call.1, exists_refusal_of_checkCall refused⟩
  | ok =>
    rw [values] at failed
    obtain ⟨call, -, refused⟩ := exists_mem_of_forM_eq_error failed
    exact ⟨call.1, exists_refusal_of_checkCall refused⟩

/-- Texts that begin differently are different. -/
theorem ne_of_head?_ne {first second : String} (apart : first.toList.head? ≠ second.toList.head?) :
    first ≠ second :=
  fun same => apart (same ▸ rfl)

/-- The reason to refuse a graph for a cycle is given for nothing else. -/
theorem refusal_ne_cycle {name function reason : String} :
    refusal name function reason ≠ .invalid "graph contains a dependency cycle" := by
  intro same
  exact ne_of_head?_ne (by simp [String.toList_append]) (BlobError.invalid.inj same)

/-- A payload whose slots make a graph is refused for something else, or nothing else is wrong with
it and it is linked if the graph is acyclic. -/
theorem link_cases (made : Graph.ofSlots payload.slots = .ok graph) :
    (¬(payload.count = payload.slots.length ∧ ∀ slot ∈ payload.slots, slot.IsCallable scope) ∧
      ∃ error, link scope payload = .error error ∧
        error ≠ .invalid "graph contains a dependency cycle") ∨
    (payload.count = payload.slots.length ∧ ∀ slot ∈ payload.slots, slot.IsCallable scope) ∧
      link scope payload = if graph.isAcyclic then .ok graph
        else .error (.invalid "graph contains a dependency cycle") := by
  unfold link
  dsimp only
  by_cases counted : payload.count = payload.slots.length
  · rw [if_neg (not_not.2 counted)]
    cases checked : payload.slots.forM (checkSlot scope) with
    | error error =>
      obtain ⟨slot, member, failed⟩ := exists_mem_of_forM_eq_error checked
      obtain ⟨function, reason, rfl⟩ := exists_refusal_of_checkSlot failed
      refine .inl ⟨fun ⟨_, callable⟩ => ?_, _, rfl, refusal_ne_cycle⟩
      rw [checkSlot_eq_ok_iff.2 (callable slot member)] at failed
      cases failed
    | ok =>
      have callable : ∀ slot ∈ payload.slots, slot.IsCallable scope := fun slot member =>
        checkSlot_eq_ok_iff.1 (forM_eq_ok_iff.1 checked slot member)
      refine .inr ⟨⟨counted, callable⟩, ?_⟩
      simp only [bind, Except.bind, pure, Except.pure, made]
      rfl
  · rw [if_pos counted]
    refine .inl ⟨fun ⟨same, _⟩ => counted same, _, rfl, fun same => ?_⟩
    exact ne_of_head?_ne (by simp [String.toList_append]) (BlobError.invalid.inj same)

/-- A payload whose slots make a graph is linked if the slots are as many as it says, all of them
are callable, and the graph is acyclic. -/
theorem exists_link_iff (made : Graph.ofSlots payload.slots = .ok graph) :
    (∃ linked, link scope payload = .ok linked) ↔
      (payload.count = payload.slots.length ∧ ∀ slot ∈ payload.slots, slot.IsCallable scope) ∧
        graph.isAcyclic = true := by
  rcases @link_cases scope payload graph made with ⟨wrong, error, refused, -⟩ | ⟨right, linked⟩
  · simp [refused, wrong]
  · rw [linked, and_iff_right right]
    cases graph.isAcyclic <;> simp

/-- **A payload whose slots make a graph is refused for a cycle** if the slots are as many as it
says and all of them are callable, but the graph has one, and in no other case. -/
theorem link_eq_error_iff (made : Graph.ofSlots payload.slots = .ok graph) :
    link scope payload = .error (.invalid "graph contains a dependency cycle") ↔
      (payload.count = payload.slots.length ∧ ∀ slot ∈ payload.slots, slot.IsCallable scope) ∧
        graph.isAcyclic = false := by
  rcases @link_cases scope payload graph made with ⟨wrong, error, refused, other⟩ | ⟨right, linked⟩
  · simp [refused, wrong, other]
  · rw [linked, and_iff_right right]
    cases graph.isAcyclic <;> simp

/-- A blob with a sound header and a payload that can be read is decoded by linking the payload. -/
theorem decode_eq_link_of_read {bytes data rest : Bytes} (sound : payloadBytes bytes = .ok data)
    (read : Payload.read data = some (payload, rest)) (scope : Scope) :
    decode scope bytes = link scope payload := by
  simp only [decode, sound, bind, Except.bind, read]

end RuleGraph.Blob
