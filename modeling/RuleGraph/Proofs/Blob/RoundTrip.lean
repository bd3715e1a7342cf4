import RuleGraph.Blob
import RuleGraph.Proofs.Blob.Payloads
import RuleGraph.Proofs.Graph.Grounded

/-! # Blobs are taken back

Decoding the blob of a graph gives the graph again, wherever the functions that it calls can be
called. So the slots of a graph can be told from its blob, with or without the source text.

* **`Blob.payloadBytes_encode`** — the header of a blob leads to its payload.
* **`Slot.IsCallable`** — every call of a slot names a function that may be called there.
* **`Blob.checkSlot_eq_ok_iff`** — the check of a slot lets exactly these pass.
* **`Blob.decode_encode`** — decoding takes back what encoding has written.
-/

namespace RuleGraph

open Relation

/-! ## Callable slots -/

namespace Entry

variable {entry : Entry}

/-- Functions that compute values are those that are neither statements nor hooks. -/
theorem isValue_iff : entry.IsValue ↔ (entry.isStatement || entry.isHook) = false := by
  unfold IsValue isStatement isHook
  cases entry.kind <;> simp

end Entry

/-- A call names a function of a kind that takes so many arguments. -/
def Scope.Provides (scope : Scope) (kind : Entry → Prop) (call : String × Nat) : Prop :=
  ∃ entry, scope.lookup call.1 = .ok entry ∧ kind entry ∧ entry.Takes call.2

/-- Every call in an expression computes a value. -/
def SlotExpr.IsCallable (scope : Scope) (body : SlotExpr) : Prop :=
  ∀ call ∈ body.calls, scope.Provides Entry.IsValue call

/-- Every call of a slot names a function that may be called there: a statement where the call of a
statement stands, and everywhere else a function that computes values. -/
def Slot.IsCallable (scope : Scope) (slot : Slot) : Prop :=
  match slot.kind with
  | .input | .group => True
  | .feature body => body.IsCallable scope
  | .statement _ condition call =>
    (∀ body ∈ condition, body.IsCallable scope) ∧
    match call with
    | .call function args =>
      scope.Provides (fun entry => entry.isStatement = true) (function, args.length) ∧
      ∀ arg ∈ args, arg.IsCallable scope
    | other => other.IsCallable scope

namespace Blob

section

variable {scope : Scope} {slot : Slot} {name : String} {call : String × Nat}

/-- A name stands for what is looked up. -/
theorem get?_eq_some_iff {entry : Entry} :
    scope.get? name = some entry ↔ scope.lookup name = .ok entry := by
  unfold Scope.get?
  cases scope.lookup name <;> simp

/-- The check of a call that computes a value. -/
theorem checkCall_value : checkCall scope name false call = .ok () ↔
    scope.Provides Entry.IsValue call := by
  unfold checkCall Scope.Provides
  simp only [← get?_eq_some_iff]
  cases scope.get? call.1 with
  | none => simp
  | some entry =>
    simp only [Option.some.injEq, exists_eq_left', Entry.isValue_iff,
      ← Entry.arityError?_eq_none_iff, Bool.false_and, Bool.false_eq_true, if_false, Bool.not_false,
      Bool.true_and]
    cases entry.isStatement || entry.isHook with
    | true => simp
    | false => cases entry.arityError? call.2 <;> simp

/-- The check of the call of a statement. -/
theorem checkCall_statement : checkCall scope name true call = .ok () ↔
    scope.Provides (fun entry => entry.isStatement = true) call := by
  unfold checkCall Scope.Provides
  simp only [← get?_eq_some_iff]
  cases scope.get? call.1 with
  | none => simp
  | some entry =>
    simp only [Option.some.injEq, exists_eq_left', ← Entry.arityError?_eq_none_iff, Bool.true_and,
      Bool.not_true, Bool.false_and, Bool.false_eq_true, if_false]
    cases entry.isStatement with
    | false => simp
    | true => cases entry.arityError? call.2 <;> simp

/-- A check followed by another one passes if both do. -/
theorem check_and_check_iff {ε : Type} {first second : Except ε Unit} :
    (do first; second) = .ok () ↔ first = .ok () ∧ second = .ok () := by
  rw [bind_eq_ok_iff]
  exact ⟨fun ⟨_, passes, next⟩ => ⟨passes, next⟩, fun ⟨passes, next⟩ => ⟨(), passes, next⟩⟩

/-- A check of all members of a list passes if that of each of them does. -/
theorem forM_eq_ok_iff {ε α : Type} {check : α → Except ε Unit} {items : List α} :
    items.forM check = .ok () ↔ ∀ item ∈ items, check item = .ok () := by
  induction items with
  | nil => simp [List.forM, pure, Except.pure]
  | cons first rest ih =>
    rw [List.forall_mem_cons, ← ih]
    exact check_and_check_iff

/-- Several expressions are callable if each of them is. -/
theorem isCallable_all {args : List SlotExpr} :
    (∀ call ∈ SlotExpr.callsOfAll args, scope.Provides Entry.IsValue call) ↔
      ∀ arg ∈ args, arg.IsCallable scope := by
  simp only [SlotExpr.mem_callsOfAll]
  constructor
  · exact fun each arg member call inside => each call ⟨arg, member, inside⟩
  · rintro each call ⟨arg, member, inside⟩
    exact each arg member call inside

/-- **The check of a slot lets exactly the callable ones pass.** -/
theorem checkSlot_eq_ok_iff : checkSlot scope slot = .ok () ↔ slot.IsCallable scope := by
  have both : checkSlot scope slot = .ok () ↔
      (∀ call ∈ (callsOf slot).1, scope.Provides Entry.IsValue call) ∧
      ∀ call ∈ (callsOf slot).2,
        scope.Provides (fun entry => entry.isStatement = true) call := by
    unfold checkSlot
    simp only [check_and_check_iff, forM_eq_ok_iff, checkCall_value, checkCall_statement,
      Option.mem_toList]
    rfl
  rw [both]
  unfold callsOf Slot.IsCallable
  cases slot.kind with
  | input | group => simp
  | feature body => simp [SlotExpr.IsCallable]
  | statement feature condition call =>
    have guard : (∀ call ∈ (condition.map SlotExpr.calls).getD [],
        scope.Provides Entry.IsValue call) ↔ ∀ body ∈ condition, body.IsCallable scope := by
      cases condition <;> simp [SlotExpr.IsCallable]
    cases call with
    | call function args =>
      simp only [List.forall_mem_append, guard, isCallable_all, Option.mem_some_iff, forall_eq']
      exact ⟨fun ⟨⟨first, args⟩, own⟩ => ⟨first, own, args⟩,
        fun ⟨first, own, args⟩ => ⟨⟨first, args⟩, own⟩⟩
    | const | feature | list =>
      simp only [List.forall_mem_append, guard, Option.not_mem_none, false_imp_iff, implies_true,
        and_true]
      rfl

end

/-! ## Headers -/

/-- The header has thirty-two bytes. -/
theorem length_header (payload : Bytes) : (header payload).length = headerLength := by
  simp [header, mark, checksum, headerLength]

/-- What a blob is made of. -/
theorem eq_of_encode {graph : Graph} {source : Option String} {bytes : Bytes}
    (encoded : encode graph source = .ok bytes) :
    (payloadOf graph source).write.length < 2 ^ 32 ∧
      bytes = header (payloadOf graph source).write ++ (payloadOf graph source).write := by
  unfold encode at encoded
  dsimp only at encoded
  split at encoded
  · rename_i fits
    cases encoded
    exact ⟨fits, rfl⟩
  · cases encoded

/-- What follows a header is the payload, up to the length in the header, if there is as much of it
and it has the hash in the header. -/
theorem payloadBytes_header_append {payload rest : Bytes} (fits : payload.length < 2 ^ 32) :
    payloadBytes (header payload ++ rest) =
      if rest.length < payload.length then .error (.lengthMismatch payload.length rest.length)
      else if checksum (rest.take payload.length) ≠ checksum payload then .error .checksumMismatch
      else .ok (rest.take payload.length) := by
  have enough : ¬(header payload ++ rest).length < headerLength := by
    rw [List.length_append, length_header]
    omega
  have begins : (header payload ++ rest).take 4 = mark := rfl
  have version : Bytes.ofLittleEndian (((header payload ++ rest).drop 4).take 2) =
      formatVersion := rfl
  have length : Bytes.ofLittleEndian (((header payload ++ rest).drop 12).take 4) =
      payload.length := by
    have field : ((header payload ++ rest).drop 12).take 4 =
        Bytes.littleEndian 4 payload.length := rfl
    rw [field, Bytes.ofLittleEndian_littleEndian 4 _ fits]
  have stored : ((header payload ++ rest).drop 16).take 16 = checksum payload := by
    have field : (header payload ++ rest).drop 16 = checksum payload ++ rest := rfl
    have size : (checksum payload).length = 16 := by simp [checksum]
    rw [field, List.take_left' size]
  have behind : (header payload ++ rest).drop headerLength = rest :=
    List.drop_left' (length_header payload)
  rw [payloadBytes, if_neg enough, if_neg (not_not.2 begins)]
  simp only [version, length, stored, behind]
  rw [if_neg (not_not.2 rfl)]

/-- **The header of a blob leads to its payload.** -/
theorem payloadBytes_header {payload : Bytes} (fits : payload.length < 2 ^ 32) :
    payloadBytes (header payload ++ payload) = .ok payload := by
  rw [payloadBytes_header_append fits, if_neg (Nat.lt_irrefl _), List.take_length,
    if_neg (not_not.2 rfl)]

/-- **The payload of a blob is taken back.** -/
theorem read_payloadOf {graph : Graph} {source : Option String}
    (fits : (payloadOf graph source).write.length < 2 ^ 32) :
    Payload.read.Reads (payloadOf graph source).write (payloadOf graph source) := by
  have few : (2 ^ 32 : Nat) < 2 ^ 64 := by decide
  have count := Payload.length_items_le fun slot (_ : slot ∈ graph.slots) =>
    Payload.length_writeSlot_pos slot
  have counted : graph.size < 2 ^ 64 := by
    have written : (graph.slots.flatMap Payload.writeSlot).length ≤
        (payloadOf graph source).write.length := by
      rw [Payload.write, List.length_append]
      exact Nat.le_add_left _ _
    rw [Graph.size]
    omega
  refine Payload.read_write (fits.trans few) counted fun digest hashed => ?_
  obtain ⟨text, -, rfl⟩ := Option.map_eq_some_iff.1 hashed
  exact Blake3.length_digest _

/-! ## Decoding what was encoded -/

/-- A payload is linked if its slots are callable and their graph is acyclic. -/
theorem link_payloadOf {scope : Scope} {graph : Graph} {source : Option String}
    (built : Graph.ofSlots graph.slots = .ok graph) (acyclic : graph.isAcyclic = true)
    (callable : ∀ slot ∈ graph.slots, slot.IsCallable scope) :
    link scope (payloadOf graph source) = .ok graph := by
  have counted : ¬(payloadOf graph source).count ≠ (payloadOf graph source).slots.length :=
    not_not.2 rfl
  have checked : (payloadOf graph source).slots.forM (checkSlot scope) = .ok () :=
    forM_eq_ok_iff.2 fun slot member => checkSlot_eq_ok_iff.2 (callable slot member)
  have made : Graph.ofSlots (payloadOf graph source).slots = .ok graph := built
  rw [link, if_neg counted]
  refine bind_eq_ok_iff.2 ⟨(), checked, ?_⟩
  rw [made]
  simp only [acyclic, if_true]
  rfl

/-- **A blob is decoded by linking the payload that was encoded.** -/
theorem decode_eq_link {graph : Graph} {source : Option String} {bytes : Bytes}
    (encoded : encode graph source = .ok bytes) (scope : Scope) :
    decode scope bytes = link scope (payloadOf graph source) := by
  obtain ⟨fits, rfl⟩ := eq_of_encode encoded
  have read := read_payloadOf fits []
  rw [List.append_nil] at read
  simp only [decode, payloadBytes_header fits, bind, Except.bind, read]

/-- What is decoded from the blob of a graph is that graph. -/
theorem eq_of_decode {scope : Scope} {graph decoded : Graph} {source : Option String}
    {bytes : Bytes} (built : graph.IsBuilt) (encoded : encode graph source = .ok bytes)
    (accepted : decode scope bytes = .ok decoded) : decoded = graph := by
  obtain ⟨slots, made⟩ := built
  obtain ⟨rfl, -⟩ := Graph.linked_of_ofSlots made
  rw [decode_eq_link encoded] at accepted
  have made' : Graph.ofSlots graph.slots = .ok decoded := ofSlots_of_link accepted
  rw [made, Except.ok.injEq] at made'
  exact made'.symm

/-- **From its blob a graph can be told**, as far as its slots go. -/
theorem slots_eq_of_encode {graph graph' : Graph} {source source' : Option String} {bytes : Bytes}
    (encoded : encode graph source = .ok bytes) (encoded' : encode graph' source' = .ok bytes) :
    graph.slots = graph'.slots := by
  obtain ⟨fits, rfl⟩ := eq_of_encode encoded
  obtain ⟨fits', same⟩ := eq_of_encode encoded'
  have payloads := payloadBytes_header fits
  rw [same, payloadBytes_header fits', Except.ok.injEq] at payloads
  have read := read_payloadOf fits
  rw [← payloads] at read
  exact congrArg Payload.slots (read.unique (read_payloadOf fits'))

/-- **Decoding takes back what encoding has written.** Every acyclic graph whose payload is not too
long has a blob, with its source text or without, and the blob is accepted wherever the calls of the
graph can be called: it holds the slots as they were. Graphs with different slots have different
blobs. -/
theorem decode_encode :
    (∀ (slots : List Slot) (graph : Graph) (source : Option String) (scope : Scope),
      Graph.ofSlots slots = .ok graph →
      (∀ name, ¬TransGen (Graph.DependsOn slots) name name) →
      (∀ slot ∈ slots, slot.IsCallable scope) →
      (payloadOf graph source).write.length < 2 ^ 32 →
      ∃ bytes, encode graph source = .ok bytes ∧
        ∃ decoded, decode scope bytes = .ok decoded ∧ decoded.slots = slots ∧ decoded = graph) ∧
    ∀ (graph graph' : Graph) (source source' : Option String) (bytes : Bytes),
      encode graph source = .ok bytes → encode graph' source' = .ok bytes →
      graph.slots = graph'.slots := by
  refine ⟨fun slots graph source scope built acyclic callable fits => ?_,
    fun graph graph' source source' bytes => slots_eq_of_encode⟩
  obtain ⟨rfl, linked⟩ := Graph.linked_of_ofSlots built
  have encoded : encode graph source =
      .ok (header (payloadOf graph source).write ++ (payloadOf graph source).write) :=
    if_pos fits
  have accepted := @link_payloadOf scope graph source built
    ((Graph.isAcyclic_iff linked).2 acyclic) callable
  exact ⟨_, encoded, graph, (decode_eq_link encoded scope).trans accepted, rfl, rfl⟩

/-! ## Held orders -/

end Blob

/-- A function and a statement. -/
def Scope.orders : Scope where
  catalog := { entries := [
    .ofRegistration none {
      name := "isLarge", kind := .sync fun _ args => ([], .ok (args.headD .null))
      options := { args := some { required := [.any], optional := [.any] } } },
    .ofRegistration none {
      name := "hold", kind := .statement "Holds" fun _ _ => .finish (.ok ()) }] }

/-- A rule that holds large orders. One of its constants has a number that is none. -/
def Slot.orders : List Slot :=
  [.input "Order",
    .feature "Large" (.call "isLarge" [.feature "Order",
      .const (.list [.float ⟨0x7ff8000000000001⟩, .entity ⟨"Shop", "7"⟩, .int (-1)])]),
    .statement "Holds#0" "Holds" (some (.feature "Large")) (.call "hold" [.feature "Order"]),
    .group "Holds" ["Holds#0"]]

/-- The blob of the rule, with its source text, is taken back. -/
theorem Blob.decode_encode_of_orders :
    ∃ graph bytes, Graph.ofSlots Slot.orders = .ok graph ∧
      (∀ slot ∈ Slot.orders, slot.IsCallable .orders) ∧
      encode graph (some "LET Order := input();") = .ok bytes ∧
      (∃ decoded, decode .orders bytes = .ok decoded ∧ decoded.slots = Slot.orders) ∧
      ∀ graph' source, encode graph' source = .ok bytes → graph'.slots = Slot.orders := by
  obtain ⟨graph, built⟩ : ∃ graph, Graph.ofSlots Slot.orders = .ok graph := ⟨_, rfl⟩
  obtain ⟨same, linked⟩ := Graph.linked_of_ofSlots built
  have acyclic : graph.isAcyclic = true := by
    cases built
    decide +kernel
  have callable : ∀ slot ∈ Slot.orders, slot.IsCallable .orders := by
    intro slot member
    apply checkSlot_eq_ok_iff.1
    revert slot
    decide +kernel
  have fits : (payloadOf graph (some "LET Order := input();")).write.length < 2 ^ 32 := by
    cases built
    decide +kernel
  obtain ⟨bytes, encoded, decoded, accepted, slots, -⟩ := decode_encode.1 Slot.orders graph
    (some "LET Order := input();") .orders built
    (same ▸ (Graph.isAcyclic_iff linked).1 acyclic) callable fits
  refine ⟨graph, bytes, built, callable, encoded, ⟨decoded, accepted, slots⟩, ?_⟩
  exact fun graph' source encoded' => (decode_encode.2 _ _ _ _ _ encoded' encoded).trans same

end RuleGraph
