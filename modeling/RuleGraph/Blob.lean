import RuleGraph.Blob.Blake3
import RuleGraph.Blob.Payload
import RuleGraph.Executable

/-! # Blobs

Compiled graphs as bytes. A header of thirty-two bytes holds a mark, two versions, reserved flags,
the length of the payload and half of its hash; the payload follows. Functions are stored by name,
so a blob is accepted only where every call names a function that fits.

* **`Blob.encode`** — the blob of a graph.
* **`Blob.decode`** — the graph of a blob, or why it is refused.
* **`Catalog.restore`** — a blob bound to the functions of a catalog.
-/

namespace RuleGraph

/-- Why a blob is refused. -/
inductive BlobError where
  /-- It does not begin with the mark. -/
  | badMark
  /-- Its format has another version. -/
  | incompatibleVersion (found supported : Nat)
  /-- Its hash is not that of its payload. -/
  | checksumMismatch
  /-- It is too short. -/
  | lengthMismatch (expected actual : Nat)
  /-- Its payload is malformed. -/
  | malformedPayload
  /-- Its graph does not fit the catalog or is no graph. -/
  | invalid (reason : String)
  deriving DecidableEq

/-- The text of a reason to refuse a blob; a malformed payload has no fixed one. -/
def BlobError.message? : BlobError → Option String
  | .badMark => some "not a sqrl binary: invalid magic bytes"
  | .incompatibleVersion found supported =>
    some ("incompatible format version: blob is v" ++ Numeral.natText found
      ++ ", engine supports v" ++ Numeral.natText supported)
  | .checksumMismatch => some "integrity check failed: BLAKE3 checksum mismatch"
  | .lengthMismatch expected actual =>
    some ("payload length mismatch: expected " ++ Numeral.natText expected ++ " bytes, got "
      ++ Numeral.natText actual)
  | .malformedPayload => none
  | .invalid reason => some ("validation failed: " ++ reason)

/-- Why a graph has no blob: its payload is too long. -/
structure PayloadTooLong where
  /-- The length of the payload. -/
  length : Nat
  deriving DecidableEq

/-- The text of the reason. -/
def PayloadTooLong.message (error : PayloadTooLong) : String :=
  "payload of " ++ Numeral.natText error.length ++ " bytes exceeds the format limit"

namespace Blob

/-- The bytes that every blob begins with. -/
def mark : Bytes := [0x53, 0x51, 0x52, 0x4c]

/-- The version of the format. -/
def formatVersion : Nat := 1

/-- The version of the engine, which is stored and not checked. -/
def engineVersion : Nat := 1

/-- The number of bytes of the header. -/
def headerLength : Nat := 32

/-- The part of a payload's hash that the header holds. -/
def checksum (payload : Bytes) : Bytes := (Blake3.digest payload).take 16

/-- The header of a payload. -/
def header (payload : Bytes) : Bytes :=
  mark ++ Bytes.littleEndian 2 formatVersion ++ Bytes.littleEndian 2 engineVersion
    ++ Bytes.littleEndian 4 0 ++ Bytes.littleEndian 4 payload.length ++ checksum payload

/-- What is stored about a graph and its source text. -/
def payloadOf (graph : Graph) (source : Option String) : Payload :=
  ⟨graph.size, source.map fun text => Blake3.digest (Bytes.utf8 text), graph.slots⟩

/-- The blob of a graph. Its source text, if given, is stored as a hash. -/
def encode (graph : Graph) (source : Option String) : Except PayloadTooLong Bytes :=
  let payload := (payloadOf graph source).write
  if payload.length < Nat.pow 2 32 then .ok (header payload ++ payload)
  else .error ⟨payload.length⟩

/-- The payload bytes of a blob whose header is sound. -/
def payloadBytes (bytes : Bytes) : Except BlobError Bytes :=
  if bytes.length < headerLength then .error (.lengthMismatch headerLength bytes.length)
  else if bytes.take 4 ≠ mark then .error .badMark
  else
    -- The engine's version and the flags, at six and eight, are not looked at.
    let version := Bytes.ofLittleEndian ((bytes.drop 4).take 2)
    let length := Bytes.ofLittleEndian ((bytes.drop 12).take 4)
    let stored := (bytes.drop 16).take 16
    let rest := bytes.drop headerLength
    if version ≠ formatVersion then .error (.incompatibleVersion version formatVersion)
    else if rest.length < length then .error (.lengthMismatch length rest.length)
    else if checksum (rest.take length) ≠ stored then .error .checksumMismatch
    else .ok (rest.take length)

/-- What a refused slot is called in the reason. -/
def refusal (slot function reason : String) : BlobError :=
  .invalid ("slot '" ++ slot ++ "' calls '" ++ function ++ "'" ++ reason)

/-- Check a call in a slot: its function is registered, may be called there, and takes that many
arguments. -/
def checkCall (scope : Scope) (slot : String) (asStatement : Bool) (call : String × Nat) :
    Except BlobError Unit :=
  match scope.get? call.1 with
  | none => .error (refusal slot call.1 ", which is not registered")
  | some entry =>
    if asStatement && !entry.isStatement then
      .error (refusal slot call.1 ", which is not a statement")
    else if !asStatement && (entry.isStatement || entry.isHook) then
      .error (refusal slot call.1 ", which is not a value function")
    else match entry.arityError? call.2 with
      | some error => .error (refusal slot call.1 (": " ++ error.message))
      | none => .ok ()

/-- The calls of a slot that compute values, and the call of its statement. -/
def callsOf (slot : Slot) : List (String × Nat) × Option (String × Nat) :=
  match slot.kind with
  | .input | .group => ([], none)
  | .feature body => (body.calls, none)
  | .statement _ condition call =>
    let conditionCalls := (condition.map SlotExpr.calls).getD []
    match call with
    | .call function args =>
      (conditionCalls ++ SlotExpr.callsOfAll args, some (function, args.length))
    | other => (conditionCalls ++ other.calls, none)

/-- Check the calls of a slot: those of values first, then that of the statement. -/
def checkSlot (scope : Scope) (slot : Slot) : Except BlobError Unit := do
  let (values, statement) := callsOf slot
  values.forM (checkCall scope slot.name false)
  statement.toList.forM (checkCall scope slot.name true)

/-- The graph of a payload, checked against a scope. -/
def link (scope : Scope) (payload : Payload) : Except BlobError Graph := do
  if payload.count ≠ payload.slots.length then
    throw (.invalid ("metadata says " ++ Numeral.natText payload.count ++ " slots but payload has "
      ++ Numeral.natText payload.slots.length))
  payload.slots.forM (checkSlot scope)
  match Graph.ofSlots payload.slots with
  | .error error => throw (.invalid error.message)
  | .ok graph =>
    if graph.isAcyclic then return graph
    else throw (.invalid "graph contains a dependency cycle")

/-- The graph of a blob. What follows the payload, inside its length or behind it, is ignored. -/
def decode (scope : Scope) (bytes : Bytes) : Except BlobError Graph := do
  let payload ← payloadBytes bytes
  match Payload.read payload with
  | none => throw .malformedPayload
  | some (payload, _) => link scope payload

end Blob

/-- Bind a blob to the functions that a view of a catalog has for it. Registration ends if the blob
is accepted. -/
def Catalog.restore (catalog : Catalog) (package : Option String) (bytes : Bytes) :
    Catalog × Except BlobError Executable :=
  match Blob.decode ⟨catalog, package⟩ bytes with
  | .error error => (catalog, .error error)
  | .ok graph =>
    let catalog := catalog.endRegistration
    (catalog, .ok (Executable.ofGraph graph ⟨catalog, package⟩ {}))

end RuleGraph
