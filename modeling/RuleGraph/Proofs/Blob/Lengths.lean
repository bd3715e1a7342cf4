import RuleGraph.Proofs.Blob.RoundTrip
import RuleGraph.StandardLibrary

/-! # Blobs that are cut off or continued

The header of a blob tells how long the payload is. A blob that has been cut off anywhere is refused
for its length; what follows the payload is not looked at.

* **`Blob.decode_of_prefix`** — what is left of a blob is refused.
* **`Blob.decode_append`** — what follows a blob makes no difference.
* **`Blob.cut_refused_rest_ignored`** — both, for the blobs of all graphs.
* **`Blob.decode_longer`** — a blob with a further byte is accepted.
-/

namespace RuleGraph.Blob

variable {scope : Scope} {graph : Graph} {source : Option String} {bytes cut : Bytes}

/-- What is left of a blob that has been cut off: a part of the header, or the header and a part of
the payload. -/
theorem header_or_payload_cut {payload : Bytes} (left : cut <+: header payload ++ payload)
    (cutOff : cut ≠ header payload ++ payload) :
    cut.length < headerLength ∨
      ∃ rest, cut = header payload ++ rest ∧ rest.length < payload.length := by
  refine (Nat.lt_or_ge cut.length headerLength).imp_right fun long => ?_
  obtain ⟨rest, rfl⟩ := List.prefix_of_prefix_length_le (List.prefix_append _ payload) left
    ((length_header payload).trans_le long)
  have inside : rest <+: payload := (List.prefix_append_right_inj _).1 left
  refine ⟨rest, rfl, Nat.lt_of_le_of_ne inside.length_le fun same => cutOff ?_⟩
  rw [inside.eq_of_length same]

/-- **What is left of a blob that has been cut off is refused for its length**: that of the header
if it ends there, else that of the payload. -/
theorem decode_of_prefix (encoded : encode graph source = .ok bytes) (left : cut <+: bytes)
    (cutOff : cut ≠ bytes) : decode scope cut = .error
      (if cut.length < headerLength then .lengthMismatch headerLength cut.length
      else .lengthMismatch (bytes.length - headerLength) (cut.length - headerLength)) := by
  obtain ⟨fits, rfl⟩ := eq_of_encode encoded
  rcases header_or_payload_cut left cutOff with short | ⟨rest, rfl, short⟩
  · rw [decode, payloadBytes, if_pos short, if_pos short]
    rfl
  · have long : ¬(header (payloadOf graph source).write ++ rest).length < headerLength := by
      rw [List.length_append, length_header]
      omega
    rw [decode, payloadBytes_header_append fits, if_pos short, if_neg long, List.length_append,
      List.length_append, length_header, Nat.add_sub_cancel_left, Nat.add_sub_cancel_left]
    rfl

/-- **What follows a blob is not looked at.** -/
theorem decode_append (encoded : encode graph source = .ok bytes) (extra : Bytes) :
    decode scope (bytes ++ extra) = decode scope bytes := by
  obtain ⟨fits, rfl⟩ := eq_of_encode encoded
  have enough : ¬((payloadOf graph source).write ++ extra).length <
      (payloadOf graph source).write.length := by
    rw [List.length_append]
    omega
  have sound : payloadBytes (header (payloadOf graph source).write ++
      (payloadOf graph source).write ++ extra) = .ok (payloadOf graph source).write := by
    rw [List.append_assoc, payloadBytes_header_append fits, if_neg enough, List.take_left,
      if_neg (not_not.2 rfl)]
  rw [decode, decode, sound, payloadBytes_header fits]

/-- **A blob that is cut off is refused, and what follows a blob is ignored.** For every graph and
every source text, whatever the functions are: everything that a blob begins with, short of the blob
itself, is refused for its length; the blob with any further bytes is decoded to what the blob is
decoded to, or refused for the same reason. -/
theorem cut_refused_rest_ignored (encoded : encode graph source = .ok bytes) :
    (∀ scope cut, cut <+: bytes → cut ≠ bytes → decode scope cut = .error
      (if cut.length < headerLength then .lengthMismatch headerLength cut.length
      else .lengthMismatch (bytes.length - headerLength) (cut.length - headerLength))) ∧
    ∀ scope extra, decode scope (bytes ++ extra) = decode scope bytes :=
  ⟨fun _ _ left cutOff => decode_of_prefix encoded left cutOff,
    fun _ extra => decode_append encoded extra⟩

/-! ## One input -/

/-- A graph of one input. -/
def input : Graph := ⟨[.input "A"], [[]], [none]⟩

/-- The blob of the graph: the header of a payload of seven bytes, and the payload. -/
def inputBytes : Bytes :=
  [0x53, 0x51, 0x52, 0x4c, 0x01, 0x00, 0x01, 0x00, 0x00, 0x00, 0x00, 0x00, 0x07, 0x00, 0x00, 0x00,
    0x16, 0xd3, 0x4b, 0x05, 0xf7, 0xc0, 0xd3, 0x8e, 0x56, 0x79, 0x90, 0xbc, 0xad, 0x65, 0x5c, 0x03,
    0x01, 0x00, 0x01, 0x01, 0x41, 0x00, 0x00]

/-- It is. -/
theorem encode_input : encode input none = .ok inputBytes := by decide +kernel

/-- Without its last byte it is refused, with four more bytes it is accepted as it is. -/
theorem cut_refused_rest_ignored_of_input :
    decode ⟨.standard, none⟩ (inputBytes.take 38) = .error (.lengthMismatch 7 6) ∧
    decode ⟨.standard, none⟩ (inputBytes.take 31) = .error (.lengthMismatch 32 31) ∧
    decode ⟨.standard, none⟩ (inputBytes ++ [1, 2, 3, 4]) = .ok input := by
  obtain ⟨cutOff, further⟩ := cut_refused_rest_ignored encode_input
  have accepted : decode ⟨.standard, none⟩ inputBytes = .ok input := by decide +kernel
  exact ⟨cutOff _ _ (List.take_prefix _ _) (by decide),
    cutOff _ _ (List.take_prefix _ _) (by decide), (further _ _).trans accepted⟩

/-- **A blob with a further byte is accepted.** -/
theorem decode_longer :
    encode input none = .ok inputBytes ∧ decode ⟨.standard, none⟩ inputBytes = .ok input ∧
    decode ⟨.standard, none⟩ (inputBytes ++ [0]) = .ok input :=
  ⟨encode_input, by decide +kernel, by decide +kernel⟩

end RuleGraph.Blob
