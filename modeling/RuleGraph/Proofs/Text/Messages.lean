import RuleGraph.Message
import Mathlib.Data.List.Infix

/-! # Messages are filled formats

A format is cut at its places, and there is one way to do so. Its message is what stands between the
places, with the values in between as they are.

* **`IsCut`** — the pieces between the places of a format; `cutPlaces`, how they are found.
* **`filled`** — the pieces of a format with values in between.
* **`formatMessage_eq_filled`** — the message of a format.
-/

namespace RuleGraph

/-- The place of a value in a format. -/
def place : List Char := ['\x7b', '\x7d']

/-- A format consists of pieces with a place between any two of them, and there is no other place
in it. -/
structure IsCut (format : List Char) (pieces : List (List Char)) : Prop where
  /-- There is a piece in front of the first place, if only an empty one. -/
  nonempty : pieces ≠ []
  /-- Between two pieces there is a place. -/
  joined : place.intercalate pieces = format
  /-- There is none in a piece. -/
  free : ∀ piece ∈ pieces, ¬place <:+: piece

/-- What stands before, between and behind the places of a format, which are taken from the left. -/
def cutPlaces : List Char → List (List Char)
  | [] => [[]]
  | '\x7b' :: '\x7d' :: rest => [] :: cutPlaces rest
  | c :: rest => (cutPlaces rest).modifyHead (c :: ·)

/-- What comes to stand at so many places: the values in order, and then the places themselves. -/
def fillers (places : Nat) (values : List Value) : List (List Char) :=
  (values.take places).map (fun value => value.plain.toList) ++
    List.replicate (places - values.length) place

/-- Pieces with values between any two of them, and behind them the values for which there is no
place, each behind a space. -/
def filled (pieces : List (List Char)) (values : List Value) : List Char :=
  let places := pieces.length - 1
  (List.zipWith (· ++ ·) pieces (fillers places values ++ [[]])).flatten ++
    (values.drop places).flatMap fun value => ' ' :: value.plain.toList

variable {piece format rest : List Char} {pieces : List (List Char)} {values : List Value}

/-! ## Places -/

/-- No place begins in a piece without one, even if there is a place behind the piece. -/
theorem not_begins_of_free {c : Char} (free : ¬place <:+: c :: piece) (behind : '\x7d' ∉ rest.head?)
    (later : List Char) : c = '\x7b' → piece ++ rest = '\x7d' :: later → False := by
  rintro rfl same
  cases piece with
  | nil => exact behind (by simp_all)
  | cons d piece =>
    obtain ⟨rfl, -⟩ := List.cons.inj same
    exact free ⟨[], piece, rfl⟩

/-- What a piece goes on with has no place either. -/
theorem free_of_cons {c : Char} (free : ¬place <:+: c :: piece) : ¬place <:+: piece :=
  fun inside => free (List.infix_cons_iff.2 (.inr inside))

/-- Behind a place there is no need to look back. -/
theorem not_mem_head?_place : '\x7d' ∉ (place ++ rest).head? := by
  simp [place]

/-- A piece without a place stays as it is. -/
theorem fillPlaces_append (free : ¬place <:+: piece) (behind : '\x7d' ∉ rest.head?) :
    fillPlaces (piece ++ rest) values = piece ++ fillPlaces rest values := by
  induction piece with
  | nil => rfl
  | cons c piece ih =>
    have none := not_begins_of_free free behind
    rw [List.cons_append, fillPlaces]
    · rw [ih (free_of_cons free), List.cons_append]
    · exact fun later _ _ _ => none later
    · exact fun later _ => none later

/-- It is part of the first piece that is cut off. -/
theorem cutPlaces_append (free : ¬place <:+: piece) (behind : '\x7d' ∉ rest.head?) :
    cutPlaces (piece ++ rest) = (cutPlaces rest).modifyHead (piece ++ ·) := by
  induction piece with
  | nil =>
    show cutPlaces rest = _
    cases cutPlaces rest <;> rfl
  | cons c piece ih =>
    rw [List.cons_append, cutPlaces]
    · rw [ih (free_of_cons free)]
      cases cutPlaces rest <;> rfl
    · exact not_begins_of_free free behind

/-! ## Cutting -/

/-- A character with which no place begins is part of the first piece. -/
theorem IsCut.cons {c : Char} (isCut : IsCut rest (piece :: pieces))
    (other : ∀ later, c = '\x7b' → rest = '\x7d' :: later → False) :
    IsCut (c :: rest) ((c :: piece) :: pieces) := by
  obtain ⟨-, joined, free⟩ := isCut
  obtain ⟨first, others⟩ := List.forall_mem_cons.1 free
  have whole : place.intercalate ((c :: piece) :: pieces) = c :: rest := by
    rw [← joined]
    cases pieces with
    | nil => simp
    | cons => simp [List.intercalate_cons_cons]
  refine ⟨List.cons_ne_nil _ _, whole, List.forall_mem_cons.2 ⟨fun inside => ?_, others⟩⟩
  -- A place in the first piece would begin with the new character.
  rcases List.infix_cons_iff.1 inside with ⟨later, begins⟩ | inside
  · obtain ⟨rfl, rfl⟩ := List.cons.inj begins
    cases pieces with
    | nil => exact other later rfl (by simpa using joined.symm)
    | cons next pieces =>
      exact other _ rfl (joined.symm.trans (by rw [List.intercalate_cons_cons]; rfl))
  · exact first inside

/-- **A format is cut** at its places from the left. -/
theorem isCut_cutPlaces (format : List Char) : IsCut format (cutPlaces format) := by
  fun_induction cutPlaces format with
  | case1 => exact ⟨by simp, rfl, by simp [place]⟩
  | case2 rest ih =>
    refine ⟨by simp, ?_, ?_⟩
    · rw [List.intercalate_cons_of_ne_nil ih.nonempty, ih.joined]
      rfl
    · simpa [place] using ih.free
  | case3 c rest other ih =>
    cases same : cutPlaces rest with
    | nil => exact absurd same ih.nonempty
    | cons piece pieces =>
      rw [same] at ih
      exact ih.cons other

/-- **There is one way to cut a format.** -/
theorem IsCut.unique (isCut : IsCut format pieces) : pieces = cutPlaces format := by
  obtain ⟨nonempty, rfl, free⟩ := isCut
  induction pieces with
  | nil => exact absurd rfl nonempty
  | cons piece pieces ih =>
    obtain ⟨first, others⟩ := List.forall_mem_cons.1 free
    cases pieces with
    | nil =>
      have alone : cutPlaces (piece ++ []) = _ := cutPlaces_append first (by simp)
      simpa [cutPlaces] using alone.symm
    | cons next pieces =>
      have later := ih (List.cons_ne_nil _ _) others
      rw [List.intercalate_cons_cons, List.append_assoc,
        cutPlaces_append first not_mem_head?_place, place, List.cons_append, List.cons_append,
        List.nil_append, cutPlaces, ← place, ← later]
      simp

/-! ## Filling -/

/-- What comes to stand at the first place, and at the others. -/
theorem fillers_succ (places : Nat) (values : List Value) :
    fillers (places + 1) values =
      (values.head?.elim place fun value => value.plain.toList) :: fillers places values.tail := by
  cases values with
  | nil => simp [fillers, List.replicate_succ]
  | cons value values => simp [fillers]

/-- A place is filled with the first value, or stays. -/
theorem fillPlaces_place : fillPlaces (place ++ rest) values =
    (values.head?.elim place fun value => value.plain.toList) ++ fillPlaces rest values.tail := by
  cases values <;> rfl

/-- Pieces are filled from the left. -/
theorem filled_cons_cons (piece next : List Char) (pieces : List (List Char))
    (values : List Value) : filled (piece :: next :: pieces) values =
      piece ++ (values.head?.elim place fun value => value.plain.toList) ++
        filled (next :: pieces) values.tail := by
  simp [filled, fillers_succ, List.append_assoc]

/-- **The places of a format are filled** where it is cut. -/
theorem IsCut.fillPlaces_eq (isCut : IsCut format pieces) (values : List Value) :
    fillPlaces format values = filled pieces values := by
  obtain ⟨nonempty, rfl, free⟩ := isCut
  induction pieces generalizing values with
  | nil => exact absurd rfl nonempty
  | cons piece pieces ih =>
    obtain ⟨first, others⟩ := List.forall_mem_cons.1 free
    cases pieces with
    | nil =>
      have alone : fillPlaces (piece ++ []) values = _ := fillPlaces_append first (by simp)
      simpa [filled, fillers, fillPlaces] using alone
    | cons next pieces =>
      rw [List.intercalate_cons_cons, List.append_assoc,
        fillPlaces_append first not_mem_head?_place, fillPlaces_place,
        ih values.tail (List.cons_ne_nil _ _) others, filled_cons_cons, List.append_assoc]

/-- **The message of a format** consists of the pieces between its places, from the left, with the
texts of the values in between. There is one way to cut a format into such pieces. What is behind a
place is read as if nothing had been filled in there. -/
theorem formatMessage_eq_filled (format : String) (values : List Value) :
    IsCut format.toList (cutPlaces format.toList) ∧
      (∀ pieces, IsCut format.toList pieces → pieces = cutPlaces format.toList ∧
        formatMessage format values = String.ofList (filled pieces values)) ∧
      ∀ piece value rest, ¬place <:+: piece → format.toList = piece ++ place ++ rest →
        formatMessage format (value :: values) =
          String.ofList piece ++ value.plain ++ formatMessage (String.ofList rest) values := by
  refine ⟨isCut_cutPlaces _, fun pieces isCut => ⟨isCut.unique, ?_⟩, ?_⟩
  · rw [formatMessage, isCut.fillPlaces_eq]
  · intro piece value rest free whole
    have first : fillPlaces format.toList (value :: values) =
        piece ++ (value.plain.toList ++ fillPlaces rest values) := by
      rw [whole, List.append_assoc, fillPlaces_append free not_mem_head?_place, fillPlaces_place]
      rfl
    rw [formatMessage, formatMessage, first, String.toList_ofList, String.ofList_append,
      String.ofList_append, String.ofList_toList, String.append_assoc]

/-- Braces next to a place, and braces in values, which make no place. -/
theorem formatMessage_eq_filled_of_braces :
    IsCut "\x7b\x7b\x7d\x7d \x7b\x7d".toList [['\x7b'], ['\x7d', ' '], []] ∧
      formatMessage "\x7b\x7b\x7d\x7d \x7b\x7d" [.text "\x7b\x7d", .bool true, .text "\x7d"] =
        "\x7b\x7b\x7d\x7d true \x7d" ∧
      formatMessage "\x7b\x7b\x7d\x7d \x7b\x7d" [.text "\x7b\x7d", .bool true, .text "\x7d"] =
        "\x7b" ++ "\x7b\x7d" ++ formatMessage "\x7d \x7b\x7d" [.bool true, .text "\x7d"] := by
  have isCut : IsCut "\x7b\x7b\x7d\x7d \x7b\x7d".toList [['\x7b'], ['\x7d', ' '], []] :=
    ⟨by decide, by decide, by decide⟩
  obtain ⟨-, whole, -⟩ := formatMessage_eq_filled "\x7b\x7b\x7d\x7d \x7b\x7d"
    [.text "\x7b\x7d", .bool true, .text "\x7d"]
  obtain ⟨-, -, carries⟩ := formatMessage_eq_filled "\x7b\x7b\x7d\x7d \x7b\x7d"
    [.bool true, .text "\x7d"]
  exact ⟨isCut, (whole _ isCut).2.trans (by decide),
    carries ['\x7b'] (.text "\x7b\x7d") ['\x7d', ' ', '\x7b', '\x7d'] (by decide) (by decide)⟩

end RuleGraph
