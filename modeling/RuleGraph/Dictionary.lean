/-! # Sorted dictionaries

Finite maps from texts as lists of pairs in ascending order of their keys, so that equal maps are
equal lists.

* **`Dictionary.insert`** — set a key, replacing what was there.
* **`Dictionary.union`** — overlay one dictionary with another.
-/

namespace RuleGraph

/-- Pairs of a key and a value in ascending order of distinct keys. -/
abbrev Dictionary (α : Type) := List (String × α)

namespace Dictionary

variable {α : Type}

/-- Set the value of a key, replacing the value it had. -/
def insert (key : String) (value : α) : Dictionary α → Dictionary α
  | [] => [(key, value)]
  | (k, v) :: rest =>
    if key < k then (key, value) :: (k, v) :: rest
    else if key = k then (key, value) :: rest
    else (k, v) :: insert key value rest

/-- The value of a key. -/
def find? (entries : Dictionary α) (key : String) : Option α :=
  entries.lookup key

/-- The dictionary of a list of pairs, later pairs taking precedence. -/
def ofList (entries : List (String × α)) : Dictionary α :=
  entries.foldl (fun dictionary entry => insert entry.1 entry.2 dictionary) []

/-- A dictionary overlaid with another one, whose values take precedence. -/
def union (base overlay : Dictionary α) : Dictionary α :=
  overlay.foldl (fun dictionary entry => insert entry.1 entry.2 dictionary) base

end Dictionary

end RuleGraph
