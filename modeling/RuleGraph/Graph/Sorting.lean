/-! # Putting slots in order

Slots are known by their places, and for every slot there are the places of the slots that it
depends on. An order in which each stands behind its dependencies is found by Kahn's algorithm,
which counts for every slot how many of them are missing.

* **`dependentsOf`** — for every slot, those that depend on it.
* **`Sorting`** — how far putting slots in order has come.
* **`Sorting.run`** — always the earliest slot that misses nothing comes next.
-/

namespace RuleGraph

/-- For every slot, the slots that depend on it, each as often as it does. -/
def dependentsOf (edges : List (List Nat)) : List (List Nat) :=
  (List.range edges.length).foldl
    (fun table slot => (edges[slot]?.getD []).foldl
      (fun table dep => table.modify dep fun dependents => dependents ++ [slot]) table)
    (List.replicate edges.length [])

/-- Insert a slot into an ascending list, unless it is there. -/
def insertSlot (slot : Nat) : List Nat → List Nat
  | [] => [slot]
  | first :: rest =>
    if slot < first then slot :: first :: rest
    else if slot = first then first :: rest
    else first :: insertSlot slot rest

/-- How far putting slots in order has come. -/
structure Sorting where
  /-- For every slot, how many of its dependencies are missing; one that is listed twice is missing
  twice. -/
  missing : List Nat
  /-- The slots that miss nothing and have no place yet, the earliest first. -/
  ready : List Nat
  /-- The slots in order, as far as they have their places. -/
  placed : List Nat := []
  deriving DecidableEq

namespace Sorting

/-- At first a slot is ready if it has no dependencies. -/
def start (edges : List (List Nat)) : Sorting :=
  let missing := edges.map List.length
  { missing
    ready := (List.range edges.length).filter fun slot => missing[slot]?.getD 0 = 0 }

/-- One dependency of a slot is missing no longer. If it was the last one, the slot is ready. -/
def release (sorting : Sorting) (slot : Nat) : Sorting :=
  let left := sorting.missing[slot]?.getD 0 - 1
  { sorting with
    missing := sorting.missing.set slot left
    ready := if left = 0 then insertSlot slot sorting.ready else sorting.ready }

/-- Place a slot that was ready, with `rest` still ready. -/
def place (dependents : List (List Nat)) (sorting : Sorting) (slot : Nat) (rest : List Nat) :
    Sorting :=
  (dependents[slot]?.getD []).foldl release
    { sorting with ready := rest, placed := sorting.placed ++ [slot] }

/-- Place the earliest slot that is ready, again and again until none is, at most `steps` times. -/
def run (dependents : List (List Nat)) : Nat → Sorting → Sorting
  | 0, sorting => sorting
  | steps + 1, sorting =>
    match sorting.ready with
    | [] => sorting
    | slot :: rest => run dependents steps (sorting.place dependents slot rest)

/-- Put slots in order. Every slot has one turn at most. -/
def ofEdges (edges : List (List Nat)) : Sorting :=
  run (dependentsOf edges) edges.length (start edges)

end Sorting

end RuleGraph
