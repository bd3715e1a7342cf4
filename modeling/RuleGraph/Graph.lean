import RuleGraph.Error
import RuleGraph.Graph.Sorting
import RuleGraph.Slot

/-! # Rule graphs

A graph is a list of slots with distinct names whose dependencies are slots of the graph. Cycles
are allowed; every slot from which a cycle can be reached knows one.

* **`Graph.ofSlots`** — the graph of a list of slots, or why there is none.
* **`Graph.indexOf?`**, **`Graph.get?`** — slots by name.
* **`Graph.cycleFrom?`** — the cycle that a slot knows.
* **`Graph.order`** — a dependency order that keeps the given one where it can.
-/

namespace RuleGraph

/-- Where a search for cycles stands with a slot. -/
inductive Visit where
  /-- Not reached yet. -/
  | unseen
  /-- Being searched. -/
  | entered
  /-- Searched, with the first cycle that was found from it. -/
  | finished (cycle : Option (List Nat))
  deriving DecidableEq, Inhabited

/-- How far a depth-first search has come with every slot. -/
abbrev Visits := List Visit

/-- The cycle that following an edge back to a slot on the current path closes. -/
def closeCycle (path : List Nat) (target : Nat) : List Nat :=
  path.drop (path.idxOf target) ++ [target]

/-- Follow edges in order until one leads to a cycle. `path` holds the slots being searched, the
first entered first; `visit` searches a slot that was not reached yet. -/
def searchEdges (visit : List Nat → Nat → Visits → Option (List Nat) × Visits)
    (path : List Nat) : List Nat → Visits → Option (List Nat) × Visits
  | [], visits => (none, visits)
  | target :: rest, visits =>
    let (found, visits) := match visits[target]?.getD .unseen with
      | .entered => (some (closeCycle path target), visits)
      -- What was found from a slot once is not searched for again.
      | .finished cycle => (cycle, visits)
      | .unseen => visit path target visits
    match found with
    | some cycle => (some cycle, visits)
    | none => searchEdges visit path rest visits

/-- Search the slots that can be reached from a slot, depth first. `depth` bounds the length of the
path, which never visits a slot twice. -/
def visitSlot (edges : List (List Nat)) : Nat → List Nat → Nat → Visits →
    Option (List Nat) × Visits
  | 0, _, _, visits => (none, visits)
  | depth + 1, path, node, visits =>
    let visits := visits.set node .entered
    -- The first cycle found ends the search from this slot; its later edges are not followed.
    let (found, visits) :=
      searchEdges (visitSlot edges depth) (path ++ [node]) (edges[node]?.getD []) visits
    (found, visits.set node (.finished found))

/-- Search every slot in turn. -/
def visitAll (edges : List (List Nat)) : Visits :=
  let count := edges.length
  (List.range count).foldl
    (fun visits node =>
      match visits[node]?.getD .unseen with
      | .unseen => (visitSlot edges count [] node visits).2
      | _ => visits)
    (List.replicate count .unseen)

/-- For every slot, the first cycle that a depth-first search finds from it. -/
def findCycles (edges : List (List Nat)) : List (Option (List Nat)) :=
  (visitAll edges).map fun visit =>
    match visit with
    | .finished cycle => cycle
    | _ => none

/-- A rule graph. -/
structure Graph where
  /-- The slots in order. -/
  slots : List Slot
  /-- For every slot, the places of the slots it depends on. -/
  edges : List (List Nat)
  /-- For every slot, the names along a cycle that can be reached from it. -/
  cycles : List (Option (List String))
  deriving DecidableEq, Inhabited

namespace Graph

/-- The place of the first slot with a name. -/
def placeOf? (slots : List Slot) (name : String) : Option Nat :=
  slots.findIdx? fun slot => slot.name = name

/-- The first name that an earlier slot has already. -/
def firstDuplicate? : List String → List String → Option String
  | _, [] => none
  | seen, name :: rest => if name ∈ seen then some name else firstDuplicate? (name :: seen) rest

/-- The places of the slots that a slot depends on. -/
def edgesOf (slots : List Slot) (slot : Slot) : Except CompileError (List Nat) :=
  slot.deps.mapM fun dep =>
    match placeOf? slots dep with
    | some index => .ok index
    | none => .error (.undefinedFeature slot.name dep)

/-- The name of the slot at a place. -/
def nameAt (slots : List Slot) (index : Nat) : String :=
  (slots[index]?.map Slot.name).getD ""

/-- The graph of a list of slots. Names are distinct, and every dependency is a slot. -/
def ofSlots (slots : List Slot) : Except CompileError Graph := do
  match firstDuplicate? [] (slots.map Slot.name) with
  | some name => throw (.duplicateFeature name)
  | none => pure ()
  let edges ← slots.mapM (edgesOf slots)
  -- Cycles are found on places and told by names.
  let named (cycle : Option (List Nat)) : Option (List String) :=
    cycle.map fun path => path.map (nameAt slots)
  return { slots, edges, cycles := (findCycles edges).map named }

/-- The place of the slot with a name. -/
def indexOf? (graph : Graph) (name : String) : Option Nat :=
  placeOf? graph.slots name

/-- The slot with a name. -/
def get? (graph : Graph) (name : String) : Option Slot :=
  graph.slots.find? fun slot => slot.name = name

/-- The number of slots. -/
def size (graph : Graph) : Nat := graph.slots.length

/-- The name of the slot at a place. -/
def name (graph : Graph) (index : Nat) : String := nameAt graph.slots index

/-- The places of the slots that the slot at a place depends on. -/
def dependencies (graph : Graph) (index : Nat) : List Nat :=
  graph.edges[index]?.getD []

/-- The names along a cycle that can be reached from the slot at a place. -/
def cycleFrom? (graph : Graph) (index : Nat) : Option (List String) :=
  (graph.cycles[index]?).join

/-- Whether no slot reaches a cycle. -/
def isAcyclic (graph : Graph) : Bool :=
  graph.cycles.all Option.isNone

/-- The first cycle that a slot knows, in the order of the slots. -/
def firstCycle? (graph : Graph) : Option (List String) :=
  graph.cycles.findSome? id

/-- The names of the slots that the host supplies. -/
def inputs (graph : Graph) : List String :=
  (graph.slots.filter Slot.isInput).map Slot.name

/-- The places of the slots in an order in which every slot stands behind its dependencies: always
the earliest slot whose dependencies are placed comes next. Slots that reach a cycle are left
out. -/
def order (graph : Graph) : List Nat :=
  (Sorting.ofEdges graph.edges).placed

/-- The slots in dependency order. -/
def orderedSlots (graph : Graph) : List Slot :=
  graph.order.filterMap fun index => graph.slots[index]?

/-- The source text of the slot with a name, if it has one. -/
def writeSlot? (graph : Graph) (name : String) : Option String :=
  graph.get? name >>= Slot.write?

/-- The source text of a graph, one slot to a line. -/
def write (graph : Graph) : String :=
  String.join ((graph.slots.filterMap Slot.write?).map fun line => line ++ "\n")

end Graph

end RuleGraph
