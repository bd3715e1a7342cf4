import RuleGraph.Proofs.Graph.Linked
import RuleGraph.Proofs.Graph.Sorting
import Mathlib.Data.List.Chain

/-! # Cycles of a graph

The depth-first search of `findCycles` stops at the first cycle that it finds from a slot. It finds
one if and only if there is one to be found, and without cycles every slot gets its place in the
dependency order.

* **`Graph.IsPath`** — slots in a row, none of them twice.
* **`Leads`**, **`Grounded`** — an edge, and a slot from which following edges comes to an end.
* **`ClosesFrom`** — a cycle that can be reached from a slot.
* **`visitSlot_spec`** — what searching a slot comes to.
* **`Graph.cycleFrom?_eq_none_iff`** — a slot knows no cycle if and only if it is grounded.
* **`Graph.mem_order`** — every grounded slot is in the dependency order.
-/

namespace RuleGraph

open Relation

/-! ## Paths -/

/-- Slots of the graph in a row, none of them twice. -/
structure Graph.IsPath (graph : Graph) (path : List Nat) : Prop where
  /-- No slot stands twice. -/
  nodup : path.Nodup
  /-- All are slots of the graph. -/
  bound : ∀ slot ∈ path, slot < graph.size

namespace Graph.IsPath

variable {graph : Graph} {path : List Nat} {index : Nat}

/-- The path of the host. -/
theorem nil : graph.IsPath [] := ⟨.nil, by simp⟩

/-- A path goes on to a slot that is not on it. -/
theorem concat (isPath : graph.IsPath path) (bound : index < graph.size) (fresh : index ∉ path) :
    graph.IsPath (path ++ [index]) := by
  refine ⟨List.nodup_append.2 ⟨isPath.nodup, List.nodup_singleton _, ?_⟩, ?_⟩
  · intro slot member other last same
    rw [List.mem_singleton] at last
    exact fresh (last ▸ same ▸ member)
  · intro slot member
    rcases List.mem_append.1 member with earlier | last
    · exact isPath.bound slot earlier
    · exact List.mem_singleton.1 last ▸ bound

/-- A path is no longer than there are slots. -/
theorem length_le (isPath : graph.IsPath path) : path.length ≤ graph.size := by
  have sub : path ⊆ List.range graph.size := fun slot member =>
    List.mem_range.2 (isPath.bound slot member)
  simpa using (List.subperm_of_subset isPath.nodup sub).length_le

/-- A path that a slot is missing from is shorter. -/
theorem length_lt (isPath : graph.IsPath path) (bound : index < graph.size)
    (fresh : index ∉ path) : path.length < graph.size := by
  have longer := (isPath.concat bound fresh).length_le
  rwa [List.length_append, List.length_singleton] at longer

end Graph.IsPath

/-- From every slot of a chain the last one is reached. -/
theorem reflTransGen_of_mem_of_isChain {α : Type} {r : α → α → Prop} {chain : List α} {a b : α}
    (links : chain.IsChain r) (member : a ∈ chain) (last : chain.getLast? = some b) :
    ReflTransGen r a b := by
  obtain ⟨before, after, rfl⟩ := List.append_of_mem member
  have tail := (List.isChain_append.1 links).2.1
  have nonempty : a :: after ≠ [] := List.cons_ne_nil _ _
  have reaches := List.relationReflTransGen_of_exists_isChain (a :: after) tail nonempty
  rw [List.getLast?_append_of_ne_nil _ nonempty, List.getLast?_eq_some_getLast nonempty,
    Option.some_inj] at last
  rwa [last] at reaches

/-- From the first one of a chain every slot is reached. -/
theorem reflTransGen_of_head?_of_isChain {α : Type} {r : α → α → Prop} {chain : List α} {a b : α}
    (links : chain.IsChain r) (first : chain.head? = some a) (member : b ∈ chain) :
    ReflTransGen r a b := by
  obtain ⟨before, after, rfl⟩ := List.append_of_mem member
  rw [List.append_cons] at links first
  have front := (List.isChain_append.1 links).1
  have nonempty : before ++ [b] ≠ [] := List.append_ne_nil_of_right_ne_nil _ (List.cons_ne_nil _ _)
  have reaches := List.relationReflTransGen_of_exists_isChain (before ++ [b]) front nonempty
  rw [List.head?_append_of_ne_nil _ nonempty, List.head?_eq_some_head nonempty,
    Option.some_inj] at first
  rwa [first, List.getLast_concat] at reaches

/-! ## The search -/

/-- A slot has an edge to another one. -/
def Leads (edges : List (List Nat)) (node target : Nat) : Prop :=
  target ∈ edges[node]?.getD []

/-- Following edges from a slot comes to an end, whichever are followed. -/
def Grounded (edges : List (List Nat)) (node : Nat) : Prop :=
  Acc (fun target node => Leads edges node target) node

/-- A list of slots goes along edges around a cycle that can be reached from a slot. -/
structure ClosesFrom (edges : List (List Nat)) (node : Nat) (cycle : List Nat) : Prop where
  /-- It goes along edges. -/
  links : cycle.IsChain (Leads edges)
  /-- It ends where it begins. -/
  closed : cycle.head? = cycle.getLast?
  /-- It goes along at least one edge. -/
  long : 1 < cycle.length
  /-- But for its end, no slot stands twice. -/
  simple : cycle.dropLast.Nodup
  /-- Where it begins can be reached. -/
  reached : ∃ turn, cycle.head? = some turn ∧ ReflTransGen (Leads edges) node turn

/-- What a finished search from a slot says: there is no cycle to be reached, or here is one. -/
def Verdict (edges : List (List Nat)) (node : Nat) : Option (List Nat) → Prop
  | none => Grounded edges node
  | some cycle => ClosesFrom edges node cycle

/-- How far a search along a path has come. -/
structure Searching (edges : List (List Nat)) (path : List Nat) (visits : Visits) : Prop where
  /-- Every slot has its visit. -/
  sized : visits.length = edges.length
  /-- The slots being searched are those of the path. -/
  entered : ∀ node, visits[node]? = some .entered ↔ node ∈ path
  /-- The path visits no slot twice. -/
  nodup : path.Nodup
  /-- The path goes along edges. -/
  links : path.IsChain (Leads edges)
  /-- Finished searches say what is so. -/
  right : ∀ node found, visits[node]? = some (.finished found) → Verdict edges node found

/-- Visits that have begun stay as they are. -/
def Visits.Grows (before after : Visits) : Prop :=
  ∀ node : Nat, before[node]? ≠ some Visit.unseen → after[node]? = before[node]?

/-- Searching slots from the end of a path does what it should. -/
def Searches (edges : List (List Nat)) (path : List Nat)
    (visit : List Nat → Nat → Visits → Option (List Nat) × Visits) : Prop :=
  ∀ node visits, Searching edges path visits → visits[node]? = some .unseen →
    (∀ last, path.getLast? = some last → Leads edges last node) →
    Searching edges path (visit path node visits).2 ∧
    Visits.Grows visits (visit path node visits).2 ∧
    (visit path node visits).2[node]? = some (.finished (visit path node visits).1)

variable {edges : List (List Nat)} {path : List Nat} {node target : Nat} {visits visits' : Visits}

/-- Nothing needs to change. -/
theorem Visits.Grows.refl (visits : Visits) : Visits.Grows visits visits :=
  fun _ _ => rfl

/-- Growing goes on. -/
theorem Visits.Grows.trans {visits'' : Visits} (first : Visits.Grows visits visits')
    (second : Visits.Grows visits' visits'') : Visits.Grows visits visits'' := by
  intro node seen
  have same := first node seen
  exact (second node (same ▸ seen)).trans same

/-- A slot is grounded if all slots that it has edges to are. -/
theorem Grounded.intro (h : ∀ target, Leads edges node target → Grounded edges target) :
    Grounded edges node :=
  Acc.intro node h

/-- What a grounded slot reaches is grounded. -/
theorem Grounded.of_reaches (grounded : Grounded edges node)
    (reaches : ReflTransGen (Leads edges) node target) : Grounded edges target := by
  induction reaches with
  | refl => exact grounded
  | tail _ edge ih => exact ih.inv edge

/-- A grounded slot is on no cycle. -/
theorem Grounded.not_transGen (grounded : Grounded edges node) :
    ¬TransGen (Leads edges) node node := by
  induction grounded with
  | intro node _ ih =>
    intro around
    -- The cycle can be entered one slot later.
    obtain ⟨next, edge, back⟩ := TransGen.head'_iff.1 around
    exact ih next edge (TransGen.tail' back edge)

/-- A cycle that can be reached is one of edges. -/
theorem ClosesFrom.exists_cycle {cycle : List Nat} (closes : ClosesFrom edges node cycle) :
    ∃ turn, ReflTransGen (Leads edges) node turn ∧ TransGen (Leads edges) turn turn := by
  obtain ⟨links, closed, long, -, turn, head, reaches⟩ := closes
  refine ⟨turn, reaches, ?_⟩
  match cycle, long with
  | first :: second :: rest, _ =>
    obtain rfl : first = turn := Option.some_inj.1 head
    have last : (second :: rest).getLast? = some first := by
      rw [List.head?_cons, List.getLast?_cons_cons] at closed
      exact closed.symm
    obtain ⟨edge, links⟩ := List.isChain_cons_cons.1 links
    exact TransGen.head' edge (reflTransGen_of_mem_of_isChain links List.mem_cons_self last)

/-- From a grounded slot no cycle is reached. -/
theorem ClosesFrom.not_grounded {cycle : List Nat} (closes : ClosesFrom edges node cycle) :
    ¬Grounded edges node := by
  intro grounded
  obtain ⟨turn, reaches, around⟩ := closes.exists_cycle
  exact (grounded.of_reaches reaches).not_transGen around

/-- A cycle can be reached from one edge further off. -/
theorem ClosesFrom.head {cycle : List Nat} (edge : Leads edges node target)
    (closes : ClosesFrom edges target cycle) : ClosesFrom edges node cycle := by
  obtain ⟨turn, head, reaches⟩ := closes.reached
  exact ⟨closes.links, closes.closed, closes.long, closes.simple, turn, head, .head edge reaches⟩

/-- All of a cycle can be reached. -/
theorem ClosesFrom.reaches_of_mem {cycle : List Nat} (closes : ClosesFrom edges node cycle)
    (member : target ∈ cycle) : ReflTransGen (Leads edges) node target := by
  obtain ⟨turn, head, reaches⟩ := closes.reached
  exact reaches.trans (reflTransGen_of_head?_of_isChain closes.links head member)

/-- An edge from the end of a path back to one of its slots closes a cycle. -/
theorem closesFrom_closeCycle (nodup : path.Nodup) (links : path.IsChain (Leads edges))
    (last : path.getLast? = some node) (edge : Leads edges node target) (member : target ∈ path) :
    ClosesFrom edges node (closeCycle path target) := by
  have bound := List.idxOf_lt_length_of_mem member
  -- The part of the path from the target on is the cycle, but for its last slot.
  have first : (path.drop (path.idxOf target)).head? = some target := by
    rw [List.head?_drop, List.getElem?_eq_getElem bound, List.getElem_idxOf bound]
  have final : (path.drop (path.idxOf target)).getLast? = some node := by
    rw [List.getLast?_drop, if_neg (Nat.not_le_of_lt bound), last]
  have nonempty : path.drop (path.idxOf target) ≠ [] := by
    intro empty
    simp [empty] at first
  have head : (closeCycle path target).head? = some target := by
    rw [closeCycle, List.head?_append_of_ne_nil _ nonempty, first]
  refine ⟨?_, ?_, ?_, ?_, target, head, .single edge⟩
  · refine List.isChain_append.2 ⟨links.drop _, .singleton _, ?_⟩
    intro a lastOf b firstOf
    rw [final] at lastOf
    cases lastOf
    cases firstOf
    exact edge
  · rw [head, closeCycle, List.getLast?_concat]
  · have positive := List.length_pos_of_ne_nil nonempty
    rw [closeCycle, List.length_append, List.length_singleton]
    omega
  · rw [closeCycle, List.dropLast_concat]
    exact nodup.sublist (List.drop_sublist _ _)

/-- What is found at a slot that an edge leads to, and how the visits stand then. -/
def inspect (visit : List Nat → Nat → Visits → Option (List Nat) × Visits) (path : List Nat)
    (target : Nat) (visits : Visits) : Option (List Nat) × Visits :=
  match visits[target]?.getD .unseen with
  | .entered => (some (closeCycle path target), visits)
  | .finished cycle => (cycle, visits)
  | .unseen => visit path target visits

/-- Edges are followed one after the other until a cycle is found. -/
theorem searchEdges_cons (visit : List Nat → Nat → Visits → Option (List Nat) × Visits)
    (path : List Nat) (target : Nat) (rest : List Nat) (visits : Visits) :
    searchEdges visit path (target :: rest) visits =
      match (inspect visit path target visits).1 with
      | some cycle => (some cycle, (inspect visit path target visits).2)
      | none => searchEdges visit path rest (inspect visit path target visits).2 :=
  rfl

/-- What a search from the end of a path says of the edges that it has followed. -/
def Found (edges : List (List Nat)) (node : Nat) (targets : List Nat) :
    Option (List Nat) → Prop
  | none => ∀ target ∈ targets, Grounded edges target
  | some cycle => ClosesFrom edges node cycle

/-- Following one edge from the end of a path. -/
theorem inspect_spec {visit : List Nat → Nat → Visits → Option (List Nat) × Visits}
    (searches : Searches edges path visit) (last : path.getLast? = some node)
    (edge : Leads edges node target) (bound : target < edges.length)
    (searching : Searching edges path visits) :
    Searching edges path (inspect visit path target visits).2 ∧
    Visits.Grows visits (inspect visit path target visits).2 ∧
    Found edges node [target] (inspect visit path target visits).1 := by
  -- What the target says of itself, it says of the slot that leads to it.
  have found_of : ∀ found, Verdict edges target found → Found edges node [target] found := by
    intro found verdict
    cases found with
    | none => exact fun other member => List.mem_singleton.1 member ▸ verdict
    | some cycle => exact ClosesFrom.head edge verdict
  have bound' : target < visits.length := searching.sized.symm ▸ bound
  have here := List.getElem?_eq_getElem bound'
  rw [inspect, here, Option.getD_some]
  cases visited : visits[target] with
  | entered =>
    rw [visited] at here
    -- A slot that is being searched is on the path, so the edge closes a cycle.
    have member := (searching.entered target).1 here
    exact ⟨searching, .refl visits,
      closesFrom_closeCycle searching.nodup searching.links last edge member⟩
  | finished found =>
    rw [visited] at here
    exact ⟨searching, .refl visits, found_of found (searching.right target found here)⟩
  | unseen =>
    rw [visited] at here
    obtain ⟨searching', grows, finished⟩ := searches target visits searching here
      fun other same => Option.some_inj.1 (last.symm.trans same) ▸ edge
    exact ⟨searching', grows, found_of _ (searching'.right target _ finished)⟩

/-- Following edges from the end of a path: without a cycle all targets are grounded. -/
theorem searchEdges_spec {visit : List Nat → Nat → Visits → Option (List Nat) × Visits}
    (inside : ∀ node target, Leads edges node target → target < edges.length)
    (searches : Searches edges path visit) (last : path.getLast? = some node) {targets : List Nat}
    (leads : ∀ target ∈ targets, Leads edges node target)
    (searching : Searching edges path visits) :
    Searching edges path (searchEdges visit path targets visits).2 ∧
    Visits.Grows visits (searchEdges visit path targets visits).2 ∧
    Found edges node targets (searchEdges visit path targets visits).1 := by
  induction targets generalizing visits with
  | nil => exact ⟨searching, .refl visits, fun target none => absurd none List.not_mem_nil⟩
  | cons target rest ih =>
    have edge := leads target List.mem_cons_self
    -- The first edge is followed; only if it leads to no cycle are the others.
    obtain ⟨searching', grows, first⟩ :=
      inspect_spec searches last edge (inside node target edge) searching
    rw [searchEdges_cons]
    generalize inspect visit path target visits = result at searching' grows first
    obtain ⟨found, visits'⟩ := result
    cases found with
    | some cycle => exact ⟨searching', grows, first⟩
    | none =>
      obtain ⟨searching'', grows', later⟩ := ih
        (fun target member => leads target (List.mem_cons_of_mem _ member)) searching'
      refine ⟨searching'', grows.trans grows', ?_⟩
      dsimp only
      generalize (searchEdges visit path rest visits').1 = found at later
      cases found with
      | some cycle => exact later
      | none =>
        intro other member
        rcases List.mem_cons.1 member with rfl | member
        · exact first other List.mem_cons_self
        · exact later other member

/-- A path that leaves out a slot is shorter than the graph. -/
theorem Searching.length_lt (searching : Searching edges path visits)
    (fresh : visits[node]? = some .unseen) : path.length < edges.length := by
  have bound : node < edges.length := searching.sized ▸ (List.getElem?_eq_some_iff.1 fresh).1
  have new : node ∉ path := by
    intro member
    rw [(searching.entered node).2 member] at fresh
    cases fresh
  have nodup : (node :: path).Nodup := List.nodup_cons.2 ⟨new, searching.nodup⟩
  -- The path with the slot in front still has no slot twice.
  have within : node :: path ⊆ List.range edges.length := by
    intro other member
    rcases List.mem_cons.1 member with rfl | member
    · exact List.mem_range.2 bound
    · have there := (List.getElem?_eq_some_iff.1 ((searching.entered other).2 member)).1
      exact List.mem_range.2 (searching.sized ▸ there)
  have short := (nodup.subperm within).length_le
  rw [List.length_range, List.length_cons] at short
  exact short

/-- A slot that is searched next joins the path. -/
theorem Searching.enter (searching : Searching edges path visits)
    (fresh : visits[node]? = some .unseen)
    (edge : ∀ last, path.getLast? = some last → Leads edges last node) :
    Searching edges (path ++ [node]) (visits.set node .entered) := by
  have bound := (List.getElem?_eq_some_iff.1 fresh).1
  have new : node ∉ path := by
    intro member
    rw [(searching.entered node).2 member] at fresh
    cases fresh
  refine ⟨(List.length_set ..).trans searching.sized, fun other => ?_, ?_, ?_, ?_⟩
  -- Being searched: the slot itself, and whatever was before.
  · rw [List.mem_append, List.mem_singleton, ← searching.entered other]
    by_cases same : other = node
    · simp [same, bound]
    · rw [List.getElem?_set_ne (Ne.symm same)]
      exact (or_iff_left same).symm
  · exact List.nodup_append.2 ⟨searching.nodup, List.nodup_singleton _, by
      intro a member b one same
      exact new (List.mem_singleton.1 one ▸ same ▸ member)⟩
  · refine List.isChain_append.2 ⟨searching.links, .singleton _, ?_⟩
    intro a lastOf b firstOf
    cases firstOf
    exact edge a lastOf
  · intro other found finished
    by_cases same : other = node
    · subst same
      simp [bound] at finished
    · rw [List.getElem?_set_ne (Ne.symm same)] at finished
      exact searching.right other found finished

/-- A slot whose search is over leaves the path. -/
theorem Searching.leave {found : Option (List Nat)}
    (searching : Searching edges (path ++ [node]) visits) (verdict : Verdict edges node found) :
    Searching edges path (visits.set node (.finished found)) := by
  have here := (searching.entered node).2 (List.mem_append_right _ List.mem_cons_self)
  have bound := (List.getElem?_eq_some_iff.1 here).1
  obtain ⟨nodup, -, apart⟩ := List.nodup_append.1 searching.nodup
  refine ⟨(List.length_set ..).trans searching.sized, fun other => ?_, nodup,
    (List.isChain_append.1 searching.links).1, ?_⟩
  · by_cases same : other = node
    · subst same
      simpa [bound] using fun member => apart other member other List.mem_cons_self rfl
    · rw [List.getElem?_set_ne (Ne.symm same), searching.entered other]
      simp [same]
  · intro other found' finished
    by_cases same : other = node
    · subst same
      rw [List.getElem?_set_self bound] at finished
      cases finished
      exact verdict
    · rw [List.getElem?_set_ne (Ne.symm same)] at finished
      exact searching.right other found' finished

/-- **Searching a slot finds a cycle if and only if one can be reached from it.** -/
theorem visitSlot_spec (inside : ∀ node target, Leads edges node target → target < edges.length)
    {depth : Nat} (enough : edges.length ≤ depth + path.length) :
    Searches edges path (visitSlot edges depth) := by
  intro node visits searching fresh edge
  induction depth generalizing path node visits with
  | zero =>
    have short := searching.length_lt fresh
    omega
  | succ depth ih =>
    have bound := (List.getElem?_eq_some_iff.1 fresh).1
    have enough' : edges.length ≤ depth + (path ++ [node]).length := by
      rw [List.length_append, List.length_singleton]
      omega
    -- The slot joins the path, its edges are followed from there, and it leaves the path again.
    have searches : Searches edges (path ++ [node]) (visitSlot edges depth) :=
      fun node visits searching fresh edge => ih enough' node visits searching fresh edge
    obtain ⟨searching', grows, verdict⟩ := searchEdges_spec inside searches List.getLast?_concat
      (fun _ member => member) (searching.enter fresh edge)
    rw [visitSlot]
    dsimp only
    generalize searchEdges (visitSlot edges depth) (path ++ [node]) (edges[node]?.getD [])
      (visits.set node .entered) = result at searching' grows verdict
    obtain ⟨found, visits'⟩ := result
    have verdict' : Verdict edges node found := by
      cases found with
      | none => exact .intro verdict
      | some cycle => exact verdict
    have bound' : node < visits'.length := by rwa [searching'.sized, ← searching.sized]
    refine ⟨searching'.leave verdict', fun other seen => ?_, List.getElem?_set_self bound'⟩
    -- Whatever had been visited before is another slot than this one.
    have apart : node ≠ other := fun same => seen (same ▸ fresh)
    have same := List.getElem?_set_ne (l := visits) (a := .entered) apart
    rw [List.getElem?_set_ne apart, grows other (same ▸ seen), same]

/-- Search a slot unless it was searched. -/
def visitNext (edges : List (List Nat)) (visits : Visits) (node : Nat) : Visits :=
  match visits[node]?.getD .unseen with
  | .unseen => (visitSlot edges edges.length [] node visits).2
  | _ => visits

/-- Every slot is searched in turn. -/
theorem visitAll_eq (edges : List (List Nat)) :
    visitAll edges =
      (List.range edges.length).foldl (visitNext edges) (List.replicate edges.length .unseen) :=
  rfl

/-- Searching a slot unless it was searched finishes it. -/
theorem visitNext_spec (inside : ∀ node target, Leads edges node target → target < edges.length)
    (bound : node < edges.length) (searching : Searching edges [] visits) :
    Searching edges [] (visitNext edges visits node) ∧
    Visits.Grows visits (visitNext edges visits node) ∧
    ∃ found, (visitNext edges visits node)[node]? = some (.finished found) := by
  have bound' : node < visits.length := searching.sized.symm ▸ bound
  have here := List.getElem?_eq_getElem bound'
  rw [visitNext]
  cases visited : visits[node] with
  | entered =>
    rw [visited] at here
    -- Between searches nothing is on the path.
    exact absurd ((searching.entered node).1 here) List.not_mem_nil
  | finished found =>
    rw [visited] at here
    simp only [here, Option.getD_some]
    exact ⟨searching, .refl visits, found, rfl⟩
  | unseen =>
    rw [visited] at here
    simp only [here, Option.getD_some]
    obtain ⟨searching', grows, finished⟩ := visitSlot_spec inside (Nat.le_add_right _ _) node
      visits searching here fun last none => absurd none (by simp)
    exact ⟨searching', grows, _, finished⟩

/-- Searching slots one after the other finishes all of them. -/
theorem foldl_visitNext_spec
    (inside : ∀ node target, Leads edges node target → target < edges.length)
    {nodes : List Nat} (within : ∀ node ∈ nodes, node < edges.length)
    (searching : Searching edges [] visits) :
    Searching edges [] (nodes.foldl (visitNext edges) visits) ∧
    Visits.Grows visits (nodes.foldl (visitNext edges) visits) ∧
    ∀ node ∈ nodes, ∃ found,
      (nodes.foldl (visitNext edges) visits)[node]? = some (.finished found) := by
  induction nodes generalizing visits with
  | nil => exact ⟨searching, .refl visits, fun node none => absurd none List.not_mem_nil⟩
  | cons node rest ih =>
    obtain ⟨searching', grows, found, finished⟩ :=
      visitNext_spec inside (within node List.mem_cons_self) searching
    obtain ⟨searching'', grows', later⟩ :=
      ih (fun other member => within other (List.mem_cons_of_mem _ member)) searching'
    refine ⟨searching'', grows.trans grows', fun other member => ?_⟩
    rcases List.mem_cons.1 member with rfl | member
    · exact ⟨found, (grows' _ (by simp [finished])).trans finished⟩
    · exact later other member

/-- In the end every slot has been searched. -/
theorem visitAll_spec (inside : ∀ node target, Leads edges node target → target < edges.length) :
    Searching edges [] (visitAll edges) ∧
    ∀ node < edges.length, ∃ found, (visitAll edges)[node]? = some (.finished found) := by
  have start : Searching edges [] (List.replicate edges.length .unseen) := by
    refine ⟨List.length_replicate, fun other => ?_, .nil, .nil, fun other found finished => ?_⟩
    · simp [List.getElem?_replicate]
    · simp [List.getElem?_replicate] at finished
  obtain ⟨searching, -, finished⟩ := foldl_visitNext_spec inside
    (fun other member => List.mem_range.1 member) start
  rw [visitAll_eq]
  exact ⟨searching, fun node bound => finished node (List.mem_range.2 bound)⟩

/-- Every slot knows a cycle or that there is none. -/
theorem length_findCycles
    (inside : ∀ node target, Leads edges node target → target < edges.length) :
    (findCycles edges).length = edges.length := by
  rw [findCycles, List.length_map, (visitAll_spec inside).1.sized]

/-- **The search finds a cycle from a slot if and only if one can be reached.** -/
theorem findCycles_spec (inside : ∀ node target, Leads edges node target → target < edges.length)
    (bound : node < edges.length) :
    ∃ found, (findCycles edges)[node]? = some found ∧ Verdict edges node found := by
  obtain ⟨searching, finished⟩ := visitAll_spec inside
  obtain ⟨found, here⟩ := finished node bound
  refine ⟨found, ?_, searching.right node found here⟩
  rw [findCycles, List.getElem?_map, here]
  rfl

/-! ## The dependency order -/

namespace Graph

variable {graph : Graph} {index : Nat}

/-- Every slot has its edges. -/
theorem Linked.length_edges (linked : graph.Linked) : graph.edges.length = graph.size := by
  rw [← linked.edges.length_eq, List.length_map, size]

/-- Edges lead to slots of the graph. -/
theorem Linked.lt_length_edges (linked : graph.Linked) (node target : Nat)
    (edge : Leads graph.edges node target) : target < graph.edges.length :=
  linked.length_edges ▸ lt_size_of_mem_dependencies linked edge

/-- **A slot knows no cycle if and only if following its dependencies comes to an end.** -/
theorem cycleFrom?_eq_none_iff (linked : graph.Linked) (bound : index < graph.size) :
    graph.cycleFrom? index = none ↔ Grounded graph.edges index := by
  obtain ⟨found, here, verdict⟩ :=
    findCycles_spec linked.lt_length_edges (linked.length_edges ▸ bound)
  rw [cycleFrom?, linked.cycles, List.getElem?_map, here]
  cases found with
  | none => exact ⟨fun _ => verdict, fun _ => rfl⟩
  | some cycle =>
    constructor
    · intro none
      cases none
    · exact fun grounded => absurd grounded verdict.not_grounded

/-- The dependency order takes the first slot that is ready, again and again. -/
theorem order_eq (graph : Graph) : graph.order = orderFrom graph.edges graph.edges.length [] :=
  Sorting.placed_ofEdges graph.edges

/-- **Every slot from which following dependencies comes to an end is in the dependency order.** -/
theorem mem_order (linked : graph.Linked) (bound : index < graph.size)
    (grounded : Grounded graph.edges index) : index ∈ graph.order := by
  have full : nextReady? graph.edges graph.order = none := by
    rw [order_eq]
    exact nextReady?_orderFrom (by simp) .nil (by simp)
  induction grounded with
  | intro index _ ih =>
    by_contra left
    -- All dependencies are placed, so the slot would be ready.
    have ready := List.find?_eq_none.1 full index
      (List.mem_range.2 (linked.length_edges.symm ▸ bound))
    refine ready ?_
    simp only [decide_not, Bool.and_eq_true, Bool.not_eq_eq_eq_not, Bool.not_true,
      decide_eq_false_iff_not, List.all_eq_true, decide_eq_true_eq]
    exact ⟨left, fun target edge => ih target edge (lt_size_of_mem_dependencies linked edge)⟩

/-- A graph without a first cycle has all of its slots in dependency order. -/
theorem mem_orderedSlots (linked : graph.Linked) (none : graph.firstCycle? = none) {slot : Slot}
    (member : slot ∈ graph.slots) : slot ∈ graph.orderedSlots := by
  obtain ⟨index, bound, rfl⟩ := List.getElem_of_mem member
  have here := List.getElem?_eq_getElem bound
  have acyclic : graph.cycleFrom? index = .none := by
    rw [cycleFrom?]
    cases known : graph.cycles[index]? with
    | none => rfl
    | some cycle =>
      exact List.findSome?_eq_none_iff.1 none cycle (List.mem_of_getElem? known)
  have placed := mem_order linked bound ((cycleFrom?_eq_none_iff linked bound).1 acyclic)
  exact List.mem_filterMap.2 ⟨index, placed, here⟩

end Graph

end RuleGraph
