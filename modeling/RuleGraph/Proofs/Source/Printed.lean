import RuleGraph.Proofs.Compile.Settled
import RuleGraph.Proofs.Source.Programs

/-! # Graphs are read as they are written

The text of a graph is that of a program: of the definitions of its slots, one to a line.

* **`Slot.write?_eq`** — a slot is written as its definition.
* **`Graph.parse_write`** — what is written for a graph is read as the definitions of its slots.
-/

namespace RuleGraph

namespace SlotExpr

/-- Several expressions of slots are written one by one. -/
theorem writeAll_eq_map (bodies : List SlotExpr) : writeAll bodies = bodies.map write := by
  induction bodies with
  | nil => rfl
  | cons body rest ih => rw [writeAll, List.map_cons, ih]

/-- Several expressions of slots are expressions of source one by one. -/
theorem toExprs_eq_map (bodies : List SlotExpr) : toExprs bodies = bodies.map toExpr := by
  induction bodies with
  | nil => rfl
  | cons body rest ih => rw [toExprs, List.map_cons, ih]

/-- An expression of a slot is written as the expression of source. -/
theorem write_toExpr (body : SlotExpr) : body.toExpr.write = body.write := by
  have ofAll : ∀ {bodies : List SlotExpr}, (∀ body ∈ bodies, body.toExpr.write = body.write) →
      Expr.writeAll (toExprs bodies) = writeAll bodies := by
    intro bodies each
    rw [Expr.writeAll_eq_map, writeAll_eq_map, toExprs_eq_map, List.map_map]
    exact List.map_congr_left each
  induction body with
  | const | feature => rfl
  | list items ih => rw [toExpr, Expr.write, write, ofAll ih]
  | call function args ih => rw [toExpr, Expr.write, write, ofAll ih]

end SlotExpr

/-- A slot is written as its definition. -/
theorem Slot.write?_eq (slot : Slot) : slot.write? = slot.definition?.map Definition.write := by
  have single : ∀ call : SlotExpr, commaSeparated (Expr.writeAll [call.toExpr]) = call.write := by
    intro call
    rw [Expr.writeAll, Expr.writeAll, commaSeparated, String.intercalate_singleton,
      SlotExpr.write_toExpr]
  have noArgs : (Expr.call "input" []).write = "input()" := by decide
  have ending : " := input();" = " := " ++ "input()" ++ ";" := by decide
  unfold write? definition?
  cases slot.kind with
  | input =>
    dsimp only
    rw [Option.map_some, Definition.input, Definition.write, noArgs, ending, ← String.append_assoc,
      ← String.append_assoc]
  | feature body =>
    dsimp only
    rw [Option.map_some, Definition.write, SlotExpr.write_toExpr]
  | statement feature condition call =>
    dsimp only
    rw [Option.map_some]
    cases condition with
    | none => rw [Option.map_none, Definition.write, single]
    | some condition => rw [Option.map_some, Definition.write, single, SlotExpr.write_toExpr]
  | group => rfl

/-- **What is written for a graph is read as the definitions of its slots**, if these can be
written. -/
theorem Graph.parse_write {graph : Graph}
    (writable : ∀ slot ∈ graph.slots, ∀ item ∈ slot.definition?, item.IsWritable) :
    parse graph.write = .ok (graph.slots.filterMap Slot.definition?) := by
  have lines : graph.slots.filterMap Slot.write? =
      (graph.slots.filterMap Slot.definition?).map Definition.write := by
    rw [List.map_filterMap]
    exact List.filterMap_congr fun slot _ => slot.write?_eq
  rw [write, lines, List.map_map]
  refine parse_lines fun item member => ?_
  obtain ⟨slot, inside, defined⟩ := List.mem_filterMap.1 member
  exact (writable slot inside item defined).isReadable

end RuleGraph
