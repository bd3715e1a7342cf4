import RuleGraph.Execution.State

/-! # Reports

Which slots of an execution have been computed so far, and how.

* **`Report`** — a snapshot of an execution.
* **`Report.write`** — its text.
-/

namespace RuleGraph

/-- A snapshot of what an execution has computed. -/
structure Report where
  /-- The slots with a value, in the order of the graph. -/
  resolved : List String
  /-- The slots with an error, in the order of the graph. -/
  failed : List (String × ExecutionError)
  /-- How long the execution has lasted, in milliseconds. -/
  elapsed : Nat
  /-- Whether a slot was not computed in time. -/
  hasTimedOut : Bool
  deriving DecidableEq

namespace Report

/-- The digits after the point of so many thousandths, without zeros at the end. -/
def thousandths (count : Nat) : String :=
  if count = 0 then ""
  else if count % 100 = 0 then "." ++ Numeral.natText (count / 100)
  else if count % 10 = 0 then
    "." ++ Numeral.natText (count / 100) ++ Numeral.natText (count / 10 % 10)
  else
    "." ++ Numeral.natText (count / 100) ++ Numeral.natText (count / 10 % 10)
      ++ Numeral.natText (count % 10)

/-- The text of a length of time given in milliseconds: in seconds from one second on. -/
def durationText (milliseconds : Nat) : String :=
  if milliseconds = 0 then "0ns"
  else if milliseconds < 1000 then Numeral.natText milliseconds ++ "ms"
  else Numeral.natText (milliseconds / 1000) ++ thousandths (milliseconds % 1000) ++ "s"

/-- The text of a report. -/
def write (report : Report) : String :=
  "resolved: [" ++ commaSeparated report.resolved
    ++ "], failed: [" ++ commaSeparated (report.failed.map Prod.fst) ++ "]"
    ++ (if report.hasTimedOut then ", timed out" else "")
    ++ ", elapsed: " ++ durationText report.elapsed

end Report

/-- The name of a slot and its outcome, for every slot that has one. -/
def State.outcomes (state : State) (graph : Graph) : List (String × Outcome) :=
  (List.range graph.size).filterMap fun index =>
    (state.outcome? index).map fun outcome => (graph.name index, outcome)

/-- A snapshot of a state. -/
def State.report (state : State) (setting : Setting) : Report :=
  let outcomes := state.outcomes setting.graph
  { resolved := outcomes.filterMap fun entry =>
      match entry.2 with
      | .ok _ => some entry.1
      | .error _ => none
    failed := outcomes.filterMap fun entry =>
      match entry.2 with
      | .ok _ => none
      | .error error => some (entry.1, error)
    elapsed := state.now - setting.started
    hasTimedOut := state.hasTimedOut }

end RuleGraph
