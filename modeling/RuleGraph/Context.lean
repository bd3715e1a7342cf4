import RuleGraph.Dictionary
import RuleGraph.Text.Quoted

/-! # Host contexts

What the host says about one event: a request identifier and properties, which go with every log
record of the event.

* **`Context`** — the context of an event.
* **`Context.logProps`** — its properties overlaid with those of one record.
-/

namespace RuleGraph

/-- Named properties in ascending order of their names. -/
abbrev Props := Dictionary String

/-- The text of properties: quoted names and values between braces. -/
def Props.write (props : Props) : String :=
  let member (entry : String × String) : String :=
    Text.quote entry.1 ++ ": " ++ Text.quote entry.2
  "\x7b" ++ ", ".intercalate (props.map member) ++ "\x7d"

/-- The context of an event. -/
structure Context where
  /-- The identifier of the request, if it has one. -/
  requestId : Option String := none
  /-- The properties. -/
  props : Props := []
  deriving DecidableEq, Inhabited

namespace Context

/-- The same context under another request identifier. -/
def withRequestId (context : Context) (id : String) : Context :=
  { context with requestId := some id }

/-- The same context with a property set. -/
def set (context : Context) (name value : String) : Context :=
  { context with props := Dictionary.insert name value context.props }

/-- The value of a property. -/
def get? (context : Context) (name : String) : Option String :=
  Dictionary.find? context.props name

/-- The properties of a context, with the request identifier among them, overlaid with others. -/
def logProps (context : Context) (overlay : Props) : Props :=
  let base := match context.requestId with
    | some id => Dictionary.insert "request_id" id context.props
    | none => context.props
  Dictionary.union base overlay

end Context

end RuleGraph
