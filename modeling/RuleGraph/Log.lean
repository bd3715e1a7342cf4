import RuleGraph.Context
import RuleGraph.Message

/-! # Log records

* **`LogLevel`** — six levels in ascending order of severity.
* **`LogRecord`** — one record with its level, properties, format and values.
-/

namespace RuleGraph

/-- The severity of a log record. -/
inductive LogLevel where
  /-- Detailed tracing. -/
  | trace
  /-- Debugging. -/
  | debug
  /-- Information. -/
  | info
  /-- A warning. -/
  | warn
  /-- An error. -/
  | error
  /-- An error after which nothing can go on. -/
  | fatal
  deriving DecidableEq, Inhabited

namespace LogLevel

/-- All levels in ascending order. -/
def all : List LogLevel := [trace, debug, info, warn, error, fatal]

/-- The name of a level. -/
def name : LogLevel → String
  | trace => "trace"
  | debug => "debug"
  | info => "info"
  | warn => "warn"
  | error => "error"
  | fatal => "fatal"

/-- The level of a name. -/
def ofName? (text : String) : Option LogLevel :=
  all.find? fun level => level.name = text

/-- The place of a level in the order of severity. -/
def severity : LogLevel → Nat
  | trace => 0
  | debug => 1
  | info => 2
  | warn => 3
  | error => 4
  | fatal => 5

/-- Whether a level is a warning or worse. -/
def isAlarming (level : LogLevel) : Bool :=
  warn.severity ≤ level.severity

/-- The name of a level in a trace, which has no level above errors. -/
def traceName : LogLevel → String
  | trace => "TRACE"
  | debug => "DEBUG"
  | info => "INFO"
  | warn => "WARN"
  | error => "ERROR"
  | fatal => "ERROR"

end LogLevel

/-- A log record. -/
structure LogRecord where
  /-- The severity. -/
  level : LogLevel
  /-- The properties of the record. -/
  props : Props
  /-- The format of the message. -/
  format : String
  /-- The values for the places of the format. -/
  params : List Value
  deriving DecidableEq

/-- The message of a record. -/
def LogRecord.message (record : LogRecord) : String :=
  formatMessage record.format record.params

/-- The text of a record: its level in brackets and its message. -/
def LogRecord.write (record : LogRecord) : String :=
  "[" ++ record.level.name ++ "] " ++ record.message

end RuleGraph
