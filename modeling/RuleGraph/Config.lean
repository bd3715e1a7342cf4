import RuleGraph.Json.Reader

/-! # Engine configuration

Defaults for every execution of a compiled program and for its compilation, read from a JSON
document: an object whose unknown members are passed over, or an array of the settings in order.

* **`EngineConfig`** — the settings, with their defaults.
* **`EngineConfig.ofText?`** — the settings of a document.
* **`EngineConfig.toJson`** — the settings as JSON.
-/

namespace RuleGraph

/-- What becomes of an input that no input slot is named after. -/
inductive UnknownInputs where
  /-- It is dropped. -/
  | ignore
  /-- The execution does not start. -/
  | reject
  deriving DecidableEq, Inhabited

namespace UnknownInputs

/-- The name of a policy. -/
def name : UnknownInputs → String
  | ignore => "ignore"
  | reject => "reject"

/-- The policy of a name. -/
def ofName? (text : String) : Option UnknownInputs :=
  [ignore, reject].find? fun policy => policy.name = text

end UnknownInputs

/-- Defaults for executions and compilation. -/
structure EngineConfig where
  /-- How long an execution may compute features, in milliseconds; without limit if absent. -/
  featureTimeout : Option Nat := none
  /-- What becomes of unknown inputs. -/
  unknownInputs : UnknownInputs := .ignore
  /-- How many passes may rewrite one expression. -/
  rewriteLimit : Nat := 32
  /-- Configuration for registered functions. -/
  functions : Json := .null
  deriving Inhabited

namespace EngineConfig

open Json

/-- A natural number below `2 ^ 64`. -/
def wordOf? : Json → Option Nat
  | .int n => if 0 ≤ n then some n.toNat else none
  | _ => none

/-- A timeout: a number of milliseconds, or null for none. -/
def readTimeout : Reader (Option Nat) := do
  match ← value with
  | .null => return none
  | number => return some (← wordOf? number)

/-- A natural number. -/
def readLimit : Reader Nat := do
  wordOf? (← value)

/-- The name of a policy, or an object with that name as its only member and null as its value. -/
def readPolicy : Reader UnknownInputs := do
  spaces
  let c ← anyChar
  if c = '"' then UnknownInputs.ofName? (← quoted)
  else if c = '\x7b' then
    let name ← memberName
    let .null ← value | failure
    spaces
    exactly '\x7d'
    UnknownInputs.ofName? name
  else failure

/-- A setting as it is read: which one it is, and its value. -/
inductive Setting where
  /-- The timeout. -/
  | featureTimeout (value : Option Nat)
  /-- The policy for unknown inputs. -/
  | unknownInputs (value : UnknownInputs)
  /-- The limit of rewriting. -/
  | rewriteLimit (value : Nat)
  /-- The configuration of functions. -/
  | functions (value : Json)
  /-- A member that is no setting. -/
  | other

/-- The name of a setting in an object, and its place in an array. -/
def Setting.position? : Setting → Option Nat
  | .featureTimeout _ => some 0
  | .unknownInputs _ => some 1
  | .rewriteLimit _ => some 2
  | .functions _ => some 3
  | .other => none

/-- The reader of the setting with a given name; others are passed over. -/
def readNamed (name : String) : Reader Setting :=
  if name = "feature_timeout" then return .featureTimeout (← readTimeout)
  else if name = "unknown_inputs" then return .unknownInputs (← readPolicy)
  else if name = "max_transform_depth" then return .rewriteLimit (← readLimit)
  else if name = "functions" then return .functions (← valueWithin (depthLimit - 1))
  else do skipped; return .other

/-- The names of the settings in the order in which an array lists them. -/
def settingNames : List String :=
  ["feature_timeout", "unknown_inputs", "max_transform_depth", "functions"]

/-- A configuration with one setting replaced. -/
def apply (config : EngineConfig) : Setting → EngineConfig
  | .featureTimeout value => { config with featureTimeout := value }
  | .unknownInputs value => { config with unknownInputs := value }
  | .rewriteLimit value => { config with rewriteLimit := value }
  | .functions value => { config with functions := value }
  | .other => config

/-- A member of an object: its name and the setting. -/
def readMember : Reader Setting := do
  let name ← memberName
  readNamed name

/-- The settings that an array gives, in order, up to its closing bracket; `isFirst` says that no
comma is due yet. -/
def readInOrder (isFirst : Bool) : List String → Reader (List Setting)
  | [] => do spaces; exactly ']'; return []
  | name :: names => do
    spaces
    if ← optionally ']' then return []
    else
      if !isFirst then exactly ','
      let setting ← readNamed name
      return setting :: (← readInOrder false names)

/-- The settings of a document. A setting may be given only once. -/
def readSettings : Reader (List Setting) := do
  spaces
  let c ← anyChar
  if c = '\x7b' then
    let settings ← items '\x7d' readMember
    let positions := settings.filterMap Setting.position?
    if positions.Nodup then return settings else failure
  else if c = '[' then readInOrder true settingNames
  else failure

/-- The configuration of a JSON document. -/
def ofText? (text : String) : Option EngineConfig :=
  (readAll readSettings text.toList).map fun settings => settings.foldl apply {}

/-- A configuration as JSON. -/
def toJson (config : EngineConfig) : Json :=
  ofMembers [("feature_timeout", (config.featureTimeout.map Json.ofNat).getD .null),
    ("unknown_inputs", .text config.unknownInputs.name),
    ("max_transform_depth", .ofNat config.rewriteLimit), ("functions", config.functions)]

end EngineConfig

end RuleGraph
