import RuleGraph.Blob
import RuleGraph.Compile
import RuleGraph.Config
import RuleGraph.Executable
import RuleGraph.Execution
import RuleGraph.Graph
import RuleGraph.Graph.Sorting
import RuleGraph.Json.Reader
import RuleGraph.Json.Writer
import RuleGraph.Log
import RuleGraph.Manipulator
import RuleGraph.Proofs.Binary64.Layout
import RuleGraph.Proofs.Binary64.Magnitude
import RuleGraph.Proofs.Blob.Lengths
import RuleGraph.Proofs.Blob.Payloads
import RuleGraph.Proofs.Blob.Readers
import RuleGraph.Proofs.Blob.Refusals
import RuleGraph.Proofs.Blob.RoundTrip
import RuleGraph.Proofs.Catalog.ArgShape
import RuleGraph.Proofs.Catalog.Configuration
import RuleGraph.Proofs.Catalog.Names
import RuleGraph.Proofs.Catalog.Rearranged
import RuleGraph.Proofs.Catalog.Registered
import RuleGraph.Proofs.Catalog.Registry
import RuleGraph.Proofs.Compile.Added
import RuleGraph.Proofs.Compile.CallSites
import RuleGraph.Proofs.Compile.CanonicalOrder
import RuleGraph.Proofs.Compile.Definitions
import RuleGraph.Proofs.Compile.FixedPoint
import RuleGraph.Proofs.Compile.FreshNames
import RuleGraph.Proofs.Compile.Groups
import RuleGraph.Proofs.Compile.HookCalls
import RuleGraph.Proofs.Compile.Leftovers
import RuleGraph.Proofs.Compile.Lossless
import RuleGraph.Proofs.Compile.Lowering
import RuleGraph.Proofs.Compile.Numbering
import RuleGraph.Proofs.Compile.Plain
import RuleGraph.Proofs.Compile.Rearranged
import RuleGraph.Proofs.Compile.Renumbering
import RuleGraph.Proofs.Compile.Rewriting
import RuleGraph.Proofs.Compile.Rounds
import RuleGraph.Proofs.Compile.Settled
import RuleGraph.Proofs.Compile.Unhooked
import RuleGraph.Proofs.Effects.Draining
import RuleGraph.Proofs.Effects.History
import RuleGraph.Proofs.Effects.Queue
import RuleGraph.Proofs.Effects.Returning
import RuleGraph.Proofs.Graph.Built
import RuleGraph.Proofs.Graph.Cycles
import RuleGraph.Proofs.Graph.Grounded
import RuleGraph.Proofs.Graph.Linked
import RuleGraph.Proofs.Graph.Order
import RuleGraph.Proofs.Graph.Rearranged
import RuleGraph.Proofs.Graph.Recorded
import RuleGraph.Proofs.Graph.Sorting
import RuleGraph.Proofs.Interleaving.Conditions
import RuleGraph.Proofs.Interleaving.Deadline
import RuleGraph.Proofs.Interleaving.Deeds
import RuleGraph.Proofs.Interleaving.Fate
import RuleGraph.Proofs.Interleaving.Fits
import RuleGraph.Proofs.Interleaving.Frame
import RuleGraph.Proofs.Interleaving.Holdings
import RuleGraph.Proofs.Interleaving.Lateness
import RuleGraph.Proofs.Interleaving.Memo
import RuleGraph.Proofs.Interleaving.Outcomes
import RuleGraph.Proofs.Interleaving.Parts
import RuleGraph.Proofs.Interleaving.Passes
import RuleGraph.Proofs.Interleaving.Progress
import RuleGraph.Proofs.Interleaving.Refusals
import RuleGraph.Proofs.Interleaving.Request
import RuleGraph.Proofs.Interleaving.Schedule
import RuleGraph.Proofs.Interleaving.Session
import RuleGraph.Proofs.Interleaving.SingleFlight
import RuleGraph.Proofs.Interleaving.Start
import RuleGraph.Proofs.Interleaving.Statements
import RuleGraph.Proofs.Interleaving.Step
import RuleGraph.Proofs.Interleaving.Story
import RuleGraph.Proofs.Interleaving.Termination
import RuleGraph.Proofs.Interleaving.Within
import RuleGraph.Proofs.Laziness.Exact
import RuleGraph.Proofs.Laziness.Kept
import RuleGraph.Proofs.Laziness.Verdict
import RuleGraph.Proofs.Reference.Agreement
import RuleGraph.Proofs.Reference.Evaluate
import RuleGraph.Proofs.Reference.Fetch
import RuleGraph.Proofs.Relocation.Graph
import RuleGraph.Proofs.Relocation.Host
import RuleGraph.Proofs.Relocation.Program
import RuleGraph.Proofs.Relocation.Routine
import RuleGraph.Proofs.Relocation.State
import RuleGraph.Proofs.Relocation.Thread
import RuleGraph.Proofs.Routine.Alike
import RuleGraph.Proofs.Routine.Bound
import RuleGraph.Proofs.Routine.Calls
import RuleGraph.Proofs.Routine.Does
import RuleGraph.Proofs.Routine.Ends
import RuleGraph.Proofs.Routine.Fetches
import RuleGraph.Proofs.Routine.Relay
import RuleGraph.Proofs.Routine.Statement
import RuleGraph.Proofs.Routine.Within
import RuleGraph.Proofs.Safety.Compiled
import RuleGraph.Proofs.Safety.Policies
import RuleGraph.Proofs.Safety.References
import RuleGraph.Proofs.Safety.Regular
import RuleGraph.Proofs.Safety.Restored
import RuleGraph.Proofs.Sequence.Course
import RuleGraph.Proofs.Sequence.Heading
import RuleGraph.Proofs.Sequence.Order
import RuleGraph.Proofs.Sequence.Places
import RuleGraph.Proofs.Sequence.Reference
import RuleGraph.Proofs.Sequence.Sight
import RuleGraph.Proofs.Sequence.Sound
import RuleGraph.Proofs.Sequence.Statements
import RuleGraph.Proofs.Sequence.Walk
import RuleGraph.Proofs.Source.Adrift
import RuleGraph.Proofs.Source.Blanks
import RuleGraph.Proofs.Source.Brackets
import RuleGraph.Proofs.Source.Concatenated
import RuleGraph.Proofs.Source.Depth
import RuleGraph.Proofs.Source.Drifting
import RuleGraph.Proofs.Source.Excursions
import RuleGraph.Proofs.Source.Expressions
import RuleGraph.Proofs.Source.Extents
import RuleGraph.Proofs.Source.FirstToken
import RuleGraph.Proofs.Source.Floats
import RuleGraph.Proofs.Source.Infix
import RuleGraph.Proofs.Source.Layout
import RuleGraph.Proofs.Source.Literals
import RuleGraph.Proofs.Source.Local
import RuleGraph.Proofs.Source.Locality
import RuleGraph.Proofs.Source.Offsets
import RuleGraph.Proofs.Source.Parsed
import RuleGraph.Proofs.Source.Precedence
import RuleGraph.Proofs.Source.Printed
import RuleGraph.Proofs.Source.Programs
import RuleGraph.Proofs.Source.Reads
import RuleGraph.Proofs.Source.Results
import RuleGraph.Proofs.Source.Rewritten
import RuleGraph.Proofs.Source.Scan
import RuleGraph.Proofs.Source.Spacing
import RuleGraph.Proofs.Source.Strays
import RuleGraph.Proofs.Source.Tokens
import RuleGraph.Proofs.StandardLibrary.Calls
import RuleGraph.Proofs.StandardLibrary.Concat
import RuleGraph.Proofs.StandardLibrary.Equality
import RuleGraph.Proofs.StandardLibrary.Names
import RuleGraph.Proofs.StandardLibrary.Reprinted
import RuleGraph.Proofs.StandardLibrary.Sums
import RuleGraph.Proofs.Text.Messages
import RuleGraph.Proofs.Text.Numerals
import RuleGraph.Proofs.Value.Comparison
import RuleGraph.Proofs.Value.Unwrap
import RuleGraph.Proofs.Waits.Acyclic
import RuleGraph.Proofs.Waits.Chain
import RuleGraph.Proofs.Waits.Refused
import RuleGraph.Scripted
import RuleGraph.Slot.Source
import RuleGraph.Source.Grammar
import RuleGraph.StandardLibrary
