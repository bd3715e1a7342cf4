import RuleGraph.Execution.State

/-! # Threads

Routines on their way. A thread is what is left of a routine once it had to suspend; the threads
that compute slots for it hang below it. Threads are resumed in passes: each runs until it is
finished or suspends anew.

* **`Thread`** — a suspended or finished routine.
* **`Thread.start`** — run a routine as far as it goes.
* **`Thread.resume`** — run a thread further.
* **`Thread.wakeKey?`** — since when a thread can go on.
* **`Thread.gather`** — run threads side by side until all of them are finished.
-/

namespace RuleGraph

/-- What is left of a routine that suspended, with the mark at which it did. -/
inductive Thread where
  /-- Nothing: this is the outcome. -/
  | finished (outcome : Outcome)
  /-- It lets others go first. -/
  | resting (mark : Nat) (next : Routine)
  /-- It waits for a time. -/
  | sleeping (mark : Nat) (wakeAt : Nat) (next : Routine)
  /-- It waits for a slot that another thread computes. -/
  | waiting (mark : Nat) (index : Nat) (next : Outcome → Routine)
  /-- It computes a slot by a thread of its own. -/
  | computing (mark : Nat) (index : Nat) (body : Thread) (next : Outcome → Routine)
  /-- It runs a thread up to a time. -/
  | limited (mark : Nat) (endsAt : Nat) (body : Thread) (next : Option Outcome → Routine)
  /-- It runs threads side by side. -/
  | joining (breadth : Nat) (threads : List Thread) (next : List Outcome → Routine)
  deriving Inhabited

namespace Thread

/-- The outcome of a finished thread. -/
def outcome? : Thread → Option Outcome
  | finished outcome => some outcome
  | _ => none

/-- The outcomes of threads once all of them are finished. -/
def outcomes? (threads : List Thread) : Option (List Outcome) :=
  threads.mapM outcome?

/-- The mark of something that happens now. -/
def newMark : StateM State Nat :=
  modifyGet fun state => (state.mark, state.tick)

mutual

/-- Abandon a thread of the last slot of a path: what it waits for and what it computes. -/
def cancel (path : List Nat) : Thread → State → State
  | .waiting _ index _, state => state.removeWait path index
  | .computing _ index body _, state =>
    -- From the inside out: what the computation holds, the slot itself, the wait for it.
    ((cancel (path ++ [index]) body state).release index).removeWait path index
  | .limited _ _ body _, state => cancel path body state
  | .joining _ threads _, state => cancelAll path threads state
  | .finished _, state | .resting _ _, state | .sleeping _ _ _, state => state

/-- Abandon several threads. -/
def cancelAll (path : List Nat) : List Thread → State → State
  | [], state => state
  | thread :: rest, state => cancelAll path rest (cancel path thread state)

end

/-- Compute a slot for a request of a path, as far as it goes. `enter` starts the routine of the
slot. A finished thread has answered the request. -/
def compute (setting : Setting) (enter : List Nat → Nat → StateM State Thread)
    (path : List Nat) (index : Nat) : StateM State Thread := do
  if (← get).isOverdue setting index then
    let outcome ← modifyGet fun state => state.timeOut setting index
    modify fun state => state.answer path index outcome
    return .finished outcome
  else
    -- The slot counts as being computed before anything of its routine happens.
    modify fun state => state.begin index
    match ← enter path index with
    | .finished outcome =>
      modify fun state => state.answer path index outcome
      return .finished outcome
    | body => return body

mutual

/-- Run a routine as far as it goes on behalf of the last slot of a path. `enter` starts the
routine of a further slot. -/
def startWith (setting : Setting) (enter : List Nat → Nat → StateM State Thread)
    (path : List Nat) : Routine → StateM State Thread
  | .done outcome => return .finished outcome
  | .perform effect next => do
    modify fun state => state.perform setting effect
    startWith setting enter path next
  | .invoke function args next => do
    modify fun state => state.invoke function args
    let count := (← get).invocationCount function
    startWith setting enter path (next count)
  | .pause next => return .resting (← newMark) next
  | .sleep milliseconds next => do
    -- A sleep of no length does not suspend.
    if milliseconds = 0 then startWith setting enter path next
    else
      let wakeAt := (← get).now + milliseconds
      return .sleeping (← newMark) wakeAt next
  | .fetch index next => do
    match ← modifyGet fun state => state.request setting path index with
    | .answered outcome => startWith setting enter path (next outcome)
    | .delayed => return .waiting (← newMark) index next
    | .granted =>
      match ← compute setting enter path index with
      | .finished outcome => startWith setting enter path (next outcome)
      | body => return .computing (← newMark) index body next
  | .within milliseconds child next => do
    let endsAt := (← get).now + milliseconds
    match ← startWith setting enter path child with
    | .finished outcome => startWith setting enter path (next (some outcome))
    | body =>
      -- A limit of no length leaves it one turn.
      if milliseconds = 0 then
        modify fun state => cancel path body state
        startWith setting enter path (next none)
      else return .limited (← newMark) endsAt body next
  | .join breadth children next => do
    -- Each has its first turn before any of them is resumed.
    let threads ← startAllWith setting enter path children
    match outcomes? threads with
    | some outcomes => startWith setting enter path (next outcomes)
    | none => return .joining breadth threads next

/-- Run each of several routines as far as it goes, one after the other. -/
def startAllWith (setting : Setting) (enter : List Nat → Nat → StateM State Thread)
    (path : List Nat) : List Routine → StateM State (List Thread)
  | [] => return []
  | routine :: rest => do
    let thread ← startWith setting enter path routine
    return thread :: (← startAllWith setting enter path rest)

end

/-- Start the routine of a slot that the last slot of a path waits for. `depth` bounds how many
more slots there are; a path never holds a slot twice. -/
def enter (setting : Setting) : Nat → List Nat → Nat → StateM State Thread
  | 0, path, index => return .finished (State.cycleError setting (path ++ [index]))
  | depth + 1, path, index =>
    startWith setting (enter setting depth) (path ++ [index]) (setting.slotRoutine index)

/-- Start the routine of a slot that the last slot of a path waits for. -/
def enterFrom (setting : Setting) (path : List Nat) (index : Nat) : StateM State Thread :=
  enter setting (setting.graph.size - path.length) path index

/-- Run a routine as far as it goes on behalf of the last slot of a path. -/
def start (setting : Setting) (path : List Nat) (routine : Routine) : StateM State Thread :=
  startWith setting (enter setting (setting.graph.size - path.length)) path routine

/-- When something happened that lets a thread go on: the mark of what happened, and among threads
with the same mark the time waited for and the mark of the thread. -/
structure WakeKey where
  /-- The mark of what happened. -/
  mark : Nat
  /-- The time waited for. -/
  time : Nat
  /-- The mark of the thread. -/
  since : Nat
  deriving DecidableEq, Inhabited

namespace WakeKey

/-- The earlier of two keys: by mark, then by time, then by the mark of the thread. -/
def least (a b : WakeKey) : WakeKey :=
  if (compareLex (compareOn mark) (compareLex (compareOn time) (compareOn since)) a b).isLE then a
  else b

/-- The earlier of two keys, as far as they are there. -/
def least? : Option WakeKey → Option WakeKey → Option WakeKey
  | some a, some b => some (least a b)
  | a, b => a.or b

end WakeKey

mutual

/-- When something happened that lets a thread go on, if it did: of all threads below it, the
earliest. -/
def wakeKey? (setting : Setting) (state : State) : Thread → Option WakeKey
  | .finished _ => none
  | .resting mark _ => some ⟨mark, 0, mark⟩
  | .sleeping mark wakeAt _ =>
    if wakeAt ≤ state.now then some ⟨state.movedAt, wakeAt, mark⟩ else none
  | .waiting mark index _ =>
    match state.cell index with
    | .idle since | .settled _ since => some ⟨since, 0, mark⟩
    | .computing => none
  | .computing mark index body _ =>
    WakeKey.least? (wakeKey? setting state body) <|
      match setting.deadlineOf? index with
      | some deadline =>
        if deadline ≤ state.now then some ⟨state.movedAt, deadline, mark⟩ else none
      | none => none
  | .limited mark endsAt body _ =>
    WakeKey.least? (wakeKey? setting state body) <|
      if endsAt ≤ state.now then some ⟨state.movedAt, endsAt, mark⟩ else none
  | .joining _ threads _ => firstWakeKey? setting state threads

/-- The earliest key of several threads. -/
def firstWakeKey? (setting : Setting) (state : State) : List Thread → Option WakeKey
  | [] => none
  | thread :: rest =>
    WakeKey.least? (wakeKey? setting state thread) (firstWakeKey? setting state rest)

end

mutual

/-- The times for which a thread and those below it wait: the ends of sleeps, the deadlines of the
slots being computed, and the limits of what is abandoned after some time. -/
def timers (setting : Setting) : Thread → List Nat
  | .sleeping _ wakeAt _ => [wakeAt]
  | .computing _ index body _ => timers setting body ++ (setting.deadlineOf? index).toList
  | .limited _ endsAt body _ => timers setting body ++ [endsAt]
  | .joining _ threads _ => timersOfAll setting threads
  | .finished _ | .resting _ _ | .waiting _ _ _ => []

/-- The times for which several threads wait. -/
def timersOfAll (setting : Setting) : List Thread → List Nat
  | [] => []
  | thread :: rest => timers setting thread ++ timersOfAll setting rest

end

/-- The greatest breadth at which all threads side by side are resumed in every pass. -/
def narrowBreadth : Nat := 30

/-- The place of the thread that could go on first, among given places. -/
def firstWoken? (setting : Setting) (state : State) (threads : List Thread) (places : List Nat) :
    Option Nat :=
  let key? (place : Nat) : Option WakeKey := threads[place]? >>= wakeKey? setting state
  -- Threads with the same key go on in the order of their places.
  let earliest := places.foldl (fun found place => WakeKey.least? found (key? place)) none
  earliest >>= fun key => places.find? fun place => key? place = some key

/-- Resume the threads at given places that can go on, each at most once, the one first that could
go on first. `resumers` holds how each thread is resumed. -/
def resumeWoken (setting : Setting) (resumers : List (StateM State Thread)) :
    Nat → List Nat → List Thread → StateM State (List Thread)
  | 0, _, threads => return threads
  | count + 1, places, threads => do
    match firstWoken? setting (← get) threads places with
    | none => return threads
    | some place =>
      match resumers[place]? with
      | none => return threads
      | some resumer =>
        -- What this one does may wake others that have not had their turn.
        let thread ← resumer
        resumeWoken setting resumers count (places.erase place) (threads.set place thread)

/-- Resume threads side by side for one pass. -/
def resumeSide (setting : Setting) (breadth : Nat) (threads : List Thread)
    (resumers : List (StateM State Thread)) : StateM State (List Thread) :=
  if breadth ≤ narrowBreadth then resumers.mapM id
  else resumeWoken setting resumers threads.length (List.range threads.length) threads

mutual

/-- Run a thread of the last slot of a path further, as far as it goes. A slot whose time is over
after that is given up. -/
def resume (setting : Setting) (path : List Nat) : Thread → StateM State Thread
  | .finished outcome => return .finished outcome
  | .resting _ next => start setting path next
  | .sleeping mark wakeAt next => do
    if wakeAt ≤ (← get).now then start setting path next
    else return .sleeping mark wakeAt next
  | .waiting mark index next => do
    match (← get).cell index with
    | .settled outcome _ =>
      modify fun state => state.removeWait path index
      start setting path (next outcome)
    | .computing => return .waiting mark index next
    | .idle _ =>
      -- The computation it waited for was given up; this thread takes it over.
      match ← compute setting (enterFrom setting) path index with
      | .finished outcome => start setting path (next outcome)
      | body => return .computing (← newMark) index body next
  | .computing mark index body next => do
    match ← resume setting (path ++ [index]) body with
    | .finished outcome =>
      modify fun state => state.answer path index outcome
      start setting path (next outcome)
    | body =>
      -- The deadline is looked at only after the computation has had its turn.
      if (← get).isOverdue setting index then
        modify fun state => cancel (path ++ [index]) body state
        let outcome ← modifyGet fun state => state.timeOut setting index
        modify fun state => state.answer path index outcome
        start setting path (next outcome)
      else return .computing mark index body next
  | .limited mark endsAt body next => do
    match ← resume setting path body with
    | .finished outcome => start setting path (next (some outcome))
    | body =>
      -- So is the limit.
      if endsAt ≤ (← get).now then
        modify fun state => cancel path body state
        start setting path (next none)
      else return .limited mark endsAt body next
  | .joining breadth threads next => do
    let threads ← resumeSide setting breadth threads (resumers setting path threads)
    match outcomes? threads with
    | some outcomes => start setting path (next outcomes)
    | none => return .joining breadth threads next

/-- How each of several threads is resumed. -/
def resumers (setting : Setting) (path : List Nat) : List Thread → List (StateM State Thread)
  | [] => []
  | thread :: rest => resume setting path thread :: resumers setting path rest

end

/-- Let time pass if that is what all threads wait for: the clock moves to the earliest time that
one of them waits for. -/
def passTime (setting : Setting) (threads : List Thread) (state : State) : State :=
  -- As long as a thread can go on, no time passes.
  if (firstWakeKey? setting state threads).isSome then state
  else
    match (timersOfAll setting threads).min? with
    | some time => state.moveClock time
    | none => state

/-- Run threads of the host side by side, in at most so many passes, until all of them are
finished. -/
def gather (setting : Setting) (breadth : Nat) :
    Nat → List Thread → StateM State (Option (List Outcome))
  | 0, threads => return outcomes? threads
  | passes + 1, threads => do
    match outcomes? threads with
    | some outcomes => return some outcomes
    | none =>
      modify (passTime setting threads)
      let threads ← resumeSide setting breadth threads (resumers setting [] threads)
      gather setting breadth passes threads

end Thread

end RuleGraph
