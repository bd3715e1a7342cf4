import RuleGraph.Proofs.Sequence.Places
import RuleGraph.Proofs.Sequence.Statements

/-! # The walk over statements

Statements that wait let others go first, but each of them does what it does at once, after what
those before it have done.

* **`State.Performs`** — what becomes of a state while statements run in some order.
* **`Setting.Tended`** — requests to which threads tend that run statements in some order.
* **`Setting.mapM_starts`**, **`Setting.resumeSide_tends`**, **`Setting.gather_tends`** — so do
  requests side by side, when they are started, in a pass, and in all passes.
* **`Setting.tended_statement`**, **`Setting.tended_group`** — requests for statements and for
  statement features.
* **`Setting.performs_groups`** — running all statement features runs every statement once.
-/

namespace RuleGraph

open Relation Routine Thread

/-- What the statement at a place does. -/
def Setting.deedsAt (setting : Setting) (results : Results) (earlier : List InvocationRecord)
    (index : Nat) : List Deed :=
  setting.graph.slots[index]?.elim [] (setting.statementDeeds results earlier)

/-! ## What becomes of a state -/

/-- What becomes of a state while the statements at some places run, one after the other: none of
them has come to an outcome before, and of the statements these come to one and no others. Of the
slots that are not plain only certain ones are computed. -/
structure State.Performs (setting : Setting) (results : Results) (touched : Nat → Prop)
    (order : List Nat) (state state' : State) : Prop where
  /-- Other slots stay as they are. -/
  cells : ∀ index, ¬setting.graph.IsPlain index → ¬touched index →
    state'.cell index = state.cell index
  /-- Calls are run. -/
  calls : ∀ index ∈ order, setting.graph.IsCallAt index
  /-- No statement is run twice. -/
  nodup : order.Nodup
  /-- A statement has no outcome if it had none and is not run. -/
  left : ∀ index, setting.graph.IsCallAt index →
    (state'.outcome? index = none ↔ state.outcome? index = none ∧ index ∉ order)
  /-- What is run had no outcome. -/
  fresh : ∀ index ∈ order, state.outcome? index = none
  /-- Others see what the statements do, one after the other. -/
  resembles : ∀ earlier, setting.executable.statementInvocations earlier =
      setting.executable.statementInvocations state.invocations →
    state'.Resembles setting.executable
      (state.actAll setting (inOrder (setting.deedsAt results) earlier order))

namespace State

variable {setting : Setting} {results : Results} {touched touched' : Nat → Prop}
  {order order' : List Nat} {state state' state'' : State} {index : Nat}

/-- The statements invoked are those of the deeds besides those before. -/
theorem Resembles.statementInvocations_eq {deeds : List Deed}
    (resembles : state'.Resembles setting.executable (state.actAll setting deeds))
    {earlier : List InvocationRecord} (same : setting.executable.statementInvocations earlier =
      setting.executable.statementInvocations state.invocations) :
    setting.executable.statementInvocations (earlier ++ deeds.filterMap Deed.invocation?) =
      setting.executable.statementInvocations state'.invocations := by
  rw [resembles.invocations, invocations_actAll]
  simp only [Executable.statementInvocations, List.filter_append] at same ⊢
  rw [same]

namespace Performs

/-- No statement runs while calls come to no outcomes. -/
theorem of_resembles (resembles : state'.Resembles setting.executable state)
    (cells : ∀ index, ¬setting.graph.IsPlain index → ¬touched index →
      state'.cell index = state.cell index)
    (left : ∀ index, setting.graph.IsCallAt index →
      (state'.outcome? index = none ↔ state.outcome? index = none)) :
    Performs setting results touched [] state state' :=
  ⟨cells, nofun, .nil, fun index call => by simp [left index call], nofun, fun _ _ => resembles⟩

/-- Nothing happens. -/
theorem refl : Performs setting results touched [] state state :=
  of_resembles .refl (fun _ _ _ => rfl) fun _ _ => .rfl

/-- No statement runs while only plain slots are computed. -/
theorem of_moves (moves : Moves setting (fun _ => False) [] state state') :
    Performs setting results touched [] state state' := by
  refine of_resembles moves.resembles (fun index other _ => moves.cells index other nofun)
    fun index call => ?_
  rw [outcome?, moves.cells index call.not_isPlain nofun, outcome?]

/-- More slots may be computed. -/
theorem mono (performs : Performs setting results touched order state state')
    (more : ∀ index, touched index → touched' index) :
    Performs setting results touched' order state state' :=
  { performs with
    cells := fun index other untouched =>
      performs.cells index other fun here => untouched (more index here) }

/-- First some statements and then others. -/
theorem trans (first : Performs setting results touched order state state')
    (second : Performs setting results touched order' state' state'') :
    Performs setting results touched (order ++ order') state state'' := by
  have before : ∀ index ∈ order', state.outcome? index = none ∧ index ∉ order := fun index later =>
    (first.left index (second.calls index later)).1 (second.fresh index later)
  refine ⟨fun index other untouched => ?_, fun index member => ?_, ?_, fun index call => ?_,
    fun index member => ?_, fun earlier same => ?_⟩
  · rw [second.cells index other untouched, first.cells index other untouched]
  · exact (List.mem_append.1 member).elim (first.calls index) (second.calls index)
  · exact List.nodup_append.2 ⟨first.nodup, second.nodup, fun index early other late same =>
      (before other late).2 (same ▸ early)⟩
  · rw [second.left index call, first.left index call, List.mem_append, not_or, and_assoc]
  · exact (List.mem_append.1 member).elim (first.fresh index) fun late => (before index late).1
  · have middle := first.resembles earlier same
    rw [inOrder_append, actAll_append]
    exact (second.resembles _ (middle.statementInvocations_eq same)).trans (middle.actAll _)

/-- What is not touched is not run. -/
theorem touched_of_mem (performs : Performs setting results touched order state state')
    (member : index ∈ order) : touched index := by
  by_contra untouched
  have call := performs.calls index member
  have same := performs.cells index call.not_isPlain untouched
  have none := performs.fresh index member
  rw [outcome?, ← same] at none
  exact ((performs.left index call).1 none).2 member

end Performs

end State

/-! ## One request after the other -/

/-- A request of the last slot of a path to which threads tend: started or resumed, they run
statements at certain places. Of the slots that are not plain they touch only certain ones, and
nothing else matters to them. -/
structure Setting.Tended (setting : Setting) (results : Results) (path : List Nat) (index : Nat)
    (touches : Nat → Prop) (places : List Nat) (tends : State → Thread → Prop) : Prop where
  /-- Plain slots are not of them. -/
  others : ∀ slot, touches slot → ¬setting.graph.IsPlain slot
  /-- Nothing else matters. -/
  stays : ∀ {state state' thread}, (∀ slot, touches slot → state'.cell slot = state.cell slot) →
    tends state thread → tends state' thread
  /-- Started, the request runs statements in the order of their places: all of them that may not
  have to wait. -/
  starts : ∀ {state}, state.IsSound setting results path →
    (∀ slot, touches slot → ∃ since, state.cell slot = .idle since) →
    ∃ thread state' order, start setting path (.fetch index .done) state = (thread, state') ∧
      state.Performs setting results touches order state' ∧
      state'.IsSound setting results path ∧ tends state' thread ∧ order.Sublist places ∧
      (∀ place ∈ places, ¬setting.MayWait place → place ∈ order) ∧ state'.now = state.now
  /-- Resumed, it runs further ones in some order. -/
  resumes : ∀ {state thread}, state.IsSound setting results path → tends state thread →
    ∃ order, state.Performs setting results touches order (resume setting path thread state).2 ∧
      (resume setting path thread state).2.IsSound setting results path ∧
      tends (resume setting path thread state).2 (resume setting path thread state).1

namespace Setting

variable {setting : Setting} {results : Results} {path indices : List Nat} {index place : Nat}
  {touches : Nat → Nat → Prop} {places : Nat → List Nat} {tends : Nat → State → Thread → Prop}
  {state : State} {threads : List Thread}

/-- Requests side by side whose answers are kept are answered by them. -/
theorem mapM_fetch_of_kept {outcomes : List Outcome}
    (kept : List.Forall₂ (fun index outcome => state.outcome? index = some outcome) indices
      outcomes) :
    (indices.map fun index => Routine.fetch index .done).mapM (start setting path) state =
      (outcomes.map .finished, state) := by
  induction kept with
  | nil => rfl
  | cons first _ ih =>
    rw [List.map_cons, List.mapM_cons]
    simp only [bind_apply, start_fetch_of_kept first, start_done, ih]
    rfl

/-- **Requests side by side run statements in the order of their places** when they are started, if
they touch different slots. -/
theorem mapM_starts
    (each : ∀ index ∈ indices,
      setting.Tended results path index (touches index) (places index) (tends index))
    (apart : indices.Pairwise fun index index' => ∀ slot, touches index slot → ¬touches index' slot)
    (sound : state.IsSound setting results path)
    (idle : ∀ index ∈ indices, ∀ slot, touches index slot →
      ∃ since, state.cell slot = .idle since) :
    ∃ threads state' order,
      (indices.map fun index => Routine.fetch index .done).mapM (start setting path) state =
        (threads, state') ∧
      state.Performs setting results (fun slot => ∃ index ∈ indices, touches index slot) order
        state' ∧
      state'.IsSound setting results path ∧
      List.Forall₂ (fun thread index => tends index state' thread) threads indices ∧
      order.Sublist (indices.flatMap places) ∧
      (∀ place ∈ indices.flatMap places, ¬setting.MayWait place → place ∈ order) ∧
      state'.now = state.now := by
  induction indices generalizing state with
  | nil => exact ⟨[], state, [], rfl, .refl, sound, .nil, .slnil, nofun, rfl⟩
  | cons index rest ih =>
    obtain ⟨beyond, apart⟩ := List.pairwise_cons.1 apart
    have own := each index List.mem_cons_self
    have later : ∀ other ∈ rest,
        setting.Tended results path other (touches other) (places other) (tends other) :=
      fun other member => each other (List.mem_cons_of_mem _ member)
    obtain ⟨thread, state', order, first, performs, sound', tending, sub, prompt, now⟩ :=
      own.starts sound (idle index List.mem_cons_self)
    -- What the first request touches is nothing that the others touch.
    obtain ⟨threads, state'', order', others, performs', sound'', tending', sub', prompt', now'⟩ :=
      ih later apart sound' fun other member slot here => by
        rw [performs.cells slot ((later other member).others slot here)
          fun touched => beyond other member slot touched here]
        exact idle other (List.mem_cons_of_mem _ member) slot here
    refine ⟨thread :: threads, state'', order ++ order', ?_, ?_, sound'', .cons ?_ tending', ?_, ?_,
      now'.trans now⟩
    · rw [List.map_cons, List.mapM_cons]
      simp only [bind_apply, first, others]
      rfl
    · refine (performs.mono fun slot here => ?_).trans (performs'.mono fun slot here => ?_)
      · exact ⟨index, List.mem_cons_self, here⟩
      · obtain ⟨other, member, touched⟩ := here
        exact ⟨other, List.mem_cons_of_mem _ member, touched⟩
    · refine own.stays (fun slot here => performs'.cells slot (own.others slot here) ?_) tending
      exact fun ⟨other, member, there⟩ => beyond other member slot here there
    · rw [List.flatMap_cons]
      exact sub.append sub'
    · intro place member waits
      rw [List.flatMap_cons] at member
      rcases List.mem_append.1 member with here | there
      · exact List.mem_append_left _ (prompt place here waits)
      · exact List.mem_append_right _ (prompt' place there waits)

/-- **Requests side by side run further statements in some order** in a pass. -/
theorem resumeSide_tends
    (each : ∀ index ∈ indices,
      setting.Tended results path index (touches index) (places index) (tends index))
    (apart : indices.Pairwise fun index index' => ∀ slot, touches index slot → ¬touches index' slot)
    (breadth : Nat) (sound : state.IsSound setting results path)
    (tending : List.Forall₂ (fun thread index => tends index state thread) threads indices) :
    ∃ order,
      state.Performs setting results (fun slot => ∃ index ∈ indices, touches index slot) order
        (resumeSide setting breadth threads (resumers setting path threads) state).2 ∧
      (resumeSide setting breadth threads (resumers setting path threads) state).2.IsSound setting
        results path ∧
      List.Forall₂ (fun thread index =>
          tends index (resumeSide setting breadth threads (resumers setting path threads) state).2
            thread)
        (resumeSide setting breadth threads (resumers setting path threads) state).1 indices := by
  refine @resumeSide_keeps setting state path (fun threads state' => ∃ order,
    state.Performs setting results (fun slot => ∃ index ∈ indices, touches index slot) order
      state' ∧ state'.IsSound setting results path ∧
    List.Forall₂ (fun thread index => tends index state' thread) threads indices) threads ?_
    breadth ⟨[], .refl, sound, tending⟩
  rintro current state' place thread - ⟨order, performs, sound, tending⟩ found
  obtain ⟨index, named, own⟩ := exists_getElem?_of_forall₂ tending found
  have member := List.mem_of_getElem? named
  obtain ⟨order', performs', sound', own'⟩ := (each index member).resumes sound own
  refine ⟨order ++ order', performs.trans (performs'.mono fun slot here => ⟨index, member, here⟩),
    sound', forall₂_set tending.length_eq (fun other same => ?_) ?_⟩
  · rw [named, Option.some_inj] at same
    exact same ▸ own'
  · -- All others have slots of their own.
    intro other thread' index' distinct found' named'
    obtain ⟨_, same, own⟩ := exists_getElem?_of_forall₂ tending found'
    rw [named', Option.some_inj] at same
    subst same
    have member' := each index' (List.mem_of_getElem? named')
    refine member'.stays (fun slot here => performs'.cells slot (member'.others slot here) ?_) own
    intro there
    obtain ⟨bound, rfl⟩ := List.getElem?_eq_some_iff.1 named
    obtain ⟨bound', rfl⟩ := List.getElem?_eq_some_iff.1 named'
    rcases Nat.lt_or_gt_of_ne distinct with before | behind
    · exact List.pairwise_iff_getElem.1 apart _ _ bound' bound before slot here there
    · exact List.pairwise_iff_getElem.1 apart _ _ bound bound' behind slot there here

/-- Letting time pass moves the clock at most. -/
theorem passTime_spec (threads : List Thread) :
    (passTime setting threads state).cells = state.cells ∧
      (passTime setting threads state).waits = state.waits ∧
      (passTime setting threads state).Resembles setting.executable state := by
  rw [passTime]
  split
  · exact ⟨rfl, rfl, .refl⟩
  · split
    · exact ⟨rfl, rfl, .moveClock _⟩
    · exact ⟨rfl, rfl, .refl⟩

/-- **Requests of the host side by side run further statements in some order**, in any number of
passes. -/
theorem gather_tends
    (each : ∀ index ∈ indices,
      setting.Tended results [] index (touches index) (places index) (tends index))
    (apart : indices.Pairwise fun index index' => ∀ slot, touches index slot → ¬touches index' slot)
    (breadth passes : Nat) (sound : state.IsSound setting results [])
    (tending : List.Forall₂ (fun thread index => tends index state thread) threads indices) :
    ∃ order threads',
      state.Performs setting results (fun slot => ∃ index ∈ indices, touches index slot) order
        (gather setting breadth passes threads state).2 ∧
      List.Forall₂ (fun thread index =>
          tends index (gather setting breadth passes threads state).2 thread) threads' indices ∧
      (gather setting breadth passes threads state).1 = outcomes? threads' := by
  induction passes generalizing state threads with
  | zero => exact ⟨[], threads, .refl, tending, rfl⟩
  | succ passes ih =>
    rw [gather]
    cases ended : outcomes? threads with
    | some outcomes => exact ⟨[], threads, .refl, tending, ended.symm⟩
    | none =>
      simp only [bind_apply, modify_apply]
      -- Only the clock moves before the threads are resumed.
      obtain ⟨cells, waits, resembles⟩ := @passTime_spec setting state threads
      have elapsed : state.Performs setting results
          (fun slot => ∃ index ∈ indices, touches index slot) []
          (passTime setting threads state) := by
        refine .of_resembles resembles (fun _ _ _ => State.cell_congr cells) fun _ _ => ?_
        rw [State.outcome?, State.cell_congr cells, State.outcome?]
      have later : List.Forall₂ (fun thread index =>
          tends index (passTime setting threads state) thread) threads indices := by
        have listed := (List.forall₂_and_left _ _).2 ⟨fun index member => member, tending.flip⟩
        refine listed.flip.imp fun thread index own => ?_
        exact (each index own.1).stays (fun _ _ => State.cell_congr cells) own.2
      obtain ⟨order, performs, sound', tending'⟩ :=
        resumeSide_tends each apart breadth (sound.congr cells waits) later
      obtain ⟨order', threads', performs', tending'', same⟩ := ih sound' tending'
      exact ⟨_, threads', (elapsed.trans performs).trans performs', tending'', same⟩

end Setting

/-! ## Statements -/

/-- A thread tends to a request for the statement at a place: it is answered, or the thread still
evaluates what the statement needs. -/
inductive Thread.TendsStatement (setting : Setting) (results : Results) (place : Nat)
    (state : State) : Thread → Prop where
  /-- The statement has come to its outcome. -/
  | answered {outcome} (kept : state.outcome? place = some outcome) :
    TendsStatement setting results place state (.finished outcome)
  /-- The statement will do what the reference says. -/
  | computing {mark body goal} (busy : state.cell place = .computing)
    (waits : setting.MayWait place) (heads : body.HeadsFor setting results place goal)
    (strikes : setting.Strikes goal fun earlier => setting.deedsAt results earlier place) :
    TendsStatement setting results place state (.computing mark place body .done)

/-- Only the cell of the statement matters. -/
theorem Thread.TendsStatement.stays {setting : Setting} {results : Results} {place : Nat}
    {state state' : State} {thread : Thread} (same : state'.cell place = state.cell place)
    (tends : thread.TendsStatement setting results place state) :
    thread.TendsStatement setting results place state' := by
  cases tends with
  | answered kept =>
    refine .answered ?_
    rw [State.outcome?, same]
    exact kept
  | computing busy waits heads strikes => exact .computing (same.trans busy) waits heads strikes

namespace Setting

variable {setting : Setting} {results : Results} {path : List Nat} {place : Nat}
  {state : State} {goal : Routine} {ran : Thread × State}

/-- A statement that has been evaluated is done at once, or its evaluation goes on. -/
theorem of_comes_statement (call : setting.graph.IsCallAt place)
    (strikes : setting.Strikes goal fun earlier => setting.deedsAt results earlier place)
    (busy : state.cell place = .computing)
    (comes : setting.Comes results (path ++ [place]) place goal state ran) :
    (∃ outcome, ran.1 = .finished outcome ∧
      state.Performs setting results (· = place) [place] (ran.2.answer path place outcome) ∧
      (ran.2.answer path place outcome).IsSound setting results path ∧
      (ran.2.answer path place outcome).outcome? place = some outcome ∧ ran.2.now = state.now) ∨
    ran.1.outcome? = none ∧ setting.MayWait place ∧ ran.1.HeadsFor setting results place goal ∧
      state.Performs setting results (· = place) [] ran.2 ∧
      ran.2.IsSound setting results path ∧ ran.2.cell place = .computing ∧
      ran.2.now = state.now := by
  have bound : place < setting.graph.size := call.lt_size
  cases comes with
  | suspended waits heads unfinished moves sound =>
    refine .inr ⟨unfinished, waits, heads, .of_moves moves, sound.beside waits, ?_, moves.now⟩
    rw [moves.cells place call.not_isPlain nofun, busy]
  | @there state' moves sound same =>
    subst same
    obtain ⟨outcome, done⟩ := strikes (path ++ [place]) state' state'.invocations rfl
    beta_reduce at done
    generalize setting.deedsAt results state'.invocations place = own at done
    rw [done]
    have acted := sound.actAll own
    have inside : place < (state'.actAll setting own).cells.length := acted.length ▸ bound
    have settled := @State.cell_answer_self (state'.actAll setting own) path place outcome inside
    have kept : ((state'.actAll setting own).answer path place outcome).outcome? place =
        some outcome := by
      rw [State.outcome?, settled]
      rfl
    have others : ∀ other, ¬setting.graph.IsPlain other → other ≠ place →
        ((state'.actAll setting own).answer path place outcome).cell other = state.cell other := by
      intro other apart different
      rw [State.cell_answer_ne different, State.cell_congr (State.cells_actAll own).1,
        moves.cells other apart nofun]
    refine .inl ⟨outcome, rfl, ⟨others, ?_, List.nodup_singleton _, ?_, ?_, ?_⟩,
      acted.answer bound fun plain => absurd plain call.not_isPlain, kept,
      (State.cells_actAll own).2.2.trans moves.now⟩
    · exact fun index member => List.mem_singleton.1 member ▸ call
    · intro index call'
      by_cases here : index = place
      · rw [here, kept]
        simp
      · rw [State.outcome?, others index call'.not_isPlain here]
        simp [here, State.outcome?]
    · intro index member
      rw [List.mem_singleton.1 member, State.outcome?, busy]
      rfl
    · intro earlier known
      have now := moves.resembles.statementInvocations_eq known
      rw [List.filterMap_nil, List.append_nil] at now
      -- What the statement does depends on the statements invoked before only.
      obtain ⟨_, done'⟩ := strikes (path ++ [place]) state' earlier now
      rw [done] at done'
      have same : state'.actAll setting own = _ := congrArg Prod.snd done'
      simp only [inOrder, List.append_nil]
      refine (State.Resembles.of_unseen .answer).trans ?_
      rw [same]
      exact moves.resembles.actAll _

section

variable (orderly : setting.IsOrderly results)
include orderly

/-- A statement of a graph in which expressions name values only plays what the reference says. -/
theorem plays_slotRoutine (reads : setting.graph.ReadsValues)
    (call : setting.graph.IsCallAt place) :
    setting.Plays results place (setting.slotRoutine place)
      fun earlier => setting.deedsAt results earlier place := by
  obtain ⟨slot, feature, function, condition, args, found, kind⟩ := call
  have listed := List.mem_of_getElem? found
  have routine : setting.slotRoutine place =
      setting.statementRoutine slot.name condition (.call function args) := by
    simp only [slotRoutine, found, kind]
  simp only [deedsAt, found]
  rw [routine]
  refine plays_statementRoutine orderly kind fun body inside =>
    ⟨fun name named => ?_, fun slow => ?_⟩
  · -- What the statement names is one of its dependencies, and plain.
    have dep := (orderly.constructed slot listed).mem_deps_of_mem_features inside named
    obtain ⟨target, there, edge⟩ := Graph.exists_indexOf?_of_mem_deps orderly.linked found dep
    have here := List.getElem?_eq_getElem (l := setting.graph.slots)
      (Graph.lt_size_of_indexOf? there)
    have value := reads slot listed body inside name named _
      (Graph.get?_eq_some_iff.2 ⟨target, there, here⟩)
    have plain := reads.isPlain orderly.linked orderly.constructed (fun _ => orderly.grounded) here
      value
    rw [fetchNamed, there, ← Graph.name_of_indexOf? there]
    exact .fetch edge plain .here
  · exact ⟨place, slot, .refl, found, body, inside, slow⟩

/-- **Threads tend to a request for a statement**, on behalf of a slot that depends on it. -/
theorem tended_statement (reads : setting.graph.ReadsValues) (way : setting.graph.IsWay path)
    (edge : ∀ slot ∈ path.getLast?, Leads setting.graph.edges slot place)
    (call : setting.graph.IsCallAt place) :
    setting.Tended results path place (· = place) [place]
      (Thread.TendsStatement setting results place) := by
  have ahead := orderly.grounded call.lt_size
  have longer := way.concat call.lt_size ahead edge
  refine ⟨fun slot here => here ▸ call.not_isPlain, fun same => .stays (same place rfl), ?_, ?_⟩
  · intro state sound idle
    obtain ⟨since, idle⟩ := idle place rfl
    obtain ⟨goal, heads, strikes⟩ := plays_slotRoutine orderly reads call
    have unknown : state.outcome? place = none := by
      rw [State.outcome?, idle]
      rfl
    have granted := sound.request way ahead (orderly.acyclic place call.lt_size) edge unknown
    rw [idle] at granted
    have waiting := sound.addWait edge
    have busy := @State.cell_begin_self (state.addWait path place) place
      (waiting.length ▸ call.lt_size)
    have begun : state.Performs setting results (· = place) []
        ((state.addWait path place).begin place) := by
      have unseen := @State.Unseen.addWait state path place
      have cells : ∀ other, other ≠ place →
          ((state.addWait path place).begin place).cell other = state.cell other :=
        fun _ apart => (State.cell_setCell_ne apart).trans (State.cell_congr State.cells_addWait)
      refine .of_resembles (.of_unseen ⟨unseen.1, unseen.2, unseen.3⟩)
        (fun other _ apart => cells other apart) fun other _ => ?_
      by_cases same : other = place
      · rw [same, unknown, State.outcome?, busy]
        simp [Cell.outcome?]
      · rw [State.outcome?, cells other same, State.outcome?]
    have comes := of_comes_statement call strikes busy
      (start_comes orderly longer List.getLast?_concat heads (waiting.begin call.lt_size))
    have now : ((state.addWait path place).begin place).now = state.now :=
      congrArg Timeline.now (@State.Unseen.addWait state path place).timeline
    rw [start_fetch_of_granted orderly.timeless longer.length_lt granted, takeUp]
    generalize start setting (path ++ [place]) (setting.slotRoutine place)
      ((state.addWait path place).begin place) = ran at comes
    obtain ⟨body, after⟩ := ran
    rcases comes with ⟨outcome, ended, performs, sound', kept, now'⟩ |
        ⟨unfinished, waits, heads', performs, sound', busy', now'⟩
    · cases ended
      refine ⟨_, _, [place], rfl, begun.trans performs, sound', .answered kept, .refl _,
        fun other member _ => member, ?_⟩
      exact (congrArg Timeline.now State.Unseen.answer.timeline).trans (now'.trans now)
    · simp only [unfinished]
      refine ⟨_, _, [], rfl, ?_, sound'.congr rfl rfl, .computing busy' waits heads' strikes,
        List.nil_sublist _, fun other member prompt => ?_, now'.trans now⟩
      · exact (begun.trans performs).trans (.of_resembles ⟨rfl, rfl, rfl⟩ (fun _ _ _ => rfl)
          fun _ _ => .rfl)
      · exact absurd (List.mem_singleton.1 member ▸ waits) prompt
  · intro state thread sound tends
    cases tends with
    | @answered outcome kept =>
      rw [resume]
      exact ⟨[], .refl, sound, .answered kept⟩
    | @computing mark body goal busy waits heads strikes =>
      have comes := of_comes_statement call strikes busy
        (resume_comes orderly longer List.getLast?_concat waits heads (sound.deeper place))
      rw [resume_computing]
      generalize resume setting (path ++ [place]) body state = ran at comes
      obtain ⟨body', after⟩ := ran
      rcases comes with ⟨outcome, ended, performs, sound', kept, -⟩ |
          ⟨unfinished, -, heads', performs, sound', busy', -⟩
      · cases ended
        exact ⟨[place], performs, sound', .answered kept⟩
      · simp only [unfinished, State.isOverdue_eq_false orderly.timeless]
        exact ⟨[], performs, sound', .computing busy' waits heads' strikes⟩

end

end Setting

/-! ## Statement features -/

/-- A thread tends to a request for a statement feature: it is answered, or threads tend to its
requests for statements. -/
inductive Thread.TendsGroup (setting : Setting) (results : Results) (group : Nat) (state : State) :
    Thread → Prop where
  /-- The statement feature and its statements have come to their outcomes. -/
  | answered {outcome} (kept : state.outcome? group = some outcome)
    (done : ∀ place ∈ setting.graph.dependencies group, state.outcome? place ≠ none) :
    TendsGroup setting results group state (.finished outcome)
  /-- Threads tend to its statements. -/
  | computing {mark breadth threads} (waits : setting.MayWait group)
    (each : List.Forall₂ (fun thread place => thread.TendsStatement setting results place state)
      threads (setting.graph.dependencies group)) :
    TendsGroup setting results group state (.computing mark group
      (.joining breadth threads fun outcomes => .done (Setting.groupOutcome outcomes)) .done)

/-- Only the cells of the statement feature and of its statements matter. -/
theorem Thread.TendsGroup.stays {setting : Setting} {results : Results} {group : Nat}
    {state state' : State} {thread : Thread}
    (same : ∀ slot, slot = group ∨ slot ∈ setting.graph.dependencies group →
      state'.cell slot = state.cell slot)
    (tends : thread.TendsGroup setting results group state) :
    thread.TendsGroup setting results group state' := by
  cases tends with
  | answered kept done =>
    refine .answered ?_ fun place edge => ?_
    · rw [State.outcome?, same group (.inl rfl)]
      exact kept
    · rw [State.outcome?, same place (.inr edge)]
      exact done place edge
  | computing waits tending =>
    have listed := (List.forall₂_and_left _ _).2 ⟨fun place edge => edge, tending.flip⟩
    exact .computing waits
      (listed.flip.imp fun thread place tends => tends.2.stays (same place (.inr tends.1)))

namespace Setting

variable {setting : Setting} {results : Results} {group : Nat} {state : State}
  {threads : List Thread} {outcomes : List Outcome}

/-- The routine of a statement feature. -/
theorem slotRoutine_group (member : group ∈ setting.graph.groupPlaces) :
    setting.slotRoutine group =
      .all ((setting.graph.dependencies group).map fun place => .fetch place .done)
        fun outcomes => .done (groupOutcome outcomes) := by
  obtain ⟨slot, found, isGroup⟩ := Graph.mem_groupPlaces.1 member
  have kind : slot.kind = .group := by
    cases kind : slot.kind <;> simp [Slot.isGroup, kind] at isGroup ⊢
  simp only [slotRoutine, found, kind]

/-- A statement feature with statements that have to wait may have to wait itself. -/
theorem mayWait_of_tendsStatement (unfinished : outcomes? threads = none)
    (each : List.Forall₂ (fun thread place => thread.TendsStatement setting results place state)
      threads (setting.graph.dependencies group)) : setting.MayWait group := by
  obtain ⟨thread, member, going⟩ := exists_unfinished unfinished
  obtain ⟨place, edge, tends⟩ := exists_mem_of_forall₂ each.flip member
  cases tends with
  | answered => cases going
  | computing busy waits => exact waits.of_leads edge

/-- What requests for its statements touch, a request for a statement feature touches. -/
theorem inside_of_dependency (group slot : Nat)
    (touched : ∃ place ∈ setting.graph.dependencies group, slot = place) :
    slot = group ∨ slot ∈ setting.graph.dependencies group := by
  obtain ⟨place, edge, rfl⟩ := touched
  exact .inr edge

/-- A statement feature whose statements are done is answered. -/
theorem answer_group (lists : setting.graph.ListsCalls)
    (member : group ∈ setting.graph.groupPlaces)
    (sound : state.IsSound setting results ([] ++ [group]))
    (ended : outcomes? threads = some outcomes)
    (each : List.Forall₂ (fun thread place => thread.TendsStatement setting results place state)
      threads (setting.graph.dependencies group)) (outcome : Outcome) :
    state.Performs setting results
        (fun slot => slot = group ∨ slot ∈ setting.graph.dependencies group) []
        (state.answer [] group outcome) ∧
      (state.answer [] group outcome).IsSound setting results [] ∧
      (Thread.finished outcome).TendsGroup setting results group
        (state.answer [] group outcome) := by
  obtain ⟨bound, other⟩ := Graph.of_mem_groupPlaces member
  have inside : group < state.cells.length := sound.length ▸ bound
  refine ⟨.of_resembles (.of_unseen .answer) (fun slot _ untouched => ?_) fun place call => ?_,
    sound.answer bound fun plain => absurd plain other, .answered ?_ fun place edge => ?_⟩
  · exact State.cell_answer_ne fun same => untouched (.inl same)
  · have apart : place ≠ group := fun same => call.not_mem_groupPlaces (same ▸ member)
    rw [State.outcome?, State.cell_answer_ne apart, State.outcome?]
  · rw [State.outcome?, State.cell_answer_self inside]
    rfl
  · have apart : place ≠ group := fun same =>
      (lists.calls group member place edge).not_mem_groupPlaces (same ▸ member)
    obtain ⟨thread, listed, tends⟩ := exists_mem_of_forall₂ each edge
    rw [outcomes?_eq_some_iff.1 ended] at listed
    obtain ⟨outcome', -, rfl⟩ := List.mem_map.1 listed
    cases tends with
    | answered kept =>
      rw [State.outcome?, State.cell_answer_ne apart, ← State.outcome?, kept]
      exact Option.some_ne_none _

/-- Requests for statement features touch different slots: a statement feature is no call, and no
call belongs to two of them. -/
theorem pairwise_groupPlaces (lists : setting.graph.ListsCalls) :
    setting.graph.groupPlaces.Pairwise fun group group' => ∀ slot,
      slot = group ∨ slot ∈ setting.graph.dependencies group →
        ¬(slot = group' ∨ slot ∈ setting.graph.dependencies group') := by
  have different : setting.graph.groupPlaces.Nodup := List.nodup_range.filter _
  have disjoint := (List.nodup_flatMap.1 lists.nodup).2
  refine (different.and disjoint).imp_of_mem fun {group group'} member member' both slot => ?_
  rintro (rfl | edge) (rfl | edge')
  · exact both.1 rfl
  · exact (lists.calls _ member' _ edge').not_mem_groupPlaces member
  · exact (lists.calls _ member _ edge).not_mem_groupPlaces member'
  · exact both.2 edge edge'

/-- If no statement had an outcome and all of them have one, all of them have been run, and each of
them once. -/
theorem perm_of_performs {order : List Nat} {state' : State} (lists : setting.graph.ListsCalls)
    (performs : state.Performs setting results (fun slot => ∃ group ∈ setting.graph.groupPlaces,
      slot = group ∨ slot ∈ setting.graph.dependencies group) order state')
    (unknown : ∀ place, state.outcome? place = none)
    (settled : ∀ group ∈ setting.graph.groupPlaces,
      ∀ place ∈ setting.graph.dependencies group, state'.outcome? place ≠ none) :
    order.Perm (setting.graph.groupPlaces.flatMap setting.graph.dependencies) := by
  refine (List.perm_ext_iff_of_nodup performs.nodup lists.nodup).2 fun place =>
    ⟨fun member => ?_, fun member => ?_⟩
  · have call := performs.calls place member
    obtain ⟨group, isGroup, here | edge⟩ := performs.touched_of_mem member
    · exact absurd (here ▸ isGroup) call.not_mem_groupPlaces
    · exact List.mem_flatMap.2 ⟨group, isGroup, edge⟩
  · obtain ⟨group, isGroup, edge⟩ := List.mem_flatMap.1 member
    by_contra missing
    exact settled group isGroup place edge
      ((performs.left place (lists.calls group isGroup place edge)).2 ⟨unknown place, missing⟩)

section

variable (orderly : setting.IsOrderly results)
include orderly

/-- The requests of a statement feature for its statements are tended to, and have slots of their
own. -/
theorem tended_dependencies (reads : setting.graph.ReadsValues) (lists : setting.graph.ListsCalls)
    (member : group ∈ setting.graph.groupPlaces) :
    setting.graph.IsWay ([] ++ [group]) ∧
    (∀ place ∈ setting.graph.dependencies group,
      setting.Tended results ([] ++ [group]) place (· = place) [place]
        (Thread.TendsStatement setting results place)) ∧
    (setting.graph.dependencies group).Pairwise fun place place' =>
      ∀ slot, slot = place → ¬slot = place' := by
  have bound := (Graph.of_mem_groupPlaces member).1
  have way := Graph.IsWay.nil.concat bound (orderly.grounded bound) nofun
  refine ⟨way, fun place edge => ?_, ?_⟩
  · refine tended_statement orderly reads way (fun slot last => ?_)
      (lists.calls group member place edge)
    rw [List.getLast?_concat, Option.mem_some_iff] at last
    exact last ▸ edge
  · exact ((List.nodup_flatMap.1 lists.nodup).1 group member).imp fun different slot here there =>
      different (here.symm.trans there)

/-- A request for a statement feature runs statements in their order when it is started. -/
theorem starts_group (reads : setting.graph.ReadsValues) (lists : setting.graph.ListsCalls)
    (member : group ∈ setting.graph.groupPlaces) (sound : state.IsSound setting results [])
    (idle : ∀ slot, slot = group ∨ slot ∈ setting.graph.dependencies group →
      ∃ since, state.cell slot = .idle since) :
    ∃ thread state' order, start setting [] (.fetch group .done) state = (thread, state') ∧
      state.Performs setting results
        (fun slot => slot = group ∨ slot ∈ setting.graph.dependencies group) order state' ∧
      state'.IsSound setting results [] ∧ thread.TendsGroup setting results group state' ∧
      order.Sublist (setting.graph.dependencies group) ∧
      (∀ place ∈ setting.graph.dependencies group, ¬setting.MayWait place → place ∈ order) ∧
      state'.now = state.now := by
  obtain ⟨way, each, apart⟩ := tended_dependencies orderly reads lists member
  have bound := (Graph.of_mem_groupPlaces member).1
  obtain ⟨since, unbegun⟩ := idle group (.inl rfl)
  have unknown : state.outcome? group = none := by
    rw [State.outcome?, unbegun]
    rfl
  have granted : state.request setting [] group = (.granted, state) := by
    rw [sound.request .nil (orderly.grounded bound) (orderly.acyclic group bound)
      (fun _ last => by cases last) unknown, unbegun]
    rfl
  have others : ∀ slot, setting.graph.IsCallAt slot →
      (state.begin group).cell slot = state.cell slot :=
    fun slot call => State.cell_setCell_ne fun same => call.not_mem_groupPlaces (same ▸ member)
  have begun : state.Performs setting results
      (fun slot => slot = group ∨ slot ∈ setting.graph.dependencies group) []
      (state.begin group) := by
    refine .of_resembles ⟨rfl, rfl, rfl⟩
      (fun slot _ apart => State.cell_setCell_ne fun same => apart (.inl same)) fun place call => ?_
    rw [State.outcome?, others place call, State.outcome?]
  obtain ⟨threads, state', order, ran, performs, sound', tending, sub, prompt, now⟩ :=
    mapM_starts each apart (sound.begin bound) fun place edge slot here => by
      rw [here, others place (lists.calls group member place edge)]
      exact idle place (.inr edge)
  have performs := begun.trans (performs.mono (inside_of_dependency group))
  rw [List.flatMap_singleton'] at sub prompt
  rw [start_fetch_of_granted orderly.timeless way.length_lt granted, takeUp,
    slotRoutine_group member, all, start_join ran]
  cases ended : outcomes? threads with
  | some outcomes =>
    obtain ⟨performs', sound'', tends⟩ :=
      answer_group lists member sound' ended tending (groupOutcome outcomes)
    have whole := performs.trans performs'
    rw [List.append_nil] at whole
    exact ⟨_, _, order, rfl, whole, sound'', tends, sub, prompt,
      (congrArg Timeline.now State.Unseen.answer.timeline).trans now⟩
  | none =>
    have waits := mayWait_of_tendsStatement ended tending
    have ticked : state'.Performs setting results
        (fun slot => slot = group ∨ slot ∈ setting.graph.dependencies group) [] state'.tick :=
      .of_resembles ⟨rfl, rfl, rfl⟩ (fun _ _ _ => rfl) fun _ _ => .rfl
    have whole := performs.trans ticked
    rw [List.append_nil] at whole
    have tends : Thread.TendsGroup setting results group state' (.computing state'.mark group
        (.joining (setting.graph.dependencies group).length threads fun outcomes =>
          .done (groupOutcome outcomes)) .done) :=
      .computing waits tending
    have cells : ∀ slot, state'.tick.cell slot = state'.cell slot := fun _ => rfl
    simp only [List.length_map]
    exact ⟨_, state'.tick, order, rfl, whole, (sound'.beside waits).congr rfl rfl,
      tends.stays fun slot _ => cells slot, sub, prompt, now⟩

/-- **Threads tend to a request of the host for a statement feature.** -/
theorem tended_group (reads : setting.graph.ReadsValues) (lists : setting.graph.ListsCalls)
    (member : group ∈ setting.graph.groupPlaces) :
    setting.Tended results [] group
      (fun slot => slot = group ∨ slot ∈ setting.graph.dependencies group)
      (setting.graph.dependencies group) (Thread.TendsGroup setting results group) := by
  obtain ⟨way, each, apart⟩ := tended_dependencies orderly reads lists member
  refine ⟨fun slot here => ?_, .stays, starts_group orderly reads lists member,
    fun {state thread} sound tends => ?_⟩
  · rcases here with rfl | edge
    · exact (Graph.of_mem_groupPlaces member).2
    · exact (lists.calls group member slot edge).not_isPlain
  cases tends with
  | @answered outcome kept done =>
    rw [resume]
    exact ⟨[], .refl, sound, .answered kept done⟩
  | @computing mark breadth threads waits tending =>
    obtain ⟨order, performs, sound', tending'⟩ :=
      resumeSide_tends each apart breadth (sound.deeper group) tending
    have performs := performs.mono (inside_of_dependency group)
    rw [resume_computing, resume_joining]
    generalize resumeSide setting breadth threads (resumers setting ([] ++ [group]) threads) state =
      ran at performs sound' tending'
    obtain ⟨threads', after⟩ := ran
    cases ended : outcomes? threads' with
    | some outcomes =>
      obtain ⟨performs', sound'', tends⟩ :=
        answer_group lists member sound' ended tending' (groupOutcome outcomes)
      simp only [ended]
      exact ⟨_, performs.trans performs', sound'', tends⟩
    | none =>
      simp only [ended, outcome?, State.isOverdue_eq_false orderly.timeless]
      exact ⟨order, performs, sound'.beside waits, .computing waits tending'⟩

/-- **All requests for statement features run their statements in some order.** When they are
started, all statements run that may not have to wait, in the order of the graph; and in the passes
that follow, the others run, each of them once. -/
theorem performs_groups (reads : setting.graph.ReadsValues) (lists : setting.graph.ListsCalls)
    (sound : state.IsSound setting results [])
    (idle : ∀ slot, ∃ since, state.cell slot = .idle since) :
    ∃ threads state' first,
      (setting.graph.groupPlaces.map fun index => Routine.fetch index .done).mapM
        (start setting []) state = (threads, state') ∧
      first.Sublist (setting.graph.groupPlaces.flatMap setting.graph.dependencies) ∧
      (∀ place ∈ setting.graph.groupPlaces.flatMap setting.graph.dependencies,
        ¬setting.MayWait place → place ∈ first) ∧
      (outcomes? threads = none → ∃ group, setting.MayWait group) ∧ state'.now = state.now ∧
      ∀ breadth passes outcomes last, gather setting breadth passes threads state' =
          (some outcomes, last) →
        ∃ later, (first ++ later).Perm
            (setting.graph.groupPlaces.flatMap setting.graph.dependencies) ∧
          last.Resembles setting.executable (state.actAll setting
            (inOrder (setting.deedsAt results) state.invocations (first ++ later))) ∧
          List.Forall₂ (fun group outcome => last.outcome? group = some outcome)
            setting.graph.groupPlaces outcomes := by
  have each : ∀ group ∈ setting.graph.groupPlaces, setting.Tended results [] group _ _ _ :=
    fun _ member => tended_group orderly reads lists member
  have apart := pairwise_groupPlaces lists
  obtain ⟨threads, state', first, ran, performs, sound', tending, sub, prompt, now⟩ :=
    mapM_starts each apart sound fun group _ slot _ => idle slot
  refine ⟨threads, state', first, ran, sub, prompt, fun unfinished => ?_, now,
    fun breadth passes outcomes last done => ?_⟩
  · obtain ⟨thread, member, going⟩ := exists_unfinished unfinished
    obtain ⟨group, -, tends⟩ := exists_mem_of_forall₂ tending.flip member
    cases tends with
    | answered => cases going
    | computing waits => exact ⟨group, waits⟩
  obtain ⟨later, threads', performs', tending', same⟩ :=
    gather_tends each apart breadth passes sound' tending
  rw [done] at performs' tending' same
  rw [outcomes?_eq_some_iff.1 same.symm, List.forall₂_map_left_iff] at tending'
  have performs := performs.trans performs'
  -- What was requested is answered, and with a statement feature are its statements.
  have settled : ∀ group outcome, (Thread.finished outcome).TendsGroup setting results group last →
      last.outcome? group = some outcome ∧
        ∀ place ∈ setting.graph.dependencies group, last.outcome? place ≠ none :=
    fun group outcome tends => by cases tends with | answered kept done => exact ⟨kept, done⟩
  refine ⟨later, perm_of_performs lists performs (fun place => ?_) fun group isGroup => ?_,
    performs.resembles state.invocations rfl,
    tending'.flip.imp fun group outcome tends => (settled group outcome tends).1⟩
  · obtain ⟨since, unbegun⟩ := idle place
    rw [State.outcome?, unbegun]
    rfl
  · obtain ⟨outcome, -, tends⟩ := exists_mem_of_forall₂ tending' isGroup
    exact (settled group outcome tends).2

end

end Setting

end RuleGraph
