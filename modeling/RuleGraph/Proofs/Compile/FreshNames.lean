import RuleGraph.Proofs.Compile.HookCalls
import RuleGraph.Proofs.Compile.Leftovers
import RuleGraph.Proofs.Graph.Order
import RuleGraph.Proofs.Text.Numerals

/-! # The names that hooks are given

A hook that asks for a name gets the first one of its stem that no feature has, and no name is given
out twice. Statements are named in the same way, with their statement feature for a stem, and they
are not looked at: they are all that a name that was given out may clash with.

* **`CompileState.freshName_eq`** — the name that is given out.
* **`CompileState.Calls.nodup_generated`** — no name is given out twice.
* **`linkSlots_eq_duplicateFeature_iff`** — names that are used twice are found when slots are
  linked.
* **`map_name_definitions`** — the features of a lowered program.
* **`generated_names_fresh`** — what comes of the names that are given out.
-/

namespace RuleGraph

/-! ## Numbers -/

/-- What stands behind the last mark of a numbered name are the digits of the number. -/
theorem takeWhile_numbered (stem : String) (number : Nat) :
    (CompileState.numbered stem number).toList.reverse.takeWhile (· ≠ '#') =
      (Numeral.digits number).reverse := by
  have digits : ∀ c ∈ (Numeral.digits number).reverse, (decide (c ≠ '#')) = true := by
    intro c member
    have isDigit := Numeral.isDigit_of_mem_digits (List.mem_reverse.1 member)
    refine decide_eq_true fun same => ?_
    rw [same] at isDigit
    exact absurd isDigit (by decide)
  have parts : (CompileState.numbered stem number).toList.reverse =
      (Numeral.digits number).reverse ++ '#' :: stem.toList.reverse := by
    rw [CompileState.numbered, String.toList_append, String.toList_append, List.reverse_append,
      List.reverse_append, Numeral.natText, String.toList_ofList]
    rfl
  rw [parts, List.takeWhile_append_of_pos digits, List.takeWhile_cons_of_neg (by decide),
    List.append_nil]

/-- Names with different numbers are different, whatever their stems are. -/
theorem number_eq_of_numbered_eq {stem stem' : String} {number number' : Nat}
    (same : CompileState.numbered stem number = CompileState.numbered stem' number') :
    number = number' := by
  have digits := takeWhile_numbered stem number
  rw [same, takeWhile_numbered, List.reverse_inj] at digits
  rw [← Numeral.ofDigits_digits number, ← digits, Numeral.ofDigits_digits]

namespace CompileState

variable {state state' : CompileState} {stem name : String} {calls : List HookCall}

/-- A search for a number passes over names that are defined, and stops at one that is not unless it
has looked at as many numbers as it may. -/
theorem freeNumber_spec (steps number : Nat) :
    number ≤ state.freeNumber stem steps number ∧
      (∀ smaller, number ≤ smaller → smaller < state.freeNumber stem steps number →
        numbered stem smaller ∈ state.defined) ∧
      (numbered stem (state.freeNumber stem steps number) ∉ state.defined ∨
        state.freeNumber stem steps number = number + steps) := by
  induction steps generalizing number with
  | zero => exact ⟨Nat.le_refl _, fun smaller above below => absurd below (Nat.not_lt.2 above), .inr rfl⟩
  | succ steps ih =>
    rw [freeNumber]
    split
    · rename_i taken
      obtain ⟨above, passed, stopped⟩ := ih (number + 1)
      refine ⟨Nat.le_of_succ_le above, fun smaller from_ below => ?_, stopped.imp id fun last => ?_⟩
      · rcases Nat.eq_or_lt_of_le from_ with rfl | later
        · exact of_decide_eq_true taken
        · exact passed smaller later below
      · rw [last]
        omega
    · rename_i free
      exact ⟨Nat.le_refl _, fun smaller above below => absurd below (Nat.not_lt.2 above),
        .inl fun taken => free (decide_eq_true taken)⟩

/-- **The name that is given out** has the first number, from the counter on, whose name is not
defined; there is one, and the counter moves past it. -/
theorem freshName_eq (state : CompileState) (stem : String) :
    ∃ number, state.freshName stem =
        (numbered stem number, { state with counter := number + 1 }) ∧
      state.counter ≤ number ∧ numbered stem number ∉ state.defined ∧
      ∀ smaller, state.counter ≤ smaller → smaller < number →
        numbered stem smaller ∈ state.defined := by
  obtain ⟨above, passed, stopped⟩ :=
    @freeNumber_spec state stem state.defined.length state.counter
  refine ⟨_, rfl, above, ?_, passed⟩
  rcases stopped with free | last
  · exact free
  · -- If all were taken, more names would be defined than there are.
    intro taken
    have inside : (List.range' state.counter (state.defined.length + 1)).map (numbered stem) ⊆
        state.defined := by
      intro name member
      obtain ⟨number, within, rfl⟩ := List.mem_map.1 member
      rw [List.mem_range'_1] at within
      rcases Nat.lt_or_ge number (state.counter + state.defined.length) with below | past
      · exact passed number within.1 (last ▸ below)
      · obtain rfl : number = state.counter + state.defined.length := by omega
        exact last ▸ taken
    have distinct : ((List.range' state.counter (state.defined.length + 1)).map
        (numbered stem)).Nodup :=
      List.Nodup.map (fun _ _ => number_eq_of_numbered_eq) List.nodup_range'
    have few := (distinct.subperm inside).length_le
    rw [List.length_map, List.length_range'] at few
    omega

end CompileState

/-! ## Calls -/

/-- Whether a call is answered as a state demands. -/
def HookCall.IsAnswered (state : CompileState) : HookCall → Prop
  | .fresh stem name => name = (state.freshName stem).1
  | .define name _ accepted => accepted = true ↔ name ∉ state.defined

/-- Defining a feature does not move the counter. -/
theorem CompileState.counter_of_define {state between : CompileState} {name : String} {body : Expr}
    (defined : state.define name body = .ok between) : between.counter = state.counter := by
  rw [define] at defined
  split at defined
  · cases defined
  · cases defined
    rfl

namespace CompileState.Calls

variable {state state' : CompileState} {calls : List HookCall} {name : String}

/-- The names that are given out have numbers from the counter on. -/
theorem exists_number (made : state.Calls calls state') (given : name ∈ HookCall.generated calls) :
    ∃ stem number, name = numbered stem number ∧ state.counter ≤ number := by
  induction made with
  | done => cases given
  | taken _ ih => exact ih given
  | @fresh state _ _ stem _ ih =>
    obtain ⟨number, same, above, -, -⟩ := state.freshName_eq stem
    rw [HookCall.generated_fresh, List.mem_cons] at given
    rcases given with rfl | later
    · exact ⟨stem, number, congrArg Prod.fst same, above⟩
    · obtain ⟨stem', number', named, above'⟩ := ih later
      rw [same] at above'
      exact ⟨stem', number', named, Nat.le_trans above (Nat.le_of_succ_le above')⟩
  | accepted defined _ ih =>
    obtain ⟨stem, number, named, above⟩ := ih given
    exact ⟨stem, number, named, counter_of_define defined ▸ above⟩
  | refused _ _ ih => exact ih given

/-- A name that is given out was not defined before. -/
theorem not_mem_defined (made : state.Calls calls state')
    (given : name ∈ HookCall.generated calls) : name ∉ state.defined := by
  induction made with
  | done => cases given
  | taken _ ih => exact ih given
  | @fresh state _ _ stem _ ih =>
    obtain ⟨number, same, -, free, -⟩ := state.freshName_eq stem
    rw [HookCall.generated_fresh, List.mem_cons] at given
    rcases given with rfl | later
    · rwa [same]
    · exact ih later
  | accepted defined _ ih =>
    refine fun old => ih given ?_
    rw [(adds_of_define defined).defined]
    exact List.mem_append_right _ old
  | refused _ _ ih => exact ih given

/-- **No name is given out twice.** -/
theorem nodup_generated (made : state.Calls calls state') : (HookCall.generated calls).Nodup := by
  induction made with
  | done => exact .nil
  | taken _ ih => exact ih
  | @fresh state _ _ stem later ih =>
    obtain ⟨number, same, -, -, -⟩ := state.freshName_eq stem
    rw [HookCall.generated_fresh]
    refine List.nodup_cons.2 ⟨fun again => ?_, ih⟩
    -- The counter has moved past the number.
    obtain ⟨stem', number', named, above⟩ := later.exists_number again
    rw [same] at named above
    exact Nat.ne_of_lt above (number_eq_of_numbered_eq named)
  | accepted _ _ ih => exact ih
  | refused _ _ ih => exact ih

/-- Every call is answered as the state that it is made in demands. -/
theorem exists_isAnswered (made : state.Calls calls state') {earlier later : List HookCall}
    {call : HookCall} (whole : calls = earlier ++ call :: later) :
    ∃ between, state.Calls earlier between ∧ call.IsAnswered between := by
  induction made generalizing earlier with
  | done => simp at whole
  | taken _ ih =>
    obtain ⟨between, made, answered⟩ := ih whole
    exact ⟨between, .taken made, answered⟩
  | fresh _ ih =>
    cases earlier with
    | nil =>
      cases whole
      exact ⟨_, .done, rfl⟩
    | cons first rest =>
      cases whole
      obtain ⟨between, made, answered⟩ := ih rfl
      exact ⟨between, .fresh made, answered⟩
  | accepted defined _ ih =>
    cases earlier with
    | nil =>
      cases whole
      refine ⟨_, .done, iff_of_true rfl fun old => ?_⟩
      rw [define, isDefined, if_pos (decide_eq_true old)] at defined
      cases defined
    | cons first rest =>
      cases whole
      obtain ⟨between, made, answered⟩ := ih rfl
      exact ⟨between, .accepted defined made, answered⟩
  | refused failed _ ih =>
    cases earlier with
    | nil =>
      cases whole
      refine ⟨_, .done, iff_of_false Bool.false_ne_true fun fresh => ?_⟩
      rw [define, isDefined, if_neg (mt of_decide_eq_true fresh)] at failed
      cases failed
    | cons first rest =>
      cases whole
      obtain ⟨between, made, answered⟩ := ih rfl
      exact ⟨between, .refused failed made, answered⟩

end CompileState.Calls

/-! ## Linking -/

namespace Graph

/-- The first duplicate is a name that is used twice, or one that was seen before. -/
theorem of_firstDuplicate? {seen names : List String} {name : String}
    (found : firstDuplicate? seen names = some name) :
    name ∈ names ∧ name ∈ seen ∨ 2 ≤ names.count name := by
  induction names generalizing seen with
  | nil => cases found
  | cons first rest ih =>
    rw [firstDuplicate?] at found
    split at found
    · rename_i old
      cases found
      exact .inl ⟨List.mem_cons_self, old⟩
    · rcases ih found with ⟨later, seen⟩ | twice
      · rcases List.mem_cons.1 seen with rfl | old
        · rw [List.count_cons_self]
          exact .inr (Nat.succ_le_succ (List.count_pos_iff.2 later))
        · exact .inl ⟨List.mem_cons_of_mem _ later, old⟩
      · exact .inr (Nat.le_trans twice (List.count_le_count_cons))

/-- No name is said to be used twice where all names are distinct. -/
theorem ofSlots_ne_duplicateFeature {slots : List Slot} {name : String}
    (distinct : firstDuplicate? [] (slots.map Slot.name) = none) :
    ofSlots slots ≠ .error (.duplicateFeature name) := by
  intro failed
  rw [ofSlots, distinct] at failed
  rcases bind_eq_error_iff.1 failed with failed | ⟨_, -, failed⟩
  · obtain ⟨slot, -, failed⟩ := exists_of_mapM_eq_error failed
    obtain ⟨dep, -, failed⟩ := exists_of_mapM_eq_error failed
    split at failed <;> cases failed
  · cases failed

end Graph

/-- **Linking finds names that are used twice**, and says so of the first one. -/
theorem linkSlots_eq_duplicateFeature_iff {slots : List Slot} {name : String} :
    linkSlots slots = .error (.duplicateFeature name) ↔
      Graph.firstDuplicate? [] (slots.map Slot.name) = some name := by
  constructor
  · intro failed
    cases distinct : Graph.firstDuplicate? [] (slots.map Slot.name) with
    | some other =>
      rw [linkSlots, Graph.ofSlots, distinct] at failed
      cases failed
      rfl
    | none =>
      -- Slots in order have the names that they had before.
      rcases bind_eq_error_iff.1 failed with failed | ⟨graph, made, failed⟩
      · exact absurd failed (Graph.ofSlots_ne_duplicateFeature distinct)
      · split at failed
        · cases failed
        · obtain ⟨-, linked⟩ := Graph.linked_of_ofSlots made
          refine absurd failed (Graph.ofSlots_ne_duplicateFeature ?_)
          exact Graph.firstDuplicate?_eq_none (Graph.nodup_orderedSlots linked) fun _ _ =>
            List.not_mem_nil
  · intro found
    rw [linkSlots, Graph.ofSlots, found]
    rfl

/-! ## The features of a lowered program -/

variable {scope : Scope} {limit rounds : Nat} {program : Program} {slots : List Slot}

/-- The names of the features among slots, in order: of those that are no statements and no
statement features. -/
def definedNames (slots : List Slot) : List String :=
  (slots.filter fun slot => !slot.isStatement).map Slot.name

/-- Features among slots come one after the other. -/
theorem definedNames_append (slots others : List Slot) :
    definedNames (slots ++ others) = definedNames slots ++ definedNames others := by
  rw [definedNames, List.filter_append, List.map_append]
  rfl

/-- Among statements and statement features there is no feature. -/
theorem definedNames_eq_nil (all : ∀ slot ∈ slots, slot.isStatement = true) :
    definedNames slots = [] := by
  rw [definedNames, List.map_eq_nil_iff, List.filter_eq_nil_iff]
  intro slot member
  rw [all slot member]
  exact Bool.false_ne_true

/-- The slot of a feature is a feature. -/
theorem definedNames_of_lowerFeature {name : String} {body : Expr} {slot : Slot}
    (made : lowerFeature scope name body = .ok slot) : definedNames [slot] = [name] := by
  rcases lowerFeature_eq_ok made with ⟨-, rfl⟩ | ⟨value, -, rfl⟩ <;> rfl

/-- The slots of statements are no features. -/
theorem definedNames_of_statements {condition : Option SlotExpr} {calls : List Expr}
    (each : List.Forall₂ (Slot.IsStatementOf scope limit condition) calls slots) :
    definedNames slots = [] := by
  induction each with
  | nil => rfl
  | @cons _ slot _ _ first _ ih =>
    obtain ⟨feature, call, kind⟩ := first.exists_kind
    have single : slot.isSingleStatement = true := by rw [Slot.isSingleStatement, kind]
    rw [← List.singleton_append, definedNames_append, ih, List.append_nil]
    refine definedNames_eq_nil (List.forall_mem_singleton.2 ?_)
    rw [Slot.isStatement, single, Bool.true_or]

/-- The features among the slots of definitions are those that the program defines. -/
theorem definedNames_of_hasSlots {defined : List (List Slot)}
    (each : List.Forall₂ (Definition.HasSlots scope limit) program defined) :
    definedNames defined.flatten = program.featureNames := by
  induction each with
  | nil => rfl
  | cons first _ ih =>
    rw [List.flatten_cons, definedNames_append, ih]
    cases first with
    | feature rewritten made =>
      rw [definedNames_of_lowerFeature made]
      rfl
    | always each => exact congrArg (· ++ _) (definedNames_of_statements each)
    | rule rewritten lowers each => exact congrArg (· ++ _) (definedNames_of_statements each)

/-- The slots of features that hooks define are features. -/
theorem definedNames_of_isFeatureOf {features : List (String × Expr)}
    (each : List.Forall₂ (Slot.IsFeatureOf scope limit) features slots) :
    definedNames slots = features.map Prod.fst := by
  induction each with
  | nil => rfl
  | @cons feature slot _ slots first _ ih =>
    cases first with
    | feature rewritten made =>
      rw [← List.singleton_append, definedNames_append, definedNames_of_lowerFeature made, ih]
      rfl

/-- **The features of a lowered program** are those that it defines and those that hooks define, in
order. -/
theorem definedNames_of_lowerProgram?
    (lowered : lowerProgram? scope limit rounds program = .ok (some slots)) :
    definedNames slots =
      program.featureNames ++ HookCall.defined (program.hookCalls scope limit rounds) := by
  obtain ⟨defined, added, groups, rfl, lowersTo⟩ := lowersTo_of_lowerProgram? lowered
  obtain ⟨features, each, found, state, run, names⟩ := lowersTo.features
  have calls := ((program.traces scope limit rounds).2 found state run).defined_eq
  rw [names, List.append_left_inj, List.reverse_inj] at calls
  have grouped : definedNames groups = [] := definedNames_eq_nil fun slot member => by
    rw [Slot.isStatement, lowersTo.grouped slot member, Bool.or_true]
  rw [definedNames_append, definedNames_append, grouped, List.append_nil,
    definedNames_of_hasSlots lowersTo.definitions, definedNames_of_isFeatureOf each, calls]

/-- A name is used as often as it is by features and by statements and statement features. -/
theorem count_map_name (slots : List Slot) (name : String) : (slots.map Slot.name).count name =
    (definedNames slots).count name + ((slots.filter Slot.isStatement).map Slot.name).count name := by
  have parts := ((List.filter_append_perm Slot.isStatement slots).map Slot.name).count_eq name
  rw [List.map_append, List.count_append, Nat.add_comm] at parts
  exact parts.symm

/-- A name that one feature has is found to be used twice only if a statement or a statement feature
has it too, and then some name is. -/
theorem duplicateFeature_of_clash {name : String} (once : (definedNames slots).count name = 1) :
    (linkSlots slots = .error (.duplicateFeature name) →
      ∃ slot ∈ slots, slot.isStatement = true ∧ slot.name = name) ∧
    ((∃ slot ∈ slots, slot.isStatement = true ∧ slot.name = name) →
      ∃ other, linkSlots slots = .error (.duplicateFeature other)) := by
  have clash : 0 < ((slots.filter Slot.isStatement).map Slot.name).count name ↔
      ∃ slot ∈ slots, slot.isStatement = true ∧ slot.name = name := by
    rw [List.count_pos_iff, List.mem_map]
    exact exists_congr fun slot => by rw [List.mem_filter, and_assoc]
  have count := count_map_name slots name
  rw [once] at count
  simp only [linkSlots_eq_duplicateFeature_iff, ← clash]
  refine ⟨fun found => ?_, fun twice => ?_⟩
  · rcases Graph.of_firstDuplicate? found with ⟨-, none⟩ | twice
    · cases none
    · omega
  · cases found : Graph.firstDuplicate? [] (slots.map Slot.name) with
    | some other => exact ⟨other, rfl⟩
    | none =>
      have few := List.nodup_iff_count_le_one.1 (Graph.nodup_of_firstDuplicate? found).1 name
      omega

/-- What is lowered is linked, and the compilation fails if that fails. -/
theorem compile?_eq_error_iff (lowered : lowerProgram? scope limit rounds program = .ok (some slots))
    {error : CompileError} :
    compile? scope limit rounds program = .error error ↔ linkSlots slots = .error error := by
  rw [compile?, lowered]
  show linkSlots slots >>= _ = _ ↔ _
  rw [bind_eq_error_iff]
  constructor
  · rintro (failed | ⟨_, _, done⟩)
    · exact failed
    · cases done
  · exact .inl

/-- **Names that are given out are fresh.** A hook that asks for a name gets the first one of its
stem, from the counter on, that no feature has; there is one. In all that hooks ask of a compilation,
also of one that fails or does not end, no name is given out that a feature has, nor is one given
out twice, even with different stems; and a feature is refused only if the program or a hook has
defined its name before, so that the first one under a name that was given out is accepted. When the
slots are linked, a name that was given out and under which a hook has defined a feature is found to
be used twice if and only if a statement or a statement feature has it too. -/
theorem generated_names_fresh (scope : Scope) (limit rounds : Nat) (program : Program) :
    (∀ (state : CompileState) (stem : String), ∃ number, state.freshName stem =
        (CompileState.numbered stem number, { state with counter := number + 1 }) ∧
      state.counter ≤ number ∧ CompileState.numbered stem number ∉ state.defined ∧
      ∀ smaller, state.counter ≤ smaller → smaller < number →
        CompileState.numbered stem smaller ∈ state.defined) ∧
    (∀ earlier stem name later,
      program.hookCalls scope limit rounds = earlier ++ .fresh stem name :: later →
      (∃ number, name = CompileState.numbered stem number) ∧
        name ∉ program.featureNames ∧ name ∉ HookCall.defined earlier) ∧
    (HookCall.generated (program.hookCalls scope limit rounds)).Nodup ∧
    (∀ earlier name body accepted later,
      program.hookCalls scope limit rounds = earlier ++ .define name body accepted :: later →
      (accepted = false ↔ name ∈ program.featureNames ∨ name ∈ HookCall.defined earlier) ∧
      (name ∈ HookCall.generated earlier → name ∉ program.featureNames)) ∧
    ∀ slots, lowerProgram? scope limit rounds program = .ok (some slots) →
      ∀ name ∈ HookCall.generated (program.hookCalls scope limit rounds),
        name ∈ HookCall.defined (program.hookCalls scope limit rounds) →
        (compile? scope limit rounds program = .error (.duplicateFeature name) →
          ∃ slot ∈ slots, slot.isStatement = true ∧ slot.name = name) ∧
        ((∃ slot ∈ slots, slot.isStatement = true ∧ slot.name = name) →
          ∃ other, compile? scope limit rounds program = .error (.duplicateFeature other)) := by
  obtain ⟨⟨_, made⟩, -⟩ := program.traces scope limit rounds
  have given {name} (member : name ∈ HookCall.generated (program.hookCalls scope limit rounds)) :
      name ∉ program.featureNames := made.not_mem_defined member
  refine ⟨fun state stem => state.freshName_eq stem, fun earlier stem name later whole => ?_,
    made.nodup_generated, fun earlier name body accepted later whole => ⟨?_, fun member => ?_⟩,
    fun slots lowered name member defined => ?_⟩
  · obtain ⟨between, made, rfl⟩ := made.exists_isAnswered whole
    obtain ⟨number, same, -, free, -⟩ := between.freshName_eq stem
    rw [made.defined_eq, List.mem_append, List.mem_reverse, not_or] at free
    rw [same]
    exact ⟨⟨number, rfl⟩, free.2, free.1⟩
  · obtain ⟨between, made, answered⟩ := made.exists_isAnswered whole
    have answered : accepted = true ↔ name ∉ between.defined := answered
    rw [made.defined_eq, List.mem_append, List.mem_reverse, or_comm] at answered
    rw [← Bool.not_eq_true, answered, not_not]
  · refine given ?_
    rw [whole, HookCall.generated, List.filterMap_append]
    exact List.mem_append_left _ member
  · -- The program does not define the name, and hooks have done so once.
    have once : (definedNames slots).count name = 1 := by
      rw [definedNames_of_lowerProgram? lowered, List.count_append,
        List.count_eq_zero_of_not_mem (given member), Nat.zero_add]
      exact List.count_eq_one_of_mem made.nodup_defined.1 defined
    simp only [compile?_eq_error_iff lowered]
    exact duplicateFeature_of_clash once

/-- A hook that defines a feature under a name that it is given, with the name of a statement feature
for a stem. -/
def Scope.clashing : Scope where
  catalog := { entries := [
    .ofRegistration none {
      name := "note"
      kind := .custom fun _ => .freshName "Recs" fun name =>
        .define name (.const (.int 1)) fun _ => .finish (.ok (.feature name)) },
    .ofRegistration none {
      name := "record", kind := .statement "Recs" fun _ _ => .finish (.ok ()) }] }

/-- A statement of that feature, and a call of the hook. -/
def Program.clashing : Program :=
  [.rule none [.call "record" []], .feature "X" (.custom "note" "")]

/-- The name that the hook is given is the name of the statement. It is defined once, and the
compilation fails because it is used twice. -/
theorem generated_name_taken :
    HookCall.generated (Program.clashing.hookCalls .clashing 8 1) = ["Recs#0"] ∧
    HookCall.defined (Program.clashing.hookCalls .clashing 8 1) = ["Recs#0"] ∧
    compile? .clashing 8 1 .clashing = .error (.duplicateFeature "Recs#0") := by
  refine ⟨?_, ?_, ?_⟩ <;> decide +kernel

end RuleGraph
