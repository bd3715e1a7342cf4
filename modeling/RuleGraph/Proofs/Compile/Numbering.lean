import RuleGraph.Proofs.Compile.Settled
import RuleGraph.Proofs.Compile.Groups

/-! # The numbers of statements

The statements of a statement feature are numbered in the order in which they are lowered.

* **`Lowered.IsNumbered`** — so it is while a program is lowered.
* **`Slot.renumber`** — statements numbered anew, in the order of a list.
* **`Lowered.foldl_put`** — lowering slots of one statement feature once more numbers them anew.
-/

namespace RuleGraph

/-! ## Adding statements -/

namespace Groups

variable {groups : Groups} {feature other member : String}

/-- A statement is the last one of its statement feature when it is added. -/
theorem members_add : (groups.add feature member).members feature =
    groups.members feature ++ [member] := by
  induction groups with
  | nil => simp [add, members]
  | cons group rest ih =>
    obtain ⟨name, names⟩ := group
    rw [add]
    split
    · rename_i same
      subst same
      simp [members]
    · rename_i apart
      have differ : (feature == name) = false := by simpa using Ne.symm apart
      rw [members, List.lookup_cons, differ, members, List.lookup_cons, differ]
      exact ih

/-- Other statement features keep their statements. -/
theorem members_add_of_ne (apart : other ≠ feature) :
    (groups.add feature member).members other = groups.members other := by
  induction groups with
  | nil =>
    have differ : (other == feature) = false := by simpa using apart
    simp [add, members, List.lookup_cons, differ]
  | cons group rest ih =>
    obtain ⟨name, names⟩ := group
    rw [add]
    split
    · rename_i same
      subst same
      have differ : (other == name) = false := by simpa using apart
      rw [members, List.lookup_cons, differ, members, List.lookup_cons, differ]
    · rw [members, List.lookup_cons, members, List.lookup_cons]
      cases other == name with
      | true => rfl
      | false => exact ih

/-- A statement feature is listed once it has a statement. -/
theorem map_fst_add : (groups.add feature member).map Prod.fst =
    if feature ∈ groups.map Prod.fst then groups.map Prod.fst
    else groups.map Prod.fst ++ [feature] := by
  induction groups with
  | nil => rfl
  | cons group rest ih =>
    obtain ⟨name, names⟩ := group
    rw [add]
    split
    · rename_i same
      subst same
      rw [List.map_cons, List.map_cons, if_pos List.mem_cons_self]
    · rename_i apart
      simp only [List.map_cons, ih, List.mem_cons, Ne.symm apart, false_or]
      split <;> rfl

/-- What is listed for a statement feature are its statements, if no feature is listed twice. -/
theorem members_of_mem (nodup : (groups.map Prod.fst).Nodup) {names : List String}
    (listed : (feature, names) ∈ groups) : groups.members feature = names := by
  induction groups with
  | nil => cases listed
  | cons group rest ih =>
    obtain ⟨name, names'⟩ := group
    rw [List.map_cons, List.nodup_cons] at nodup
    rcases List.mem_cons.1 listed with same | later
    · cases same
      simp [members]
    · have apart : feature ≠ name := by
        rintro rfl
        exact nodup.1 (List.mem_map.2 ⟨_, later, rfl⟩)
      have differ : (feature == name) = false := by simpa using apart
      rw [members, List.lookup_cons, differ]
      exact ih nodup.2 later

end Groups

/-! ## Numbers -/

/-- Whether a slot is a statement of a statement feature. -/
def Slot.isStatementOf (feature : String) (slot : Slot) : Bool :=
  match slot.kind with
  | .statement name _ _ => name = feature
  | _ => false

namespace Lowered

/-- The statements of a statement feature are listed in order and numbered from zero. -/
structure IsNumbered (lowered : Lowered) : Prop where
  /-- No statement feature is listed twice. -/
  keys : (lowered.groups.map Prod.fst).Nodup
  /-- None is listed without statements. -/
  used : ∀ group ∈ lowered.groups, group.2 ≠ []
  /-- Its statements are listed in order. -/
  listed : ∀ feature, lowered.groups.members feature =
    (lowered.slots.filter (Slot.isStatementOf feature)).map Slot.name
  /-- They are numbered. -/
  numbers : ∀ feature, lowered.groups.members feature =
    (List.range (lowered.groups.members feature).length).map (CompileState.numbered feature)

/-- A statement feature has statements once one is added. -/
theorem used_add {groups : Groups} {feature member : String}
    (used : ∀ group ∈ groups, group.2 ≠ []) :
    ∀ group ∈ groups.add feature member, group.2 ≠ [] := by
  induction groups with
  | nil => simp [Groups.add]
  | cons group rest ih =>
    obtain ⟨name, names⟩ := group
    obtain ⟨first, others⟩ := List.forall_mem_cons.1 used
    rw [Groups.add]
    split
    · exact List.forall_mem_cons.2 ⟨by simp, others⟩
    · exact List.forall_mem_cons.2 ⟨first, ih others⟩

/-- **Every further slot keeps statements numbered.** -/
theorem keeps_isNumbered {scope : Scope} : Keeps scope IsNumbered := by
  refine ⟨⟨List.nodup_nil, by simp, fun _ => rfl, fun _ => rfl⟩, fun numbered made => ?_,
    fun numbered holds made => ?_⟩
  · rename_i lowered name body slot
    have other : ∀ feature, slot.isStatementOf feature = false := by
      rcases lowerFeature_eq_ok made with ⟨-, rfl⟩ | ⟨value, -, rfl⟩ <;> exact fun _ => rfl
    refine ⟨numbered.keys, numbered.used, fun feature => ?_, numbered.numbers⟩
    rw [List.filter_append, List.filter_singleton, other, Bool.cond_false, List.append_nil]
    exact numbered.listed feature
  · rename_i lowered condition call slot groups
    obtain ⟨feature, call', kind, named, rfl⟩ := groups_eq_of_lowerStatement made
    have own : slot.isStatementOf feature = true := by
      rw [Slot.isStatementOf, kind]
      exact decide_eq_true rfl
    have other : ∀ other, other ≠ feature → slot.isStatementOf other = false := by
      intro other apart
      rw [Slot.isStatementOf, kind]
      exact decide_eq_false (Ne.symm apart)
    refine ⟨?_, used_add numbered.used, fun name => ?_, fun name => ?_⟩
    · rw [Groups.map_fst_add]
      split
      · exact numbered.keys
      · rename_i fresh
        refine List.nodup_append.2 ⟨numbered.keys, List.nodup_singleton _, ?_⟩
        rintro name here other single rfl
        exact fresh (List.mem_singleton.1 single ▸ here)
    · rw [List.filter_append, List.filter_singleton]
      by_cases same : name = feature
      · subst same
        rw [Groups.members_add, own, Bool.cond_true, List.map_append, List.map_singleton,
          numbered.listed]
      · rw [Groups.members_add_of_ne same, other name same, Bool.cond_false, List.append_nil,
          numbered.listed]
    · by_cases same : name = feature
      · subst same
        rw [Groups.members_add, List.length_append, List.length_singleton, List.range_succ,
          List.map_append, List.map_singleton, ← numbered.numbers, named]
      · rw [Groups.members_add_of_ne same]
        exact numbered.numbers name

end Lowered

/-! ## One statement feature -/

/-- Statements numbered anew, in the order of a list. Other slots stay as they are. -/
def Slot.renumber : Nat → List Slot → List Slot
  | _, [] => []
  | number, slot :: rest =>
    match slot.kind with
    | .statement feature _ _ =>
      { slot with name := CompileState.numbered feature number } :: renumber (number + 1) rest
    | _ => slot :: renumber number rest

namespace Slot

/-- A single statement is one of a statement feature. -/
theorem exists_kind_of_isSingleStatement {slot : Slot} (single : slot.isSingleStatement = true) :
    ∃ feature condition call, slot.kind = .statement feature condition call := by
  unfold isSingleStatement at single
  split at single
  · rename_i kind
    exact ⟨_, _, _, kind⟩
  · cases single

/-- A statement gets the next number. -/
theorem renumber_cons_statement {slot : Slot} {feature : String} {condition : Option SlotExpr}
    {call : SlotExpr} (kind : slot.kind = .statement feature condition call) (number : Nat)
    (rest : List Slot) : renumber number (slot :: rest) =
      { slot with name := CompileState.numbered feature number } :: renumber (number + 1) rest := by
  rw [renumber]
  simp only [kind]

/-- Any other slot stays as it is. -/
theorem renumber_cons_other {slot : Slot} (other : slot.isSingleStatement = false) (number : Nat)
    (rest : List Slot) : renumber number (slot :: rest) = slot :: renumber number rest := by
  rw [renumber]
  split
  · rename_i kind
    rw [isSingleStatement, kind] at other
    cases other
  · rfl

/-- A single statement is no statement feature. -/
theorem isGroup_of_isSingleStatement {slot : Slot} (single : slot.isSingleStatement = true) :
    slot.isGroup = false := by
  obtain ⟨feature, condition, call, kind⟩ := exists_kind_of_isSingleStatement single
  rw [isGroup, kind]
  rfl

end Slot

/-- A statement feature with so many statements, unless there are none. -/
def Groups.counted (feature : String) (count : Nat) : Groups :=
  if count = 0 then []
  else [(feature, (List.range count).map (CompileState.numbered feature))]

/-- All statements belong to one statement feature. -/
def AreStatementsOf (feature : String) (slots : List Slot) : Prop :=
  ∀ slot ∈ slots, ∀ name condition call, slot.kind = .statement name condition call →
    name = feature

/-- How many statements there are. -/
def countStatements (slots : List Slot) : Nat :=
  slots.countP Slot.isSingleStatement

/-- A statement is counted. -/
theorem countStatements_cons_single {slot : Slot} (single : slot.isSingleStatement = true)
    (rest : List Slot) : countStatements (slot :: rest) = countStatements rest + 1 :=
  List.countP_cons_of_pos single

/-- Any other slot is not counted. -/
theorem countStatements_cons_other {slot : Slot} (other : slot.isSingleStatement = false)
    (rest : List Slot) : countStatements (slot :: rest) = countStatements rest :=
  List.countP_cons_of_neg (by rw [other]; exact Bool.false_ne_true)

namespace Groups

variable {feature : String}

/-- So many statements are listed. -/
theorem members_counted (feature : String) (count : Nat) :
    (counted feature count).members feature =
      (List.range count).map (CompileState.numbered feature) := by
  rw [counted]
  split
  · rename_i none
    subst none
    rfl
  · simp [members]

/-- One statement more. -/
theorem add_counted (feature : String) (count : Nat) :
    (counted feature count).add feature (CompileState.numbered feature count) =
      counted feature (count + 1) := by
  rw [counted, counted, if_neg (Nat.succ_ne_zero count), List.range_succ, List.map_append,
    List.map_singleton]
  split
  · rename_i none
    subst none
    rfl
  · rw [add, if_pos rfl]

end Groups

namespace Lowered

/-- What is listed for a statement feature has a statement. -/
theorem IsNumbered.exists_statement {lowered : Lowered} {feature : String} {names : List String}
    (numbered : lowered.IsNumbered) (listed : (feature, names) ∈ lowered.groups) :
    ∃ slot ∈ lowered.slots, slot.isStatementOf feature = true := by
  have all := numbered.listed feature
  rw [Groups.members_of_mem numbered.keys listed] at all
  obtain ⟨name, member⟩ := List.exists_mem_of_ne_nil _ (numbered.used _ listed)
  rw [all] at member
  obtain ⟨slot, inside, -⟩ := List.mem_map.1 member
  exact ⟨slot, List.mem_filter.1 inside⟩

/-- With one statement feature, as many statements are listed as there are. -/
theorem IsNumbered.groups_eq {lowered : Lowered} {feature : String} (numbered : lowered.IsNumbered)
    (only : AreStatementsOf feature lowered.slots) :
    lowered.groups = .counted feature (countStatements lowered.slots) := by
  have count : (lowered.groups.members feature).length = countStatements lowered.slots := by
    rw [numbered.listed, List.length_map, ← List.countP_eq_length_filter]
    refine List.countP_congr fun slot member => ?_
    rw [Slot.isStatementOf, Slot.isSingleStatement]
    cases kind : slot.kind with
    | statement name condition call => simp [only slot member _ _ _ kind]
    | input | feature | group => rfl
  have every : ∀ group ∈ lowered.groups, group.1 = feature := by
    rintro ⟨name, names⟩ listed
    obtain ⟨slot, member, own⟩ := numbered.exists_statement listed
    unfold Slot.isStatementOf at own
    split at own
    · rename_i kind
      exact (of_decide_eq_true own).symm.trans (only slot member _ _ _ kind)
    · cases own
  have numbers := numbered.numbers feature
  rw [count] at numbers
  cases groups : lowered.groups with
  | nil =>
    rw [groups] at count
    rw [← count]
    rfl
  | cons group rest =>
    obtain ⟨name, names⟩ := group
    have keys := numbered.keys
    have nonempty := numbered.used
    rw [groups] at numbers count every keys nonempty
    obtain ⟨rfl, others⟩ := List.forall_mem_cons.1 every
    have none : rest = [] := by
      refine List.eq_nil_iff_forall_not_mem.2 fun other member => ?_
      refine (List.nodup_cons.1 keys).1 ?_
      rw [← others other member]
      exact List.mem_map_of_mem member
    subst none
    have same := Groups.members_of_mem keys List.mem_cons_self
    rw [same] at numbers count
    have some : countStatements lowered.slots ≠ 0 := by
      rw [← count]
      exact fun zero => nonempty _ List.mem_cons_self (List.length_eq_zero_iff.1 zero)
    rw [Groups.counted, if_neg some, numbers]

/-- **Lowering slots once more numbers their statements anew**, if all of them belong to one
statement feature. -/
theorem foldl_put {feature : String} {slots acc : List Slot} (only : AreStatementsOf feature slots)
    (count : Nat) : slots.foldl put ⟨acc, .counted feature count⟩ =
      ⟨acc ++ Slot.renumber count (slots.filter fun slot => !slot.isGroup),
        .counted feature (count + countStatements slots)⟩ := by
  induction slots generalizing acc count with
  | nil => simp [Slot.renumber, countStatements]
  | cons slot rest ih =>
    obtain ⟨first, others⟩ := List.forall_mem_cons.1 only
    have length : ((Groups.counted feature count).members feature).length = count := by
      rw [Groups.members_counted, List.length_map, List.length_range]
    rw [List.foldl_cons]
    cases single : slot.isSingleStatement with
    | true =>
      obtain ⟨name, condition, call, kind⟩ := Slot.exists_kind_of_isSingleStatement single
      obtain rfl := first _ _ _ kind
      have no := Slot.isGroup_of_isSingleStatement single
      simp only [put, kind, length, Groups.add_counted]
      rw [ih others, countStatements_cons_single single,
        List.filter_cons_of_pos (by rw [no]; rfl), Slot.renumber_cons_statement kind,
        List.append_assoc, List.singleton_append, Nat.add_right_comm, Nat.add_assoc, kind]
    | false =>
      rw [countStatements_cons_other single]
      cases isGroup : slot.isGroup with
      | true =>
        have same : put ⟨acc, .counted feature count⟩ slot = ⟨acc, .counted feature count⟩ := by
          have kind := of_decide_eq_true isGroup
          rw [put, kind]
        rw [same, ih others, List.filter_cons_of_neg (by rw [isGroup]; decide)]
      | false =>
        have same : put ⟨acc, .counted feature count⟩ slot =
            ⟨acc ++ [slot], .counted feature count⟩ := by
          unfold put
          split
          · rename_i kind
            rw [Slot.isSingleStatement, kind] at single
            cases single
          · rename_i kind
            rw [Slot.isGroup, kind] at isGroup
            cases isGroup
          · rfl
        rw [same, ih others, List.filter_cons_of_pos (by rw [isGroup]; rfl),
          Slot.renumber_cons_other single, List.append_assoc, List.singleton_append]

end Lowered

end RuleGraph
