import RuleGraph.Proofs.StandardLibrary.Calls
import RuleGraph.Source.Grammar
import Mathlib.Algebra.Order.BigOperators.Group.List
import Mathlib.Algebra.Order.Ring.Int

/-! # Sums of integers

The function `add` sums integers from the left, and stops as soon as a partial sum leaves the 64-bit
range. So a sum is exact whenever there is one, but whether there is one depends on the order of the
arguments, and not only on the sum.

* **`StandardLibrary.add_of_fits`** — the sum is exact if all partial sums fit.
* **`StandardLibrary.add_of_not_fits`** — there is none if one of them does not.
* **`StandardLibrary.fits_of_same_sign`** — all of them fit if the whole sum does and no two
  arguments have opposite signs.
* **`StandardLibrary.exists_perm_fits`** — in some order all of them fit if the whole sum does.
* **`Execution.Reaches.exists_exactSum`** — features that are sums.
* **`add_is_exact_sum`** — sums of integers as the function, its calls and features have them.
* **`add_depends_on_order`** — the order makes a difference.
-/

namespace RuleGraph

open StandardLibrary

namespace StandardLibrary

/-- A number is in the 64-bit range. -/
def Fits (n : Int) : Prop :=
  Int64.minValue.toInt ≤ n ∧ n ≤ Int64.maxValue.toInt

instance : DecidablePred Fits := fun _ => inferInstanceAs (Decidable (_ ∧ _))

/-- The sum of integers, in whatever range. -/
def exactSum (ns : List Int64) : Int :=
  (ns.map Int64.toInt).sum

/-- The failure of a sum that leaves the range. -/
def overflow : FunctionError := ⟨"integer overflow in add"⟩

variable {n : Int64} {ns ns' : List Int64} {total : Int}

/-- Integers are in the range. -/
theorem fits_toInt (n : Int64) : Fits n.toInt :=
  ⟨Int64.minValue_le_toInt n, Int64.toInt_le n⟩

/-- A number in the range is that of an integer. -/
theorem Fits.toInt_ofInt {n : Int} (fits : Fits n) : (Int64.ofInt n).toInt = n := by
  have least : Int64.minValue.toInt = -2 ^ 63 := by decide
  have most : Int64.maxValue.toInt = 2 ^ 63 - 1 := by decide
  obtain ⟨low, high⟩ := fits
  exact Int64.toInt_ofInt_of_le (by omega) (by omega)

/-- The first integer is added to the others. -/
@[simp]
theorem exactSum_cons (n : Int64) (ns : List Int64) : exactSum (n :: ns) = n.toInt + exactSum ns :=
  List.sum_cons

/-- Sums of lists of integers are added. -/
theorem exactSum_append (ns ns' : List Int64) :
    exactSum (ns ++ ns') = exactSum ns + exactSum ns' := by
  rw [exactSum, List.map_append, List.sum_append, exactSum, exactSum]

/-- The sum does not depend on the order. -/
theorem exactSum_perm (perm : ns.Perm ns') : exactSum ns = exactSum ns' :=
  (perm.map Int64.toInt).sum_eq

/-- The sum of integers that are not negative is not negative. -/
theorem exactSum_nonneg (each : ∀ n ∈ ns, 0 ≤ n.toInt) : 0 ≤ exactSum ns :=
  List.sum_nonneg (List.forall_mem_map.2 each)

/-- The sum of integers that are not positive is not positive. -/
theorem exactSum_nonpos (each : ∀ n ∈ ns, n.toInt ≤ 0) : exactSum ns ≤ 0 := by
  induction ns with
  | nil => exact Int.le_refl 0
  | cons n rest ih =>
    obtain ⟨first, others⟩ := List.forall_mem_cons.1 each
    have later := ih others
    rw [exactSum_cons]
    omega

/-! ## The loop -/

/-- An integer is added if the partial sum fits. -/
theorem addInts_cons (total n : Int64) (rest : List Value) :
    addInts total (.int n :: rest) =
      if Fits (total.toInt + n.toInt) then addInts (Int64.ofInt (total.toInt + n.toInt)) rest
      else .error overflow := by
  simp only [addInts, Bool.and_eq_true, decide_eq_true_eq]
  rfl

/-- A sum is exact if all partial sums fit. -/
theorem addInts_of_fits {total : Int64}
    (fits : ∀ part, part <+: ns → Fits (total.toInt + exactSum part)) :
    ∃ sum : Int64, sum.toInt = total.toInt + exactSum ns ∧
      addInts total (ns.map .int) = .ok (.int sum) := by
  induction ns generalizing total with
  | nil => exact ⟨total, (Int.add_zero _).symm, rfl⟩
  | cons n rest ih =>
    have first : Fits (total.toInt + n.toInt) := by
      simpa [exactSum] using fits [n] (by simp)
    have later : ∀ part, part <+: rest →
        Fits ((Int64.ofInt (total.toInt + n.toInt)).toInt + exactSum part) := by
      intro part within
      rw [first.toInt_ofInt, Int.add_assoc, ← exactSum_cons]
      exact fits _ (List.prefix_cons_inj n |>.2 within)
    obtain ⟨sum, exact, same⟩ := ih later
    rw [first.toInt_ofInt, Int.add_assoc] at exact
    refine ⟨sum, by rw [exactSum_cons, exact], ?_⟩
    rw [List.map_cons, addInts_cons, if_pos first, same]

/-- There is no sum if a partial one does not fit. -/
theorem addInts_of_not_fits {total : Int64} {part : List Int64} (within : part <+: ns)
    (leaves : ¬Fits (total.toInt + exactSum part)) :
    addInts total (ns.map .int) = .error overflow := by
  induction ns generalizing total part with
  | nil =>
    rw [List.prefix_nil.1 within, exactSum, List.map_nil, List.sum_nil, Int.add_zero] at leaves
    exact absurd (fits_toInt total) leaves
  | cons n rest ih =>
    rw [List.map_cons, addInts_cons]
    split
    · rename_i first
      rcases List.prefix_cons_iff.1 within with rfl | ⟨part', rfl, within'⟩
      · rw [exactSum, List.map_nil, List.sum_nil, Int.add_zero] at leaves
        exact absurd (fits_toInt total) leaves
      · refine ih within' ?_
        rwa [first.toInt_ofInt, Int.add_assoc, ← exactSum_cons]
    · rfl

/-- Integers are summed as integers. -/
theorem add_ints (ns : List Int64) : add (ns.map .int) = addInts 0 (ns.map .int) := by
  have none : (ns.map Value.int).any isFloat = false := by
    rw [List.any_map]
    exact List.any_eq_false.2 fun n _ => by simp [isFloat]
  rw [add, if_neg (by simp [none])]

/-- **A sum is exact** if all partial sums fit. -/
theorem add_of_fits (fits : ∀ part, part <+: ns → Fits (exactSum part)) :
    ∃ sum : Int64, sum.toInt = exactSum ns ∧ add (ns.map .int) = .ok (.int sum) := by
  have run := @addInts_of_fits ns 0 (by simpa using fits)
  rw [add_ints]
  simpa using run

/-- **There is no sum** if a partial one does not fit. -/
theorem add_of_not_fits {part : List Int64} (within : part <+: ns)
    (leaves : ¬Fits (exactSum part)) : add (ns.map .int) = .error overflow := by
  rw [add_ints]
  exact addInts_of_not_fits within (by simpa using leaves)

/-! ## The order -/

/-- All partial sums fit if the whole sum does and no two integers have opposite signs. -/
theorem fits_of_same_sign (whole : Fits (exactSum ns))
    (same : (∀ n ∈ ns, 0 ≤ n.toInt) ∨ ∀ n ∈ ns, n.toInt ≤ 0) {part : List Int64}
    (within : part <+: ns) : Fits (exactSum part) := by
  obtain ⟨others, rfl⟩ := within
  have zero := fits_toInt 0
  rw [Int64.toInt_zero] at zero
  rw [exactSum_append] at whole
  rcases same with up | down
  · rw [List.forall_mem_append] at up
    have here := exactSum_nonneg up.1
    have there := exactSum_nonneg up.2
    unfold Fits at *
    omega
  · rw [List.forall_mem_append] at down
    have here := exactSum_nonpos down.1
    have there := exactSum_nonpos down.2
    unfold Fits at *
    omega

/-- If the whole sum fits, some integer can be added next. -/
theorem exists_fits_next (fits : Fits total) (whole : Fits (total + exactSum ns))
    (nonempty : ns ≠ []) : ∃ n ∈ ns, Fits (total + n.toInt) := by
  obtain ⟨first, rest, rfl⟩ := List.exists_cons_of_ne_nil nonempty
  rw [exactSum_cons] at whole
  by_contra none
  have each : ∀ n ∈ first :: rest, ¬Fits (total + n.toInt) :=
    fun n member next => none ⟨n, member, next⟩
  have start := each first List.mem_cons_self
  -- Towards zero every step fits, so all of them lead away from it, and the whole sum is further
  -- away than the first step.
  rcases Int.lt_or_le total 0 with below | above
  · have down : ∀ n ∈ first :: rest, n.toInt ≤ 0 := by
      intro n member
      have stays := each n member
      have range := fits_toInt n
      unfold Fits at *
      omega
    have later := exactSum_nonpos (List.forall_mem_cons.1 down).2
    have now := down first List.mem_cons_self
    unfold Fits at *
    omega
  · have up : ∀ n ∈ first :: rest, 0 ≤ n.toInt := by
      intro n member
      have stays := each n member
      have range := fits_toInt n
      unfold Fits at *
      omega
    have later := exactSum_nonneg (List.forall_mem_cons.1 up).2
    have now := up first List.mem_cons_self
    unfold Fits at *
    omega

/-- **If the whole sum fits, all partial sums do in some order.** -/
theorem exists_perm_fits (fits : Fits total) (whole : Fits (total + exactSum ns)) :
    ∃ ns' : List Int64, ns'.Perm ns ∧ ∀ part, part <+: ns' → Fits (total + exactSum part) := by
  -- The next integer is chosen again and again, so the induction is on how many are left.
  induction count : ns.length generalizing ns total with
  | zero =>
    rw [List.length_eq_zero_iff] at count
    subst count
    refine ⟨[], .nil, fun part within => ?_⟩
    rw [List.prefix_nil.1 within]
    exact whole
  | succ count' ih =>
    have nonempty : ns ≠ [] := by
      rintro rfl
      cases count
    obtain ⟨n, member, next⟩ := exists_fits_next fits whole nonempty
    have taken := List.perm_cons_erase member
    rw [exactSum_perm taken, exactSum_cons, ← Int.add_assoc] at whole
    have fewer : (ns.erase n).length = count' := by
      rw [List.length_erase_of_mem member, count]
      rfl
    obtain ⟨ns', perm, each⟩ := ih next whole fewer
    refine ⟨n :: ns', (perm.cons n).trans taken.symm, fun part within => ?_⟩
    rcases List.prefix_cons_iff.1 within with rfl | ⟨part', rfl, within'⟩
    · simpa [exactSum] using fits
    · rw [exactSum_cons, ← Int.add_assoc]
      exact each part' within'

/-- In an order in which all partial sums fit, the sum is that of every order. -/
theorem add_of_perm (perm : ns'.Perm ns) (whole : Fits (exactSum ns))
    (fits : ∀ part, part <+: ns' → Fits (exactSum part)) :
    add (ns'.map .int) = .ok (.int (Int64.ofInt (exactSum ns))) := by
  obtain ⟨sum, exact, same⟩ := add_of_fits fits
  rw [exactSum_perm perm, ← whole.toInt_ofInt] at exact
  rw [same, Int64.toInt_inj.1 exact]

end StandardLibrary

/-! ## Calls -/

/-- The function that sums numbers. -/
def Entry.adding : Entry := (Catalog.standard.find? none "add").get rfl

/-- The function takes one argument or more. -/
theorem Entry.arityError?_adding {ns : List Int64} (nonempty : ns ≠ []) :
    Entry.adding.arityError? (ns.map Value.int).length = none := by
  refine Entry.arityError?_eq_none_iff.2 fun shape declared => ?_
  cases declared
  refine ⟨?_, fun none => by cases none⟩
  rw [List.length_map]
  exact List.length_pos_of_ne_nil nonempty

/-- What a call of the function on integers comes to: it receives them as they are. -/
theorem Entry.outcome_adding (ns : List Int64) : Entry.adding.outcome add (ns.map .int) =
    Setting.callOutcome .adding (add (ns.map .int)) := by
  have proper : (ns.map Value.int).any Value.isNull = false := by
    rw [List.any_map]
    exact List.any_eq_false.2 fun n _ => by simp [Value.isNull]
  have plain : (ns.map Value.int).map Value.unwrap = ns.map .int := by
    rw [List.map_map]
    rfl
  have policy : Entry.adding.allowNull = false ∧ Entry.adding.allowEntities = false := ⟨rfl, rfl⟩
  simp [Entry.outcome, Entry.admit?, policy, proper, plain]

/-- A feature that sums integers has come to their exact sum, since an overflow is no value. -/
theorem Execution.Reaches.exists_exactSum {scope : Scope} {limit rounds : Nat} {program : Program}
    {graph : Graph} {config : EngineConfig} {options : ExecuteOptions} {history : History}
    {execution : Execution} {trace : Trace} {session : Session} {name : String} {args : List Expr}
    {ns : List Int64} {result : Value} (found : scope.lookup "add" = .ok .adding)
    (compiled : compile? scope limit rounds program = .ok (some graph))
    (begun : (Executable.ofGraph graph scope config).execute options history = .ok execution)
    (reaches : execution.Reaches trace session)
    (defined : .feature name (.call "add" args) ∈ program)
    (gives : List.Forall₂ (session.Gives execution.setting) args (ns.map .int))
    (has : session.HasValue execution.setting name result) :
    ∃ sum : Int64, sum.toInt = exactSum ns ∧ result = .int sum := by
  have same := reaches.outcome_eq compiled begun (by decide) found rfl rfl defined gives has
  rw [Entry.outcome_adding] at same
  by_cases fits : ∀ part, part <+: ns → Fits (exactSum part)
  · obtain ⟨sum, exact, ended⟩ := add_of_fits fits
    rw [ended] at same
    cases same
    exact ⟨sum, exact, rfl⟩
  · push Not at fits
    obtain ⟨part, within, leaves⟩ := fits
    rw [add_of_not_fits within leaves] at same
    cases same

/-- **Sums of integers.** A sum is exact if all partial sums fit, and an overflow if one of them
does not. So it is an overflow in every order if the whole sum does not fit; if that fits, it is
exact in some order, and in every order if no two integers have opposite signs. A call of `add` on
integers comes to this, and a feature that is such a call has come to the exact sum. -/
theorem add_is_exact_sum (ns : List Int64) :
    ((∀ part, part <+: ns → Fits (exactSum part)) →
      ∃ sum : Int64, sum.toInt = exactSum ns ∧ add (ns.map .int) = .ok (.int sum)) ∧
    ((∃ part, part <+: ns ∧ ¬Fits (exactSum part)) →
      add (ns.map .int) = .error ⟨"integer overflow in add"⟩) ∧
    (¬Fits (exactSum ns) → ∀ ns' : List Int64, ns'.Perm ns →
      add (ns'.map .int) = .error ⟨"integer overflow in add"⟩) ∧
    (Fits (exactSum ns) → ∃ sum : Int64, sum.toInt = exactSum ns ∧
      (∃ ns' : List Int64, ns'.Perm ns ∧ add (ns'.map .int) = .ok (.int sum)) ∧
      ((∀ n ∈ ns, 0 ≤ n.toInt) ∨ (∀ n ∈ ns, n.toInt ≤ 0) → ∀ ns' : List Int64, ns'.Perm ns →
        add (ns'.map .int) = .ok (.int sum))) ∧
    (∀ (setting : Setting) (reply : Nat → Outcome → Prop),
      setting.executable.function? "add" = some .adding → ns ≠ [] →
      (∃ deeds, (setting.callRoutine "add" (ns.map .int)).Does reply deeds
        (some (Setting.callOutcome .adding (add (ns.map .int))))) ∧
      ∀ deeds outcome, (setting.callRoutine "add" (ns.map .int)).Does reply deeds (some outcome) →
        outcome = Setting.callOutcome .adding (add (ns.map .int))) ∧
    (∀ scope limit rounds program graph config options history execution trace session name args
        result,
      scope.lookup "add" = .ok .adding →
      compile? scope limit rounds program = .ok (some graph) →
      (Executable.ofGraph graph scope config).execute options history = .ok execution →
      execution.Reaches trace session →
      .feature name (.call "add" args) ∈ program →
      List.Forall₂ (session.Gives execution.setting) args (ns.map .int) →
      session.HasValue execution.setting name result →
      ∃ sum : Int64, sum.toInt = exactSum ns ∧ result = .int sum) := by
  refine ⟨add_of_fits, fun ⟨part, within, leaves⟩ => add_of_not_fits within leaves, ?_, ?_, ?_, ?_⟩
  · intro leaves ns' perm
    rw [← exactSum_perm perm] at leaves
    exact add_of_not_fits (List.prefix_refl ns') leaves
  · intro whole
    refine ⟨Int64.ofInt (exactSum ns), whole.toInt_ofInt, ?_, ?_⟩
    · have zero := fits_toInt 0
      obtain ⟨ns', perm, fits⟩ := @exists_perm_fits ns 0 zero (by simpa using whole)
      exact ⟨ns', perm, add_of_perm perm whole (by simpa using fits)⟩
    · intro same ns' perm
      refine add_of_perm perm whole fun part within => ?_
      refine fits_of_same_sign (exactSum_perm perm ▸ whole) ?_ within
      exact same.imp (fun up n member => up n (perm.subset member))
        fun down n member => down n (perm.subset member)
  · intro setting reply bound nonempty
    rw [← Entry.outcome_adding]
    have arity := Entry.arityError?_adding nonempty
    exact ⟨Setting.does_callRoutine_plain bound rfl arity,
      fun _ _ does => Setting.eq_of_does_callRoutine_plain bound rfl arity does⟩
  · intro scope limit rounds program graph config options history execution trace session name args
      result found compiled begun reaches defined gives has
    exact reaches.exists_exactSum found compiled begun defined gives has

/-! ## One feature -/

/-- A feature that sums integers. -/
def Program.adding (ns : List Int64) : Program :=
  [.feature "X" (.call "add" (ns.map fun n => .const (.int n)))]

/-- The graph of this feature. -/
def Graph.adding (ns : List Int64) : Graph where
  slots := [.feature "X" (.call "add" (ns.map fun n => .const (.int n)))]
  edges := [[]]
  cycles := [none]

/-- An execution of this feature. -/
def Execution.adding (ns : List Int64) : Execution where
  setting := { executable := .ofGraph (.adding ns) ⟨.standard, none⟩ {} }
  state := State.initial 1

/-- **The order makes a difference** between the sum, which fits, and an overflow. -/
theorem add_depends_on_order :
    exactSum [Int64.maxValue, 1, -1] = Int64.maxValue.toInt ∧
    add ([Int64.maxValue, 1, -1].map .int) = .error ⟨"integer overflow in add"⟩ ∧
    add ([Int64.maxValue, -1, 1].map .int) = .ok (.int Int64.maxValue) ∧
    parse "LET X := add(9223372036854775807, 1, -1);" = .ok (.adding [Int64.maxValue, 1, -1]) ∧
    compile? ⟨.standard, none⟩ 1 1 (.adding [Int64.maxValue, 1, -1]) =
      .ok (some (.adding [Int64.maxValue, 1, -1])) ∧
    (Executable.ofGraph (.adding [Int64.maxValue, 1, -1]) ⟨.standard, none⟩ {}).execute {} {} =
      .ok (.adding [Int64.maxValue, 1, -1]) ∧
    ((Execution.adding [Int64.maxValue, 1, -1]).fetchEach 1 ["X"]).1 =
      some [.error (.functionFailed "add" ⟨"integer overflow in add"⟩)] :=
  ⟨by decide +kernel, by decide +kernel, by decide +kernel, by decide +kernel, by decide +kernel,
    rfl, by decide +kernel⟩

/-- The greatest integer, less one and plus one, is itself, in a session in which that is a
feature's value. -/
theorem add_is_exact_sum_of_maxValue : ∃ trace session sum,
    (Execution.adding [Int64.maxValue, -1, 1]).Reaches trace session ∧
    session.HasValue (Execution.adding [Int64.maxValue, -1, 1]).setting "X" (.int sum) ∧
    sum.toInt = exactSum [Int64.maxValue, -1, 1] := by
  have compiled : compile? ⟨.standard, none⟩ 1 1 (.adding [Int64.maxValue, -1, 1]) =
      .ok (some (.adding [Int64.maxValue, -1, 1])) := by decide +kernel
  have begun : (Executable.ofGraph (.adding [Int64.maxValue, -1, 1])
      ⟨.standard, none⟩ {}).execute {} {} = .ok (.adding [Int64.maxValue, -1, 1]) := rfl
  have started := Execution.started_of_execute (isCompiled_of_compile? compiled).built begun
  obtain ⟨trace, threads, reaches, -⟩ :=
    Execution.reaches_of_runSide started.linked .start 1 1 ["X"]
  have place : (Execution.adding [Int64.maxValue, -1, 1]).setting.graph.indexOf? "X" = some 0 := by
    decide +kernel
  have kept : ((Execution.adding [Int64.maxValue, -1, 1]).fetchEach 1 ["X"]).2.state.outcome? 0 =
      some (.ok (.int Int64.maxValue)) := by decide +kernel
  obtain ⟨-, -, -, -, -, inFeatures⟩ := add_is_exact_sum [Int64.maxValue, -1, 1]
  obtain ⟨sum, exact, same⟩ := inFeatures _ 1 1 _ _ {} {} {} _ _ _ "X" _ _ rfl compiled begun
    reaches List.mem_cons_self (.cons (.const rfl) (.cons (.const rfl) (.cons (.const rfl) .nil)))
    ⟨0, place, kept⟩
  exact ⟨_, _, sum, reaches, ⟨0, place, same ▸ kept⟩, exact⟩

end RuleGraph
