import RuleGraph.Compile.Lower
import RuleGraph.Proofs.Catalog.ArgShape
import RuleGraph.Proofs.Compile.Rewriting
import RuleGraph.Proofs.Routine.Fetches
import RuleGraph.Slot.Source

/-! # What expressions are lowered to

Lowering keeps the shape of an expression and replaces the name of every call by the qualified name
of the function that it stands for. Every such function computes values and accepts the arguments of
its call.

* **`Lowers`** — an expression is lowered to an expression of slots.
* **`lowerValue_eq_ok_iff`** — the lowering does just that.
* **`SlotExpr.IsChecked`** — every call was accepted by the function that it names.
* **`Lowers.isChecked`** — so it is in all lowered expressions.
* **`Expr.ComesTo`** — the order in which lowering comes to the call sites of an expression.
* **`lowerValue_eq_error_of_comesTo`** — a call site that is not accepted ends the lowering.
-/

namespace RuleGraph

/-- A function that computes values. -/
def Entry.IsValue (entry : Entry) : Prop :=
  (∃ body, entry.kind = .async body) ∨ ∃ body, entry.kind = .sync body

mutual

/-- An expression is lowered to an expression of slots. -/
inductive Lowers (scope : Scope) : Expr → SlotExpr → Prop where
  /-- A literal value. -/
  | const {value} : Lowers scope (.const value) (.const value)
  /-- A feature. -/
  | feature {name} : Lowers scope (.feature name) (.feature name)
  /-- A list, item by item. -/
  | list {items bodies} (each : LowersAll scope items bodies) :
    Lowers scope (.list items) (.list bodies)
  /-- A call of a function that computes values and accepts the arguments. -/
  | call {function args entry bodies} (proper : function ≠ inputFunction)
    (found : scope.lookup function = .ok entry) (isValue : entry.IsValue)
    (accepts : entry.Accepts args) (each : LowersAll scope args bodies) :
    Lowers scope (.call function args) (.call entry.qualifiedName bodies)

/-- Several expressions are lowered. -/
inductive LowersAll (scope : Scope) : List Expr → List SlotExpr → Prop where
  /-- None. -/
  | nil : LowersAll scope [] []
  /-- The first one, and the others. -/
  | cons {item rest body bodies} (first : Lowers scope item body)
    (others : LowersAll scope rest bodies) : LowersAll scope (item :: rest) (body :: bodies)

end

variable {scope : Scope}

/-- Several expressions are lowered one by one. -/
theorem lowersAll_iff {items : List Expr} {bodies : List SlotExpr} :
    LowersAll scope items bodies ↔ List.Forall₂ (Lowers scope) items bodies := by
  constructor
  · intro each
    induction items generalizing bodies with
    | nil =>
      cases each
      exact .nil
    | cons item rest ih =>
      cases each with
      | cons first others => exact .cons first (ih others)
  · intro each
    induction each with
    | nil => exact .nil
    | cons first _ ih => exact .cons first ih

/-! ## The lowering -/

/-- What stands for a function that computes values is checked. -/
theorem resolveValue_of_isValue {function : String} {args : List Expr} {entry : Entry}
    (proper : function ≠ inputFunction) (found : scope.lookup function = .ok entry)
    (isValue : entry.IsValue) :
    resolveValue scope function args = (entry.checkArgs args).map fun _ => entry := by
  rw [resolveValue, if_neg proper, found]
  rcases isValue with ⟨body, kind⟩ | ⟨body, kind⟩
  · simp only [bind, Except.bind, kind]
    cases entry.checkArgs args <;> rfl
  · simp only [bind, Except.bind, kind]
    cases entry.checkArgs args <;> rfl

/-- What stands for anything else is refused. -/
theorem isValue_of_resolveValue {function : String} {args : List Expr} {entry : Entry}
    (resolved : resolveValue scope function args = .ok entry) :
    function ≠ inputFunction ∧ scope.lookup function = .ok entry ∧ entry.IsValue := by
  unfold resolveValue at resolved
  split at resolved
  · cases resolved
  · rename_i proper
    obtain ⟨other, found, resolved⟩ := bind_eq_ok_iff.1 resolved
    split at resolved
    · rename_i body kind
      obtain ⟨-, -, same⟩ := bind_eq_ok_iff.1 resolved
      cases same
      exact ⟨proper, found, .inl ⟨body, kind⟩⟩
    · rename_i body kind
      obtain ⟨-, -, same⟩ := bind_eq_ok_iff.1 resolved
      cases same
      exact ⟨proper, found, .inr ⟨body, kind⟩⟩
    all_goals cases resolved

/-- What stands for a value has to be a function that computes values and accepts the arguments. -/
theorem resolveValue_eq_ok_iff {function : String} {args : List Expr} {entry : Entry} :
    resolveValue scope function args = .ok entry ↔
      function ≠ inputFunction ∧ scope.lookup function = .ok entry ∧ entry.IsValue ∧
        entry.Accepts args := by
  constructor
  · intro resolved
    obtain ⟨proper, found, isValue⟩ := isValue_of_resolveValue resolved
    refine ⟨proper, found, isValue, Entry.checkArgs_eq_ok_iff.1 ?_⟩
    rw [resolveValue_of_isValue proper found isValue] at resolved
    cases passes : entry.checkArgs args with
    | ok => rfl
    | error error =>
      rw [passes] at resolved
      cases resolved
  · rintro ⟨proper, found, isValue, accepts⟩
    rw [resolveValue_of_isValue proper found isValue, Entry.checkArgs_eq_ok_iff.2 accepts]
    rfl

/-- Several expressions are lowered if each of them is. -/
theorem lowerValues_eq_ok_iff {items : List Expr} {bodies : List SlotExpr}
    (each : ∀ item ∈ items, ∀ body, lowerValue scope item = .ok body ↔ Lowers scope item body) :
    lowerValues scope items = .ok bodies ↔ LowersAll scope items bodies := by
  induction items generalizing bodies with
  | nil =>
    rw [lowerValues]
    constructor
    · intro h
      cases h
      exact .nil
    · intro h
      cases h
      rfl
  | cons item rest ih =>
    have onItem := each item List.mem_cons_self
    have onRest := fun bodies => @ih bodies fun other member =>
      each other (List.mem_cons_of_mem _ member)
    rw [lowerValues, bind_eq_ok_iff]
    constructor
    · rintro ⟨body, first, h⟩
      obtain ⟨others, later, h⟩ := bind_eq_ok_iff.1 h
      cases h
      exact .cons ((onItem body).1 first) ((onRest others).1 later)
    · intro h
      cases h with
      | @cons _ _ body others first later =>
        exact ⟨body, (onItem body).2 first,
          bind_eq_ok_iff.2 ⟨others, (onRest others).2 later, rfl⟩⟩

/-- **An expression is lowered to just what it should be.** -/
theorem lowerValue_eq_ok_iff {item : Expr} {body : SlotExpr} :
    lowerValue scope item = .ok body ↔ Lowers scope item body := by
  induction item generalizing body with
  | const value =>
    rw [lowerValue]
    constructor
    · intro h
      cases h
      exact .const
    · intro h
      cases h
      rfl
  | feature name =>
    rw [lowerValue]
    constructor
    · intro h
      cases h
      exact .feature
    · intro h
      cases h
      rfl
  | list items ih =>
    have onItems := fun bodies =>
      @lowerValues_eq_ok_iff scope items bodies fun item member body => ih item member
    rw [lowerValue, bind_eq_ok_iff]
    constructor
    · rintro ⟨bodies, each, h⟩
      cases h
      exact .list ((onItems bodies).1 each)
    · intro h
      cases h with
      | @list _ bodies each => exact ⟨bodies, (onItems bodies).2 each, rfl⟩
  | call function args ih =>
    have onArgs := fun bodies =>
      @lowerValues_eq_ok_iff scope args bodies fun item member body => ih item member
    rw [lowerValue, bind_eq_ok_iff]
    constructor
    · rintro ⟨entry, resolved, h⟩
      obtain ⟨bodies, each, h⟩ := bind_eq_ok_iff.1 h
      cases h
      obtain ⟨proper, found, isValue, accepts⟩ := resolveValue_eq_ok_iff.1 resolved
      exact .call proper found isValue accepts ((onArgs bodies).1 each)
    · intro h
      cases h with
      | @call _ _ entry bodies proper found isValue accepts each =>
        exact ⟨entry, resolveValue_eq_ok_iff.2 ⟨proper, found, isValue, accepts⟩,
          bind_eq_ok_iff.2 ⟨bodies, (onArgs bodies).2 each, rfl⟩⟩
  | custom function source =>
    rw [lowerValue]
    constructor
    · intro h
      cases h
    · intro h
      cases h

/-- Several expressions are lowered to just what they should be. -/
theorem lowerValues_eq_ok {items : List Expr} {bodies : List SlotExpr} :
    lowerValues scope items = .ok bodies ↔ LowersAll scope items bodies :=
  lowerValues_eq_ok_iff fun _ _ _ => lowerValue_eq_ok_iff

/-! ## Checked calls -/

namespace SlotExpr

/-- Several expressions are as many in source. -/
theorem length_toExprs (bodies : List SlotExpr) : (toExprs bodies).length = bodies.length := by
  induction bodies with
  | nil => rfl
  | cons body rest ih => rw [toExprs, List.length_cons, ih, List.length_cons]

mutual

/-- The call sites of an expression with their arguments, outer before inner. -/
def sites : SlotExpr → List (String × List SlotExpr)
  | .const _ => []
  | .feature _ => []
  | .list items => sitesOfAll items
  | .call function args => (function, args) :: sitesOfAll args

/-- The call sites of several expressions. -/
def sitesOfAll : List SlotExpr → List (String × List SlotExpr)
  | [] => []
  | item :: rest => sites item ++ sitesOfAll rest

end

/-- The call sites of several expressions are those of each of them. -/
theorem mem_sitesOfAll {bodies : List SlotExpr} {site : String × List SlotExpr} :
    site ∈ sitesOfAll bodies ↔ ∃ body ∈ bodies, site ∈ body.sites := by
  induction bodies with
  | nil => simp [sitesOfAll]
  | cons body rest ih => simp [sitesOfAll, ih]

/-- Calls are call sites without their arguments. -/
theorem mem_calls_iff {body : SlotExpr} {call : String × Nat} :
    call ∈ body.calls ↔ ∃ args, (call.1, args) ∈ body.sites ∧ args.length = call.2 := by
  obtain ⟨name, count⟩ := call
  induction body with
  | const | feature => simp [calls, sites]
  | list items ih =>
    rw [calls, sites, mem_callsOfAll]
    simp only [mem_sitesOfAll]
    constructor
    · rintro ⟨item, member, called⟩
      obtain ⟨args, site, length⟩ := (ih item member).1 called
      exact ⟨args, ⟨item, member, site⟩, length⟩
    · rintro ⟨args, ⟨item, member, site⟩, length⟩
      exact ⟨item, member, (ih item member).2 ⟨args, site, length⟩⟩
  | call function inner ih =>
    rw [calls, sites, List.mem_cons, mem_callsOfAll]
    simp only [List.mem_cons, mem_sitesOfAll]
    constructor
    · rintro (same | ⟨arg, member, called⟩)
      · cases same
        exact ⟨inner, .inl rfl, rfl⟩
      · obtain ⟨args, site, length⟩ := (ih arg member).1 called
        exact ⟨args, .inr ⟨arg, member, site⟩, length⟩
    · rintro ⟨args, same | ⟨arg, member, site⟩, length⟩
      · cases same
        exact .inl (by rw [← length])
      · exact .inr ⟨arg, member, (ih arg member).2 ⟨args, site, length⟩⟩

end SlotExpr

/-- A name that is called is the qualified name of a function of a kind that can be looked up and
accepts the arguments. -/
def Scope.Approves (scope : Scope) (kind : Entry → Prop) (function : String)
    (args : List SlotExpr) : Prop :=
  ∃ name entry, scope.lookup name = .ok entry ∧ entry.qualifiedName = function ∧ kind entry ∧
    entry.Accepts (SlotExpr.toExprs args)

/-- Every call site is one of a function that computes values and accepts the arguments. -/
def SlotExpr.IsChecked (scope : Scope) (body : SlotExpr) : Prop :=
  ∀ function args, (function, args) ∈ body.sites → scope.Approves Entry.IsValue function args

/-- A lowered expression looks the same to every type of argument. -/
theorem Lowers.admits_eq {item : Expr} {body : SlotExpr} (lowers : Lowers scope item body)
    (type : ArgType) : type.admits item = type.admits body.toExpr := by
  have constant : item.isConstant = body.toExpr.isConstant := by
    induction item generalizing body with
    | const | feature =>
      cases lowers
      rfl
    | list items ih =>
      cases lowers with
      | @list _ bodies each =>
        rw [Expr.isConstant, SlotExpr.toExpr, Expr.isConstant]
        induction items generalizing bodies with
        | nil =>
          cases each
          rfl
        | cons item rest onRest =>
          cases each with
          | cons first others =>
            rw [Expr.areConstant, SlotExpr.toExprs, Expr.areConstant,
              ih item List.mem_cons_self first,
              onRest (fun other member => ih other (List.mem_cons_of_mem _ member)) others]
    | call function args ih =>
      cases lowers with
      | call => rfl
    | custom => cases lowers
  cases type with
  | any => rfl
  | constant => exact constant
  | feature =>
    cases lowers with
    | const | feature | list | call => rfl

/-- Several lowered expressions look the same, one by one. -/
theorem LowersAll.forall₂_admits {items : List Expr} {bodies : List SlotExpr}
    (each : LowersAll scope items bodies) :
    List.Forall₂ (fun item item' => ∀ type : ArgType, type.admits item = type.admits item') items
      (SlotExpr.toExprs bodies) := by
  induction items generalizing bodies with
  | nil =>
    cases each
    exact .nil
  | cons item rest ih =>
    cases each with
    | cons first others => exact .cons first.admits_eq (ih others)

/-- **Every call in a lowered expression was accepted** by the function that it names. -/
theorem Lowers.isChecked {item : Expr} {body : SlotExpr} (lowers : Lowers scope item body) :
    body.IsChecked scope := by
  have ofAll : ∀ {items : List Expr} {bodies : List SlotExpr},
      (∀ item ∈ items, ∀ {body}, Lowers scope item body → body.IsChecked scope) →
      LowersAll scope items bodies → ∀ body ∈ bodies, body.IsChecked scope := by
    intro items bodies ih each body member
    obtain ⟨place, bound, rfl⟩ := List.getElem_of_mem member
    have all := lowersAll_iff.1 each
    have bound' : place < items.length := all.length_eq ▸ bound
    exact ih _ (List.getElem_mem bound') (all.get bound' bound)
  induction item generalizing body with
  | const | feature =>
    cases lowers
    intro function args site
    simp [SlotExpr.sites] at site
  | list items ih =>
    cases lowers with
    | list each =>
      intro function args site
      rw [SlotExpr.sites] at site
      obtain ⟨body, member, inside⟩ := SlotExpr.mem_sitesOfAll.1 site
      exact ofAll ih each body member function args inside
  | call function args ih =>
    cases lowers with
    | call proper found isValue accepts each =>
      intro other args' site
      rw [SlotExpr.sites] at site
      rcases List.mem_cons.1 site with same | inner
      · cases same
        exact ⟨function, _, found, rfl, isValue, accepts.congr each.forall₂_admits⟩
      · obtain ⟨body, member, inside⟩ := SlotExpr.mem_sitesOfAll.1 inner
        exact ofAll ih each body member other args' inside
  | custom => cases lowers

/-! ## Call sites that are not accepted -/

/-- A call site of a function that computes values, with arguments that the function does not
accept. -/
structure CallNode.IsMisfit (scope : Scope) (entry : Entry) (site : CallNode) : Prop where
  /-- No input is meant. -/
  proper : site.function ≠ inputFunction
  /-- The name stands for the function. -/
  found : scope.lookup site.function = .ok entry
  /-- It computes values. -/
  isValue : entry.IsValue
  /-- It does not accept the arguments. -/
  refuses : ¬entry.Accepts site.args

/-- Lowering an expression comes to a call site in it: whatever it has to do before succeeds. -/
inductive Expr.ComesTo (scope : Scope) : Expr → CallNode → Prop where
  /-- A call comes before its arguments. -/
  | here {function args} : ComesTo scope (.call function args) ⟨function, args⟩
  /-- It stands in a list behind items that are lowered. -/
  | item {before item after site} (done : ∀ other ∈ before, ∃ body, Lowers scope other body)
    (inside : ComesTo scope item site) : ComesTo scope (.list (before ++ item :: after)) site
  /-- It stands in an argument of a call that is accepted, behind others that are lowered. -/
  | arg {function before arg after site entry} (proper : function ≠ inputFunction)
    (found : scope.lookup function = .ok entry) (isValue : entry.IsValue)
    (accepts : entry.Accepts (before ++ arg :: after))
    (done : ∀ other ∈ before, ∃ body, Lowers scope other body)
    (inside : ComesTo scope arg site) :
    ComesTo scope (.call function (before ++ arg :: after)) site

/-- Several expressions are not lowered if one is not and those before it are. -/
theorem lowerValues_eq_error {before after : List Expr} {item : Expr} {error : CompileError}
    (done : ∀ other ∈ before, ∃ body, Lowers scope other body)
    (fails : lowerValue scope item = .error error) :
    lowerValues scope (before ++ item :: after) = .error error := by
  induction before with
  | nil =>
    rw [List.nil_append, lowerValues, fails]
    rfl
  | cons first rest ih =>
    obtain ⟨body, lowers⟩ := done first List.mem_cons_self
    rw [List.cons_append, lowerValues, lowerValue_eq_ok_iff.2 lowers,
      ih fun other member => done other (List.mem_cons_of_mem _ member)]
    rfl

/-- **A call site that is not accepted ends the lowering** with a mismatch that names the
function. -/
theorem lowerValue_eq_error_of_comesTo {item : Expr} {site : CallNode} {entry : Entry}
    (comes : item.ComesTo scope site) (misfit : site.IsMisfit scope entry) :
    ∃ reason, lowerValue scope item = .error (.argumentMismatch entry.name reason) := by
  induction comes with
  | @here function args =>
    obtain ⟨proper, found, isValue, refuses⟩ := misfit
    obtain ⟨reason, fails⟩ := Entry.checkArgs_eq_error refuses
    refine ⟨reason, ?_⟩
    rw [lowerValue, resolveValue_of_isValue proper found isValue, fails]
    rfl
  | item done _ ih =>
    obtain ⟨reason, fails⟩ := ih misfit
    refine ⟨reason, ?_⟩
    rw [lowerValue, lowerValues_eq_error done fails]
    rfl
  | arg proper found isValue accepts done _ ih =>
    obtain ⟨reason, fails⟩ := ih misfit
    refine ⟨reason, ?_⟩
    rw [lowerValue, resolveValue_eq_ok_iff.2 ⟨proper, found, isValue, accepts⟩]
    show (lowerValues scope _ >>= _ : Except CompileError SlotExpr) = _
    rw [lowerValues_eq_error done fails]
    rfl

end RuleGraph
