import SqlAssembly.Proofs.ConditionWords

/-! A call is wrong by what is passed to it, whatever was called before. The first wrong call leaves
   its error behind, and after it a builder takes nothing but the choice of a dialect. -/
namespace SqlAssembly

def errorOf {α : Type} : Except BuildError α → Option BuildError
  | .ok _ => none
  | .error e => some e

/-! Faults, read off the arguments. -/

def isBranched (cs : List CaseCall) : Bool :=
  cs.any fun
    | .when _ _ => true
    | .otherwise _ => false

mutual

/-- The tests of a condition in the order in which they are written. A CASE without a branch stands
    for itself. -/
def CondTree.tests : CondTree → List CondTree
  | .conj a b => a.tests ++ b.tests
  | .disj a b => a.tests ++ b.tests
  | .neg a => a.tests
  | .case cs => if isBranched cs then branchTests cs else [.case cs]
  | t => [t]

def branchTests : List CaseCall → List CondTree
  | [] => []
  | c :: cs => c.tests ++ branchTests cs

def CaseCall.tests : CaseCall → List CondTree
  | .when t _ => t.tests
  | .otherwise _ => []

end

/-- A query inside a test may have failed. That is not the fault of the test. -/
def CondTree.testFault? : CondTree → Option BuildError
  | .compare column op value =>
    if value = .null ∧ op ≠ .eq ∧ op ≠ .ne then some (.nullValue (.compare op) column) else none
  | .member column polarity values =>
    if values = [] then some (.emptyList (.member polarity) column)
    else if .null ∈ values then some (.nullValue (.member polarity) column)
    else none
  | .between column polarity low high =>
    if low = .null ∨ high = .null then some (.nullValue (.between polarity) column) else none
  | .existence _ (.subquery _) => none
  | .existence _ (.term (.raw _)) => none
  | .existence polarity e => some (.unsupportedExpression (.exists polarity) e.expr.kind)
  | .raw sql values =>
    if sql.toList.count '?' = values.length then none
    else some (.placeholderCount sql (sql.toList.count '?') values.length)
  | .case _ => some .emptyCase
  | _ => none

def CondTree.fault? (t : CondTree) : Option BuildError := t.tests.findSome? testFault?

def Expr.tableFault? (e : Expr) : Option BuildError := if e.isBlank then some .emptyTable else none

def Expr.itemFault? (clause : StrictClause) : Expr → Option BuildError
  | .term _ => none
  | e => some (.unsupportedExpression clause e.kind)

def Expr.mutationFault? (clause : StrictClause) : Expr → Option BuildError
  | .term (.name s) => if blankText s then some .emptyTable else none
  | .term (.raw s) => if blankText s then some .emptyTable else none
  | e => some (.unsupportedExpression clause e.kind)

def QueryCall.fault? : QueryCall → Option BuildError
  | .source e => e.expr.tableFault?
  | .join _ target _ _ => target.expr.tableFault?
  | .filter t => t.fault?
  | .groupBy es => (exprsOf es).findSome? (Expr.itemFault? .groupBy)
  | .groupFilter t => t.fault?
  | .orderBy e _ => e.expr.itemFault? .orderBy
  | .compose (some cs) => (selectOf cs).error?
  | _ => none

def UpdateCall.fault? : UpdateCall → Option BuildError
  | .filter t => t.fault?
  | _ => none

def DeleteCall.fault? : DeleteCall → Option BuildError
  | .filter t => t.fault?
  | .dialect _ => none

/-! What the calls make of them. -/

theorem errorOf_eq_none {α : Type} {x : Except BuildError α} :
    errorOf x = none ↔ ∃ a, x = .ok a := by
  cases x <;> simp [errorOf]

theorem errorOf_eq_some {α : Type} {x : Except BuildError α} {e : BuildError} :
    errorOf x = some e ↔ x = .error e := by
  cases x <;> simp [errorOf]

theorem errorOf_map {α β : Type} (f : α → β) (x : Except BuildError α) :
    errorOf (x.map f) = errorOf x := by cases x <;> rfl

theorem errorOf_entered {α β : Type} (f : α → β) (x : Except BuildError α) :
    errorOf (do return f (← x)) = errorOf x := by cases x <;> rfl

theorem errorOf_both {α β γ : Type} (f : α → β → γ) (x : Except BuildError α)
    (y : Except BuildError β) :
    errorOf (do return f (← x) (← y)) = (errorOf x).or (errorOf y) := by
  cases x with
  | error e => rfl
  | ok a => cases y <;> rfl

theorem errorOf_mapM {α β : Type} (f : α → Except BuildError β) (xs : List α) :
    errorOf (xs.mapM f) = xs.findSome? fun x => errorOf (f x) := by
  induction xs with
  | nil => rfl
  | cons x xs ih =>
    rw [List.mapM_cons, List.findSome?_cons, ← ih]
    cases f x with
    | error e => rfl
    | ok y => exact errorOf_entered _ _

theorem tests_atom {t : CondTree} (atom : t.isAtom = true) : t.tests = [t] := by
  cases t with
  | conj a b => cases atom
  | disj a b => cases atom
  | neg a => cases atom
  | case cs => cases atom
  | _ => rw [CondTree.tests] <;> simp

theorem fault_atom {t : CondTree} (atom : t.isAtom = true) : t.fault? = t.testFault? := by
  rw [CondTree.fault?, tests_atom atom]
  cases h : t.testFault? <;> simp [h]

theorem compare_error (column : String) (op : Comparison) (value : Value) :
    errorOf (Condition.compare column op value) =
      (CondTree.compare column op value).testFault? := by
  simp only [Condition.compare, CondTree.testFault?, isNull_iff]
  by_cases null : value = .null
  · cases op <;> simp [null, errorOf, Condition.nullTest, Condition.leaf]
  · rw [if_neg null, if_neg fun h => null h.1]
    rfl

theorem member_error (column : String) (polarity : Polarity) (values : List Value) :
    errorOf (Condition.member column polarity values) =
      (CondTree.member column polarity values).testFault? := by
  have null : values.any Value.isNull = true ↔ Value.null ∈ values := by
    simp [isNull_iff]
  simp only [Condition.member, CondTree.testFault?, List.isEmpty_iff, null]
  split
  · rfl
  · split <;> rfl

theorem between_error (column : String) (polarity : Polarity) (low high : Value) :
    errorOf (Condition.between column polarity low high) =
      (CondTree.between column polarity low high).testFault? := by
  simp only [Condition.between, CondTree.testFault?, Bool.or_eq_true, isNull_iff]
  split <;> rfl

theorem existence_error (polarity : Polarity) (e : ExprTree) :
    errorOf (Condition.existence polarity e.expr) =
      (CondTree.existence polarity e).testFault? := by
  cases e with
  | subquery cs => rfl
  | aliased e label => rfl
  | term t => cases t <;> rfl

theorem raw_error (sql : String) (values : List Value) :
    errorOf (Condition.raw sql values) = (CondTree.raw sql values).testFault? := by
  simp only [Condition.raw, CondTree.testFault?]
  split <;> rfl

theorem branches_error {cs : List CaseCall}
    (each : ∀ t v, CaseCall.when t v ∈ cs → errorOf t.condition = t.fault?) :
    errorOf (CaseExpr.branchParts (cs.flatMap CaseCall.branch)) =
      (branchTests cs).findSome? CondTree.testFault? := by
  induction cs with
  | nil => rfl
  | cons c cs ih =>
    have rest := ih fun t v member => each t v (List.mem_cons_of_mem c member)
    cases c with
    | otherwise v => exact rest
    | when t v =>
      have first : errorOf t.condition = t.tests.findSome? CondTree.testFault? :=
        each t v List.mem_cons_self
      rw [branchTests, CaseCall.tests, List.findSome?_append, ← first, ← rest]
      exact errorOf_both _ _ _

theorem branches_isEmpty (cs : List CaseCall) :
    (cs.flatMap CaseCall.branch).isEmpty = !isBranched cs := by
  induction cs with
  | nil => rfl
  | cons c cs ih =>
    cases c with
    | when t v => rfl
    | otherwise v => exact ih

theorem case_error {cs : List CaseCall}
    (each : ∀ t v, CaseCall.when t v ∈ cs → errorOf t.condition = t.fault?) :
    errorOf (CondTree.case cs).condition = (CondTree.case cs).fault? := by
  rw [CondTree.condition, caseExpr_eq, CondTree.fault?, CondTree.tests]
  simp only [CaseExpr.condition, List.nil_append, branches_isEmpty]
  cases isBranched cs with
  | false => rfl
  | true => exact (errorOf_entered _ _).trans (branches_error each)

/-- The error of a condition is that of its leftmost faulty test. -/
theorem condition_error (t : CondTree) : errorOf t.condition = t.fault? := by
  induction t using tree_induction with
  | atom t atom =>
    rw [fault_atom atom]
    cases t with
    | compare column op value => exact compare_error column op value
    | member column polarity values => exact member_error column polarity values
    | memberOf column polarity cs => rfl
    | between column polarity low high => exact between_error column polarity low high
    | nullTest column polarity => rfl
    | existence polarity e => exact existence_error polarity e
    | raw sql values => exact raw_error sql values
    | conj a b => cases atom
    | disj a b => cases atom
    | neg a => cases atom
    | case cs => cases atom
  | conj a b left right =>
    rw [CondTree.fault?, CondTree.tests, List.findSome?_append]
    exact (errorOf_both _ _ _).trans (congr (congrArg Option.or left) right)
  | disj a b left right =>
    rw [CondTree.fault?, CondTree.tests, List.findSome?_append]
    exact (errorOf_both _ _ _).trans (congr (congrArg Option.or left) right)
  | neg a operand =>
    rw [CondTree.fault?, CondTree.tests]
    exact (errorOf_entered _ _).trans operand
  | case cs branches => exact case_error branches

theorem table_error (e : Expr) : errorOf (Query.table e) = e.tableFault? := by
  unfold Query.table Expr.tableFault?
  split <;> rfl

theorem term_error (clause : StrictClause) (e : Expr) :
    errorOf (Query.term clause e) = e.itemFault? clause := by
  cases e <;> rfl

theorem terms_error (clause : StrictClause) (es : List Expr) :
    errorOf (es.mapM (Query.term clause)) = es.findSome? (Expr.itemFault? clause) := by
  rw [errorOf_mapM]
  simp only [term_error]

theorem mutationTable_error (clause : StrictClause) (e : Expr) :
    errorOf (mutationTable clause e) = e.mutationFault? clause := by
  have named (t : Term) : errorOf (if blankText t.text then .error .emptyTable else .ok t) =
      if blankText t.text then some .emptyTable else none := by
    split <;> rfl
  cases e with
  | term t =>
    cases t with
    | name s => exact named (.name s)
    | raw s => exact named (.raw s)
    | call s => rfl
  | _ => rfl

/-- The call has this fault, whatever it is called on. -/
def Builder.Call.Faults {α ε : Type} (apply : ε → α → Except BuildError α)
    (fault : Option BuildError) : Builder.Call ε → Prop
  | .edit e => ∀ a, errorOf (apply e a) = fault
  | .dialect _ => fault = none

theorem query_call_faults (c : QueryCall) : c.call.Faults Query.edit c.fault? := by
  cases c with
  | dialect d => rfl
  | columns es => exact fun q => rfl
  | distinct => exact fun q => rfl
  | source e => exact fun q => (errorOf_entered _ _).trans (table_error e.expr)
  | join kind target left right =>
    exact fun q => (errorOf_entered _ _).trans (table_error target.expr)
  | filter t => exact fun q => (errorOf_entered _ _).trans (condition_error t)
  | groupBy es => exact fun q => (errorOf_entered _ _).trans (terms_error .groupBy (exprsOf es))
  | groupFilter t => exact fun q => (errorOf_entered _ _).trans (condition_error t)
  | orderBy e asked => exact fun q => (errorOf_entered _ _).trans (term_error .orderBy e.expr)
  | limit n => exact fun q => rfl
  | offset n => exact fun q => rfl
  | compose other =>
    cases other with
    | none => exact fun q => rfl
    | some cs => exact fun q => errorOf_entered _ _

theorem row_call_faults (c : Builder.Call Rows.Edit) : c.Faults Rows.edit none := by
  cases c with
  | dialect d => rfl
  | edit e => intro r; cases e <;> rfl

theorem update_call_faults (c : UpdateCall) : c.call.Faults Changes.edit c.fault? := by
  cases c with
  | dialect d => rfl
  | set column v => exact fun c => rfl
  | setRaw column sql => exact fun c => rfl
  | filter t => exact fun c => (errorOf_entered _ _).trans (condition_error t)

theorem delete_call_faults (c : DeleteCall) : c.call.Faults Removal.edit c.fault? := by
  cases c with
  | dialect d => rfl
  | filter t => exact fun r => (errorOf_entered _ _).trans (condition_error t)

/-! Runs of calls. -/

def Builder.Call.chosen? {ε : Type} : Builder.Call ε → Option Dialect
  | .edit _ => none
  | .dialect d => some d

section Runs

variable {α ε κ : Type} {apply : ε → α → Except BuildError α} {call : κ → Builder.Call ε}
  {fault? : κ → Option BuildError}

theorem call_error {c : Builder.Call ε} {fault : Option BuildError} (faults : c.Faults apply fault)
    (b : Builder α) : (Builder.call apply b c).error? = b.error?.or fault := by
  rcases b with ⟨state, d⟩
  cases c with
  | dialect d' =>
    have sound : fault = none := faults
    rw [sound, Option.or_none]
    rfl
  | edit e =>
    cases state with
    | error cause => rfl
    | ok a => exact faults a

theorem calls_error (faults : ∀ c, (call c).Faults apply (fault? c)) (b : Builder α)
    (cs : List κ) :
    (b.calls apply (cs.map call)).error? = b.error?.or (cs.findSome? fault?) := by
  induction cs generalizing b with
  | nil => exact Option.or_none.symm
  | cons c cs ih =>
    change ((Builder.call apply b (call c)).calls apply (cs.map call)).error? = _
    -- The first call has left its fault in the builder by the time the others run.
    rw [ih, call_error (faults c), Option.or_assoc, List.findSome?_cons]
    cases fault? c <;> rfl

/-- The last choice counts, and it counts after an error as well. -/
theorem calls_dialect (b : Builder α) (cs : List (Builder.Call ε)) :
    (b.calls apply cs).dialect = (cs.reverse.findSome? Builder.Call.chosen?).or b.dialect := by
  induction cs generalizing b with
  | nil => rfl
  | cons c cs ih =>
    change ((Builder.call apply b c).calls apply cs).dialect = _
    rw [ih, List.reverse_cons, List.findSome?_append, Option.or_assoc]
    cases c <;> rfl

end Runs

/-- What a statement made by calls does with the first of them that is wrong. -/
structure FirstFaultStays {κ : Type} (made : List κ → Statement) (opening : Option BuildError)
    (fault? : κ → Option BuildError) (chosen? : κ → Option Dialect) : Prop where
  recorded : ∀ cs, (made cs).recorded? = opening.or (cs.findSome? fault?)
  reported : ∀ cs e, (made cs).recorded? = some e → ∀ d, (made cs).buildWith d = .error e
  frozen : ∀ cs e, (made cs).recorded? = some e → ∀ more,
    (made (cs ++ more)).recorded? = some e ∧
      ∀ d, (made (cs ++ more)).buildWith d = (made cs).buildWith d
  dialect : ∀ cs more,
    (made (cs ++ more)).dialect? = (more.reverse.findSome? chosen?).or (made cs).dialect?

theorem script_of_error {s : Select} {e : BuildError} (failed : s.state = .error e) :
    s.script = [.fail e] := by
  rcases s with ⟨state, d⟩
  cases failed
  rfl

theorem first_fault_of_calls {α ε κ : Type} {apply : ε → α → Except BuildError α}
    {call : κ → Builder.Call ε} {fault? : κ → Option BuildError} {start : Builder α}
    {opening : Option BuildError} {made : List κ → Builder α} (statement : Builder α → Statement)
    (runs : ∀ cs, made cs = start.calls apply (cs.map call)) (opens : start.error? = opening)
    (faults : ∀ c, (call c).Faults apply (fault? c))
    (records : ∀ b, (statement b).recorded? = b.error?)
    (chooses : ∀ b, (statement b).dialect? = b.dialect)
    (fails : ∀ b e, b.state = .error e → (statement b).script = [.fail e]) :
    FirstFaultStays (fun cs => statement (made cs)) opening fault? fun c => (call c).chosen? := by
  have recorded (cs : List κ) :
      (statement (made cs)).recorded? = opening.or (cs.findSome? fault?) := by
    rw [records, runs, calls_error faults, opens]
  have reported (cs : List κ) (e : BuildError) (failed : (statement (made cs)).recorded? = some e)
      (d : Dialect) : (statement (made cs)).buildWith d = .error e := by
    rw [records, Builder.error_eq_some_iff] at failed
    rw [Statement.buildWith, fails _ e failed]
    rfl
  refine ⟨recorded, reported, ?_, ?_⟩
  · intro cs e failed more
    have later : (statement (made (cs ++ more))).recorded? = some e := by
      rw [records, Builder.error_eq_some_iff, runs] at failed ⊢
      rw [List.map_append, Builder.calls_append]
      exact Builder.calls_of_error apply _ _ e failed
    refine ⟨later, fun d => ?_⟩
    rw [reported cs e failed d, reported (cs ++ more) e later d]
  · intro cs more
    rw [chooses, chooses, runs, runs, List.map_append, Builder.calls_append, calls_dialect,
      ← List.map_reverse, List.findSome?_map]
    rfl

theorem begun_error {α : Type} (clause : StrictClause) (table : Expr) (content : Term → α) :
    Builder.error? { state := (mutationTable clause table).map content } =
      table.mutationFault? clause :=
  (errorOf_map content _).trans (mutationTable_error clause table)

theorem select_faults_stay :
    FirstFaultStays (fun cs => .select (selectOf cs)) none QueryCall.fault?
      fun c => c.call.chosen? := by
  have runs (cs : List QueryCall) :
      selectOf cs = Builder.calls Query.edit Select.empty (cs.map QueryCall.call) := by
    rw [selectOf, queryCalls_eq_map]
  exact first_fault_of_calls .select runs rfl query_call_faults (fun _ => rfl)
    (fun _ => rfl) fun b e failed => script_of_error failed

theorem update_faults_stay (table : ExprTree) :
    FirstFaultStays (fun cs => .update (updateOf table cs)) (table.expr.mutationFault? .update)
      UpdateCall.fault? fun c => c.call.chosen? :=
  first_fault_of_calls .update (fun _ => rfl) (begun_error _ _ _) update_call_faults
    (fun _ => rfl) (fun _ => rfl)
    fun b e failed => by simp only [Statement.script, Update.script, failed]

theorem delete_faults_stay (table : ExprTree) :
    FirstFaultStays (fun cs => .delete (deleteOf table cs)) (table.expr.mutationFault? .delete)
      DeleteCall.fault? fun c => c.call.chosen? :=
  first_fault_of_calls .delete (fun _ => rfl) (begun_error _ _ _) delete_call_faults
    (fun _ => rfl) (fun _ => rfl)
    fun b e failed => by simp only [Statement.script, Delete.script, failed]

theorem FirstFaultStays.fails {κ : Type} {made : List κ → Statement} {opening : Option BuildError}
    {fault? : κ → Option BuildError} {chosen? : κ → Option Dialect}
    (stays : FirstFaultStays made opening fault? chosen?) {cs : List κ} {c : κ} (member : c ∈ cs)
    {e : BuildError} (fault : fault? c = some e) :
    ∃ cause, ∀ d, (made cs).buildWith d = .error cause := by
  have found : ((cs.findSome? fault?).isSome) = true :=
    List.findSome?_isSome_iff.mpr ⟨c, member, by rw [fault]; rfl⟩
  have recorded : ((made cs).recorded?).isSome = true := by
    rw [stays.recorded, Option.isSome_or, found, Bool.or_true]
  obtain ⟨cause, first⟩ := Option.isSome_iff_exists.mp recorded
  exact ⟨cause, stays.reported cs cause first⟩

/-- The error of a condition is that of its leftmost faulty test, and the error of a statement that
    of its first faulty call. From then on the statement is settled in everything but its dialect:
    no call changes what it records, and every build gives that error. -/
theorem first_fault_stays :
    (∀ t : CondTree, errorOf t.condition = t.fault?) ∧
      FirstFaultStays (fun cs => .select (selectOf cs)) none QueryCall.fault?
        (fun c => c.call.chosen?) ∧
      (∀ table, FirstFaultStays (fun cs => .insert (insertOf table cs))
        (table.expr.mutationFault? .insert) (fun _ => none) fun c => c.chosen?) ∧
      (∀ table, FirstFaultStays (fun cs => .update (updateOf table cs))
        (table.expr.mutationFault? .update) UpdateCall.fault? fun c => c.call.chosen?) ∧
      ∀ table, FirstFaultStays (fun cs => .delete (deleteOf table cs))
        (table.expr.mutationFault? .delete) DeleteCall.fault? fun c => c.call.chosen? := by
  refine ⟨condition_error, select_faults_stay, fun table => ?_, update_faults_stay,
    delete_faults_stay⟩
  have runs (cs : List (Builder.Call Rows.Edit)) :
      insertOf table cs = Builder.calls Rows.edit (Insert.into table.expr) (cs.map id) := by
    rw [insertOf, List.map_id]
  exact first_fault_of_calls .insert runs (begun_error _ _ _) row_call_faults
    (fun _ => rfl) (fun _ => rfl)
    fun b e failed => by simp only [Statement.script, Insert.script, failed]

/-- The comparison with NULL stands left of the empty CASE, and both before the mark without a
    value. No later call makes up for it, the assignment among them included. -/
theorem faulty_filter_is_not_made_up_for :
    (∀ d, (Statement.update (updateOf (.term (.name "t")) ([
          .filter (.conj (.nullTest "a" .plain) (.disj (.compare "b" .gt .null) (.case []))),
          .filter (.raw "c = ?" [])] ++ [.set "c" (.int 1), .dialect .sqlite]))).buildWith d =
        .error (.nullValue (.compare .gt) "b")) ∧
      (Statement.select (selectOf [.columns [.term (.name "a")],
          .groupBy [.term (.name "a"), .subquery [.source (.term (.raw " "))], .term (.raw "")],
          .compose (some [.source (.term (.raw " "))])])).recorded? =
        some (.unsupportedExpression .groupBy .subquery) := by
  obtain ⟨-, select, -, update, -⟩ := first_fault_stays
  constructor
  · intro d
    have failed := (update (.term (.name "t"))).reported [
      .filter (.conj (.nullTest "a" .plain) (.disj (.compare "b" .gt .null) (.case []))),
      .filter (.raw "c = ?" [])] _ rfl d
    rw [((update (.term (.name "t"))).frozen _ _ rfl _).2 d]
    exact failed
  · rw [select.recorded]
    rfl

end SqlAssembly
