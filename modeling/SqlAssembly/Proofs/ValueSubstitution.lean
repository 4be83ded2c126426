import SqlAssembly.Proofs.Construction
import SqlAssembly.Proofs.ValueMap

/-! Other values passed to the same calls give the same text. The calls look at a value only to see
   whether it is NULL, so a substitution that keeps NULL apart goes through every one of them. -/
namespace SqlAssembly

section Definitions

variable (s : Value → Value)

mutual

def ExprTree.mapValues : ExprTree → ExprTree
  | .term t => .term t
  | .subquery cs => .subquery (mapQueryCalls cs)
  | .aliased e label => .aliased e.mapValues label

def CondTree.mapValues : CondTree → CondTree
  | .compare column op value => .compare column op (s value)
  | .member column polarity values => .member column polarity (values.map s)
  | .memberOf column polarity cs => .memberOf column polarity (mapQueryCalls cs)
  | .between column polarity low high => .between column polarity (s low) (s high)
  | .nullTest column polarity => .nullTest column polarity
  | .existence polarity e => .existence polarity e.mapValues
  | .raw sql values => .raw sql (values.map s)
  | .conj a b => .conj a.mapValues b.mapValues
  | .disj a b => .disj a.mapValues b.mapValues
  | .neg a => .neg a.mapValues
  | .case cs => .case (mapCaseCalls cs)

def CaseCall.mapValues : CaseCall → CaseCall
  | .when t v => .when t.mapValues (s v)
  | .otherwise v => .otherwise (s v)

def QueryCall.mapValues : QueryCall → QueryCall
  | .columns es => .columns (mapExprTrees es)
  | .distinct => .distinct
  | .source e => .source e.mapValues
  | .join kind target left right => .join kind target.mapValues left right
  | .filter t => .filter t.mapValues
  | .groupBy es => .groupBy (mapExprTrees es)
  | .groupFilter t => .groupFilter t.mapValues
  | .orderBy e asked => .orderBy e.mapValues asked
  | .limit n => .limit n
  | .offset n => .offset n
  | .compose other => .compose (mapComposed other)
  | .dialect d => .dialect d

def mapExprTrees : List ExprTree → List ExprTree
  | [] => []
  | e :: es => e.mapValues :: mapExprTrees es

def mapCaseCalls : List CaseCall → List CaseCall
  | [] => []
  | c :: cs => c.mapValues :: mapCaseCalls cs

def mapQueryCalls : List QueryCall → List QueryCall
  | [] => []
  | c :: cs => c.mapValues :: mapQueryCalls cs

def mapComposed : Option (List QueryCall) → Option (List QueryCall)
  | none => none
  | some cs => some (mapQueryCalls cs)

end

def Rows.Edit.mapValues : Rows.Edit → Rows.Edit
  | .columns names => .columns names
  | .values row => .values (row.map s)
  | .valuesMany rows => .valuesMany (rows.map fun row => row.map s)

def mapRowCall : Builder.Call Rows.Edit → Builder.Call Rows.Edit
  | .edit e => .edit (e.mapValues s)
  | .dialect d => .dialect d

def UpdateCall.mapValues : UpdateCall → UpdateCall
  | .set column v => .set column (s v)
  | .setRaw column sql => .setRaw column sql
  | .filter t => .filter (t.mapValues s)
  | .dialect d => .dialect d

def DeleteCall.mapValues : DeleteCall → DeleteCall
  | .filter t => .filter (t.mapValues s)
  | .dialect d => .dialect d

/-- The same calls, with every value that is passed to one of them replaced. -/
def StatementTree.mapValues : StatementTree → StatementTree
  | .select cs => .select (mapQueryCalls s cs)
  | .insert table cs => .insert (table.mapValues s) (cs.map (mapRowCall s))
  | .update table cs => .update (table.mapValues s) (cs.map (UpdateCall.mapValues s))
  | .delete table cs => .delete (table.mapValues s) (cs.map (DeleteCall.mapValues s))
  | .upsert table cs conflicts => .upsert (table.mapValues s) (cs.map (mapRowCall s)) conflicts
  | .returning inner columns dialects => .returning inner.mapValues columns dialects

end Definitions

variable {s : Value → Value}

theorem mapExprTrees_eq_map (es : List ExprTree) :
    mapExprTrees s es = es.map (ExprTree.mapValues s) := by
  induction es with
  | nil => rfl
  | cons e es ih => rw [mapExprTrees, ih, List.map_cons]

theorem mapQueryCalls_eq_map (cs : List QueryCall) :
    mapQueryCalls s cs = cs.map (QueryCall.mapValues s) := by
  induction cs with
  | nil => rfl
  | cons c cs ih => rw [mapQueryCalls, ih, List.map_cons]

def Builder.mapContent {α : Type} (f : α → α) (b : Builder α) : Builder α :=
  { b with state := b.state.map f }

/-- The second call does to changed content what the first does to the content before the
    change. -/
def Builder.Call.Follows {α ε : Type} (apply : ε → α → Except BuildError α) (f : α → α) :
    Builder.Call ε → Builder.Call ε → Prop
  | .edit e, .edit e' => ∀ a, apply e' (f a) = (apply e a).map f
  | .dialect d, .dialect d' => d' = d
  | _, _ => False

theorem call_mapContent {α ε : Type} {apply : ε → α → Except BuildError α} {f : α → α}
    {c c' : Builder.Call ε} (follows : c.Follows apply f c') (b : Builder α) :
    Builder.call apply (b.mapContent f) c' = (Builder.call apply b c).mapContent f := by
  cases c with
  | edit e =>
    cases c' with
    | dialect d => exact absurd follows id
    | edit e' =>
      rcases b with ⟨state, d⟩
      cases state with
      | error cause => rfl
      | ok a => exact congrArg (Builder.mk · d) (follows a)
  | dialect d =>
    cases c' with
    | edit e => exact absurd follows id
    | dialect d' =>
      have same : d' = d := follows
      rw [same]
      rfl

theorem calls_mapContent {α ε κ : Type} {apply : ε → α → Except BuildError α} {f : α → α}
    {call call' : κ → Builder.Call ε} {cs : List κ}
    (follow : ∀ c ∈ cs, (call c).Follows apply f (call' c)) (b : Builder α) :
    (b.mapContent f).calls apply (cs.map call') = (b.calls apply (cs.map call)).mapContent f := by
  induction cs generalizing b with
  | nil => rfl
  | cons c cs ih =>
    have later := fun d member => follow d (List.mem_cons_of_mem c member)
    have first := call_mapContent (follow c List.mem_cons_self) b
    change Builder.calls apply (Builder.call apply (b.mapContent f) (call' c)) (cs.map call') = _
    rw [first]
    exact ih later _

theorem query_mapValues_eq (q : Query) :
    q.mapValues s =
      { q with
        columns := q.columns.map (Expr.mapValues s)
        source := q.source.map (Expr.mapValues s)
        joins := q.joins.map (Join.mapValues s)
        filters := q.filters.map (Predicate.mapValues s)
        groupFilters := q.groupFilters.map (Predicate.mapValues s) } := by
  rcases q with
    ⟨distinct, columns, source, joins, filters, groups, groupFilters, order, limit, offset⟩
  rw [Query.mapValues, mapExprs_eq_map, mapSource_eq_map, mapJoins_eq_map, mapPredicates_eq_map,
    mapPredicates_eq_map]

theorem merge_mapValues (q r : Query) :
    (q.merge r).mapValues s = (q.mapValues s).merge (r.mapValues s) := by
  simp only [query_mapValues_eq, Query.merge, List.map_append, Option.map_or]

theorem isBlank_mapValues (e : Expr) : (e.mapValues s).isBlank = e.isBlank := by
  have all : Hereditary (fun e => (e.mapValues s).isBlank = e.isBlank) (fun _ => True) := {
    term := fun _ => rfl
    subquery := fun _ _ => rfl
    aliased := fun _ _ inner => inner
    failed := fun _ _ => trivial
    query := fun _ _ _ => trivial }
  exact all.expr e

theorem term_mapValues (clause : StrictClause) (e : Expr) :
    Query.term clause (e.mapValues s) = Query.term clause e := by
  cases e with
  | term t => rfl
  | subquery q => rfl
  | aliased e label => rfl

theorem terms_mapValues (clause : StrictClause) (es : List Expr) :
    (es.map (Expr.mapValues s)).mapM (Query.term clause) = es.mapM (Query.term clause) := by
  induction es with
  | nil => rfl
  | cons e es ih => rw [List.map_cons, List.mapM_cons, List.mapM_cons, term_mapValues, ih]

theorem table_mapValues (e : Expr) :
    Query.table (e.mapValues s) = (Query.table e).map (Expr.mapValues s) := by
  simp only [Query.table, isBlank_mapValues]
  cases e.isBlank <;> rfl

abbrev ExprCommutes (s : Value → Value) (e : ExprTree) : Prop :=
  (e.mapValues s).expr = e.expr.mapValues s

abbrev CondCommutes (s : Value → Value) (t : CondTree) : Prop :=
  (t.mapValues s).condition = t.condition.mapValues s

abbrev QueryCommutes (s : Value → Value) (cs : List QueryCall) : Prop :=
  selectOf (mapQueryCalls s cs) = mapSelect s (selectOf cs)

theorem exprs_commute {es : List ExprTree} (each : ∀ e ∈ es, ExprCommutes s e) :
    exprsOf (mapExprTrees s es) = (exprsOf es).map (Expr.mapValues s) := by
  rw [mapExprTrees_eq_map, exprsOf_eq_map, exprsOf_eq_map, List.map_map, List.map_map]
  exact List.map_congr_left each

/-- An edit that first obtains something and then enters it commutes when both of its steps do. -/
theorem entry_commutes {α β : Type} {x x' : Except BuildError β} {g : β → β} {f : α → α}
    {enter enter' : β → α} (obtained : x' = x.map g) (entered : ∀ b, enter' (g b) = f (enter b)) :
    (do return enter' (← x')) = Except.map f (do return enter (← x)) := by
  rw [obtained]
  cases x with
  | error e => rfl
  | ok b => exact congrArg Except.ok (entered b)

theorem map_id_except {β : Type} (x : Except BuildError β) : x = x.map fun b => b := by
  cases x <;> rfl

theorem query_call_follows {c : QueryCall}
    (passes : c.Passes (ExprCommutes s) (CondCommutes s) (QueryCommutes s)) :
    c.call.Follows Query.edit (Query.mapValues s) (c.mapValues s).call := by
  cases c with
  | dialect d => rfl
  | columns es =>
    intro q
    rw [exprs_commute passes]
    simp only [Query.edit, query_mapValues_eq, Except.map, List.map_append]
  | source e =>
    intro q
    have table := table_mapValues (s := s) e.expr
    rw [← show (e.mapValues s).expr = e.expr.mapValues s from passes] at table
    apply entry_commutes table
    intro t
    simp only [query_mapValues_eq, Option.map_some]
  | join kind target left right =>
    intro q
    have table := table_mapValues (s := s) target.expr
    rw [← show (target.mapValues s).expr = target.expr.mapValues s from passes] at table
    apply entry_commutes table
    intro t
    simp only [query_mapValues_eq, List.map_append]
    rfl
  | filter t =>
    intro q
    apply entry_commutes passes
    intro p
    simp only [query_mapValues_eq, List.map_append, List.map_cons, List.map_nil]
  | groupFilter t =>
    intro q
    apply entry_commutes passes
    intro p
    simp only [query_mapValues_eq, List.map_append, List.map_cons, List.map_nil]
  | groupBy es =>
    intro q
    have terms := terms_mapValues (s := s) .groupBy (exprsOf es)
    rw [← exprs_commute passes] at terms
    apply entry_commutes (terms.trans (map_id_except _))
    intro ts
    simp only [query_mapValues_eq]
  | orderBy e asked =>
    intro q
    have term := term_mapValues (s := s) .orderBy e.expr
    rw [← show (e.mapValues s).expr = e.expr.mapValues s from passes] at term
    apply entry_commutes (term.trans (map_id_except _))
    intro t
    simp only [query_mapValues_eq]
  | compose other =>
    intro q
    cases other with
    | none => rfl
    | some cs =>
      have same : selectOf (mapQueryCalls s cs) = mapSelect s (selectOf cs) := passes cs rfl
      have state := congrArg Builder.state same
      rw [mapSelect_eq] at state
      exact entry_commutes state fun r => (merge_mapValues q r).symm
  | _ =>
    intro q
    simp only [Query.edit, query_mapValues_eq, Except.map]

theorem case_call_commutes (c : CaseExpr) (call : CaseCall)
    (branch : ∀ t v, call = .when t v → CondCommutes s t) :
    (call.mapValues s).apply (c.mapValues s) = (call.apply c).mapValues s := by
  cases call with
  | otherwise v => rfl
  | when t v =>
    have same : (t.mapValues s).condition = t.condition.mapValues s := branch t v rfl
    simp only [CaseCall.mapValues, CaseCall.apply, CaseExpr.when, CaseExpr.mapValues, same,
      List.map_append, List.map_cons, List.map_nil]

theorem case_calls_commute (c : CaseExpr) {cs : List CaseCall}
    (branches : ∀ t v, CaseCall.when t v ∈ cs → CondCommutes s t) :
    caseExpr (c.mapValues s) (mapCaseCalls s cs) = (caseExpr c cs).mapValues s := by
  induction cs generalizing c with
  | nil => rfl
  | cons call cs ih =>
    have first := case_call_commutes c call fun t v same =>
      branches t v (same ▸ List.mem_cons_self)
    rw [mapCaseCalls, caseExpr, caseExpr, first]
    exact ih _ fun t v member => branches t v (List.mem_cons_of_mem call member)

theorem commutes_compositional (keeps : KeepsNull s) :
    Compositional (ExprCommutes s) (CondCommutes s) (QueryCommutes s) where
  term _ := rfl
  subquery _ inner := congrArg Expr.subquery inner
  aliased _ label inner := congrArg (Expr.aliased · label) inner
  compare := compare_mapValues keeps
  member := member_mapValues keeps
  memberOf column polarity _ inner := congrArg (Condition.memberOf column polarity) inner
  between := between_mapValues keeps
  nullTest _ _ := rfl
  existence polarity e inner :=
    (congrArg (Condition.existence polarity) inner).trans (existence_mapValues polarity e.expr)
  raw := raw_mapValues
  conj a b left right := by
    change (a.mapValues s).condition.conj (b.mapValues s).condition = _
    rw [show (a.mapValues s).condition = _ from left, show (b.mapValues s).condition = _ from right]
    exact (conj_condition_mapValues _ _).symm
  disj a b left right := by
    change (a.mapValues s).condition.disj (b.mapValues s).condition = _
    rw [show (a.mapValues s).condition = _ from left, show (b.mapValues s).condition = _ from right]
    exact (disj_condition_mapValues _ _).symm
  neg a inner := by
    change (a.mapValues s).condition.neg = _
    rw [show (a.mapValues s).condition = _ from inner]
    exact (neg_condition_mapValues _).symm
  case cs branches := by
    change (caseExpr (CaseExpr.mapValues s {}) (mapCaseCalls s cs)).condition = _
    rw [case_calls_commute {} branches]
    exact case_condition_mapValues _
  calls cs passes := by
    have start : Select.empty = Select.empty.mapContent (Query.mapValues s) := rfl
    change selectOf (mapQueryCalls s cs) = mapSelect s (selectOf cs)
    rw [mapSelect_eq, selectOf, selectOf, mapQueryCalls_eq_map, queryCalls_eq_map,
      queryCalls_eq_map, List.map_map, start]
    exact calls_mapContent (fun c member => query_call_follows (passes c member)) _

section Statements

variable (s)

def Assigned.mapValues : Assigned → Assigned
  | .value v => .value (s v)
  | .raw sql => .raw sql

def Rows.mapValues (r : Rows) : Rows := { r with rows := r.rows.map fun row => row.map s }

def Changes.mapValues (c : Changes) : Changes where
  table := c.table
  assignments := c.assignments.map fun a => (a.1, a.2.mapValues s)
  filters := mapPredicates s c.filters

def Removal.mapValues (r : Removal) : Removal := { r with filters := mapPredicates s r.filters }

def Statement.mapValues : Statement → Statement
  | .select q => .select (mapSelect s q)
  | .insert b => .insert (b.mapContent (Rows.mapValues s))
  | .update b => .update (b.mapContent (Changes.mapValues s))
  | .delete b => .delete (b.mapContent (Removal.mapValues s))
  | .upsert u => .upsert { u with insert := u.insert.mapContent (Rows.mapValues s) }
  | .returning inner columns own => .returning inner.mapValues columns own

end Statements

theorem fault_mapValues (r : Rows) : (r.mapValues s).fault? = r.fault? := by
  have misfit (expected i : Nat) (rows : List (List Value)) :
      Rows.misfit? expected i (rows.map fun row => row.map s) = Rows.misfit? expected i rows := by
    induction rows generalizing i with
    | nil => rfl
    | cons row rows ih =>
      simp only [List.map_cons, Rows.misfit?, List.length_map, ih]
  simp only [Rows.fault?, Rows.mapValues, List.isEmpty_map, misfit]

theorem row_mapValues (row : List Value) :
    Rows.rowScript (row.map s) = Script.mapValues s (Rows.rowScript row) := by
  rw [Rows.rowScript, Rows.rowScript, mapValues_parenthesized, mapValues_separated, List.map_map,
    List.map_map]
  rfl

theorem rows_mapValues (r : Rows) : (r.mapValues s).script = Script.mapValues s r.script := by
  have table := mapValues_term (s := s) r.table
  have names : Script.mapValues s (Script.names r.columns) = Script.names r.columns :=
    mapValues_unbound (arguments_of_payload (payload_names r.columns))
  have rows : (r.rows.map fun row => row.map s).map Rows.rowScript =
      (r.rows.map Rows.rowScript).map (Script.mapValues s) := by
    rw [List.map_map, List.map_map]
    exact List.map_congr_left fun row _ => row_mapValues row
  rw [Rows.script, Rows.script, fault_mapValues]
  cases r.fault? with
  | some e => rfl
  | none =>
    simp only [List.cons_append, List.append_assoc, mapValues_text, mapValues_append,
      mapValues_separated, table, names]
    rw [← rows]
    rfl

theorem where_mapValues (ps : List Predicate) :
    whereClause (mapPredicates s ps) = Script.mapValues s (whereClause ps) := by
  rw [whereClause, whereClause, operands_eq_map, operands_eq_map]
  exact mapValues_predicates (fun p _ q _ => mapValues_select q) "WHERE"

theorem assignment_mapValues (a : String × Assigned) :
    Changes.assignmentScript (a.1, a.2.mapValues s) =
      Script.mapValues s (Changes.assignmentScript a) := by
  rcases a with ⟨column, value | sql⟩ <;> rfl

theorem changes_mapValues (c : Changes) :
    (c.mapValues s).script = Script.mapValues s c.script := by
  have table := mapValues_term (s := s) c.table
  have assignments :
      (c.assignments.map fun a => (a.1, a.2.mapValues s)).map Changes.assignmentScript =
        (c.assignments.map Changes.assignmentScript).map (Script.mapValues s) := by
    rw [List.map_map, List.map_map]
    exact List.map_congr_left fun a _ => assignment_mapValues a
  simp only [Changes.script, Changes.mapValues, List.isEmpty_map]
  cases c.assignments.isEmpty with
  | true => rfl
  | false =>
    simp only [Bool.false_eq_true, ↓reduceIte, List.cons_append, List.append_assoc,
      mapValues_text, mapValues_append, mapValues_separated, table, where_mapValues]
    rw [assignments]

theorem removal_mapValues (r : Removal) :
    (r.mapValues s).script = Script.mapValues s r.script := by
  have table := mapValues_term (s := s) r.table
  simp only [Removal.script, Removal.mapValues, List.cons_append, mapValues_text,
    mapValues_append, table, where_mapValues]

theorem insert_mapValues (b : Insert) :
    Insert.script (b.mapContent (Rows.mapValues s)) = Script.mapValues s (Insert.script b) := by
  rcases b with ⟨e | r, d⟩
  · rfl
  · exact rows_mapValues r

theorem statement_mapValues : ∀ st : Statement,
    (st.mapValues s).script = Script.mapValues s st.script
  | .select q => mapValues_select q
  | .insert b => insert_mapValues b
  | .update ⟨.ok c, _⟩ => changes_mapValues c
  | .update ⟨.error _, _⟩ => rfl
  | .delete ⟨.ok r, _⟩ => removal_mapValues r
  | .delete ⟨.error _, _⟩ => rfl
  | .upsert u => by
    change Insert.script _ ++ _ = Script.mapValues s (Insert.script u.insert ++ _)
    rw [insert_mapValues, mapValues_append]
    cases u.conflict with
    | error e => rfl
    | ok c =>
      change _ ++ c.script = _ ++ Script.mapValues s c.script
      rw [mapValues_unbound (arguments_conflict c)]
  | .returning inner columns _ => by
    change (inner.mapValues s).script ++ _ = Script.mapValues s (inner.script ++ _)
    rw [statement_mapValues inner, mapValues_append,
      mapValues_unbound (arguments_returning columns)]

theorem recorded_mapValues (st : Statement) : (st.mapValues s).recorded? = st.recorded? := by
  have content {α : Type} (f : α → α) (b : Builder α) : (b.mapContent f).error? = b.error? := by
    rcases b with ⟨state, d⟩
    cases state <;> rfl
  cases st with
  | select q =>
    change (mapSelect s q).error? = q.error?
    rw [mapSelect_eq]
    exact content _ q
  | insert b => exact content _ b
  | update b => exact content _ b
  | delete b => exact content _ b
  | upsert u => rfl
  | returning inner columns own => rfl

theorem mutationTable_mapValues (clause : StrictClause) (e : Expr) :
    mutationTable clause (e.mapValues s) = mutationTable clause e := by
  cases e with
  | term t => rfl
  | subquery q => rfl
  | aliased e label => rfl

/-- A statement that has only its table holds no values yet. -/
theorem begun_mapValues {α : Type} (keeps : KeepsNull s) (clause : StrictClause) (table : ExprTree)
    {start : Term → α} {f : α → α} (fixed : ∀ t, f (start t) = start t) :
    Builder.mk ((mutationTable clause (table.mapValues s).expr).map start) none =
      Builder.mapContent f ⟨(mutationTable clause table.expr).map start, none⟩ := by
  rw [show (table.mapValues s).expr = _ from (commutes_compositional keeps).expr table,
    mutationTable_mapValues]
  cases mutationTable clause table.expr with
  | error e => rfl
  | ok t => exact congrArg (fun a => Builder.mk (.ok a) none) (fixed t).symm

theorem row_call_follows (c : Builder.Call Rows.Edit) :
    c.Follows Rows.edit (Rows.mapValues s) (mapRowCall s c) := by
  cases c with
  | dialect d => rfl
  | edit e =>
    intro r
    cases e with
    | columns names => rfl
    | values row => simp [Rows.Edit.mapValues, Rows.edit, Rows.mapValues, Except.map]
    | valuesMany rows => simp [Rows.Edit.mapValues, Rows.edit, Rows.mapValues, Except.map]

theorem changes_filters (c : Changes) (p : Predicate) :
    { c.mapValues s with filters := (c.mapValues s).filters ++ [p.mapValues s] } =
      Changes.mapValues s { c with filters := c.filters ++ [p] } := by
  simp only [Changes.mapValues, mapPredicates_eq_map, List.map_append, List.map_cons,
    List.map_nil]

theorem update_call_follows (keeps : KeepsNull s) (c : UpdateCall) :
    c.call.Follows Changes.edit (Changes.mapValues s) (c.mapValues s).call := by
  cases c with
  | dialect d => rfl
  | set column v =>
    intro c
    simp [Changes.edit, Changes.mapValues, Assigned.mapValues, Except.map]
  | setRaw column sql =>
    intro c
    simp [Changes.edit, Changes.mapValues, Assigned.mapValues, Except.map]
  | filter t =>
    intro c
    exact entry_commutes ((commutes_compositional keeps).cond t) fun p => changes_filters c p

theorem delete_call_follows (keeps : KeepsNull s) (c : DeleteCall) :
    c.call.Follows Removal.edit (Removal.mapValues s) (c.mapValues s).call := by
  cases c with
  | dialect d => rfl
  | filter t =>
    intro r
    apply entry_commutes ((commutes_compositional keeps).cond t)
    intro p
    simp only [Removal.mapValues, mapPredicates_eq_map, List.map_append, List.map_cons,
      List.map_nil]

theorem insertOf_mapValues (keeps : KeepsNull s) (table : ExprTree)
    (cs : List (Builder.Call Rows.Edit)) :
    insertOf (table.mapValues s) (cs.map (mapRowCall s)) =
      (insertOf table cs).mapContent (Rows.mapValues s) := by
  have start : Insert.into (table.mapValues s).expr =
      (Insert.into table.expr).mapContent (Rows.mapValues s) :=
    begun_mapValues keeps .insert table fun _ => rfl
  have same : Builder.calls Rows.edit ((Insert.into table.expr).mapContent (Rows.mapValues s))
      (cs.map (mapRowCall s)) =
      (Builder.calls Rows.edit (Insert.into table.expr) (cs.map id)).mapContent
        (Rows.mapValues s) := calls_mapContent (fun c _ => row_call_follows c) _
  rw [List.map_id] at same
  rw [insertOf, insertOf, start]
  exact same

theorem updateOf_mapValues (keeps : KeepsNull s) (table : ExprTree) (cs : List UpdateCall) :
    updateOf (table.mapValues s) (cs.map (UpdateCall.mapValues s)) =
      (updateOf table cs).mapContent (Changes.mapValues s) := by
  have start : Update.of (table.mapValues s).expr =
      (Update.of table.expr).mapContent (Changes.mapValues s) :=
    begun_mapValues keeps .update table fun _ => rfl
  rw [updateOf, updateOf, start, List.map_map]
  exact calls_mapContent (fun c _ => update_call_follows keeps c) _

theorem deleteOf_mapValues (keeps : KeepsNull s) (table : ExprTree) (cs : List DeleteCall) :
    deleteOf (table.mapValues s) (cs.map (DeleteCall.mapValues s)) =
      (deleteOf table cs).mapContent (Removal.mapValues s) := by
  have start : Delete.of (table.mapValues s).expr =
      (Delete.of table.expr).mapContent (Removal.mapValues s) :=
    begun_mapValues keeps .delete table fun _ => rfl
  rw [deleteOf, deleteOf, start, List.map_map]
  exact calls_mapContent (fun c _ => delete_call_follows keeps c) _

theorem conflicts_mapValues (u : Upsert) (cs : List (Builder.Call Conflict.Edit)) :
    cs.foldl upsertCall { u with insert := u.insert.mapContent (Rows.mapValues s) } =
      { cs.foldl upsertCall u with
        insert := (cs.foldl upsertCall u).insert.mapContent (Rows.mapValues s) } := by
  induction cs generalizing u with
  | nil => rfl
  | cons c cs ih =>
    cases c with
    | edit e => exact ih (u.edit e)
    | dialect d => exact ih (u.withDialect d)

theorem dialects_mapValues (st : Statement) (ds : List Dialect) :
    ds.foldl (fun st d => st.withDialect d) (st.mapValues s) =
      (ds.foldl (fun st d => st.withDialect d) st).mapValues s := by
  induction ds generalizing st with
  | nil => rfl
  | cons d ds ih =>
    have step : (st.mapValues s).withDialect d = (st.withDialect d).mapValues s := by
      cases st with
      | select q =>
        change Statement.select ((mapSelect s q).withDialect d) =
          .select (mapSelect s (q.withDialect d))
        rw [mapSelect_eq, mapSelect_eq]
        rfl
      | _ => rfl
    rw [List.foldl_cons, List.foldl_cons, step]
    exact ih (st.withDialect d)

/-- Replacing the values before the calls or after them comes to the same. -/
theorem tree_mapValues (keeps : KeepsNull s) (t : StatementTree) :
    (t.mapValues s).statement = t.statement.mapValues s := by
  induction t with
  | select cs => exact congrArg Statement.select ((commutes_compositional keeps).query cs)
  | insert table cs => exact congrArg Statement.insert (insertOf_mapValues keeps table cs)
  | update table cs => exact congrArg Statement.update (updateOf_mapValues keeps table cs)
  | delete table cs => exact congrArg Statement.delete (deleteOf_mapValues keeps table cs)
  | upsert table cs conflicts =>
    refine congrArg Statement.upsert ?_
    rw [insertOf_mapValues keeps]
    exact conflicts_mapValues { insert := insertOf table cs } conflicts
  | returning inner columns dialects ih =>
    have wrapped := dialects_mapValues (s := s) (Statement.returning inner.statement columns none)
      dialects
    change dialects.foldl _ (Statement.returning (inner.mapValues s).statement columns none) = _
    rw [ih]
    exact wrapped

theorem buildWith_mapValues (st : Statement) (d : Dialect) :
    (st.mapValues s).buildWith d = (st.buildWith d).map (Built.mapValues s) := by
  rw [Statement.buildWith, statement_mapValues, build_mapValues]
  rfl

/-- All that a call can tell of a value: whether it is NULL. -/
def masked (v : Value) : Value := if v.isNull then .null else .bool false

theorem keepsNull_masked : KeepsNull masked := by
  intro v
  cases v <;> rfl

/-- Values reach the argument list and nothing else: replaced beforehand they come out replaced,
    beside the same text or the same error. Statements that differ in nothing but the contents of
    their values have one text. -/
theorem values_never_reach_the_text :
    (∀ s : Value → Value, (∀ v, s v = .null ↔ v = .null) → ∀ t : StatementTree,
      (t.mapValues s).statement.recorded? = t.statement.recorded? ∧
        ∀ d, (t.mapValues s).statement.buildWith d =
          (t.statement.buildWith d).map fun b => ⟨b.sql, b.arguments.map s⟩) ∧
      ∀ t t' : StatementTree, t.mapValues masked = t'.mapValues masked →
        t.statement.recorded? = t'.statement.recorded? ∧
          ∀ d, (t.statement.buildWith d).map Built.sql =
            (t'.statement.buildWith d).map Built.sql := by
  have replaced {s : Value → Value} (keeps : KeepsNull s) (t : StatementTree) :
      (t.mapValues s).statement.recorded? = t.statement.recorded? ∧
        ∀ d, (t.mapValues s).statement.buildWith d =
          (t.statement.buildWith d).map (Built.mapValues s) := by
    rw [tree_mapValues keeps]
    exact ⟨recorded_mapValues _, buildWith_mapValues _⟩
  constructor
  · intro s faithful t
    have keeps : KeepsNull s := by
      intro v
      rw [Bool.eq_iff_iff, isNull_iff, isNull_iff]
      exact faithful v
    exact replaced keeps t
  · intro t t' same
    have text (t : StatementTree) (d : Dialect) :
        ((t.mapValues masked).statement.buildWith d).map Built.sql =
          (t.statement.buildWith d).map Built.sql := by
      rw [(replaced keepsNull_masked t).2 d]
      cases t.statement.buildWith d <;> rfl
    constructor
    · rw [← (replaced keepsNull_masked t).1, ← (replaced keepsNull_masked t').1, same]
    · intro d
      rw [← text t d, ← text t' d, same]

/-- A quote and a comment in every value, and the text does not change. -/
theorem hostile_values_stay_arguments :
    (StatementTree.statement (.mapValues (fun v => if v.isNull then v else .text "' --")
        (.update (.term (.name "users"))
          [.set "name" (.text "x"), .set "note" .null,
            .filter (.disj (.compare "id" .eq (.int 7)) (.compare "gone" .eq .null))]))).buildWith
        .postgres =
      .ok ⟨"UPDATE \"users\" SET \"name\" = $1, \"note\" = $2 WHERE (id = $3) OR (gone IS NULL)",
        [.text "' --", .null, .text "' --"]⟩ := by
  have faithful : ∀ v : Value, (if v.isNull then v else .text "' --") = .null ↔ v = .null := by
    intro v
    cases v <;> simp [Value.isNull]
  refine ((values_never_reach_the_text.1 _ faithful _).2 .postgres).trans ?_
  decide

end SqlAssembly
