import SqlAssembly.Proofs.DocumentOrder
import SqlAssembly.Proofs.FirstFault
import SqlAssembly.Proofs.NestedQueries
import SqlAssembly.Proofs.Parenthesization

/-! A failed query is noticed where it is written. Of several the one written first is reported, and
   the report says how deep it lies. -/
namespace SqlAssembly

/-- A query together with its depth below the statement that it is written in. -/
abbrev Placed := Nat × Select

def deeper (inside : List Placed) : List Placed := inside.map fun x => (x.1 + 1, x.2)

mutual

/-- The queries that are written, each of them before those inside it. A failed query does not come
    to writing what is inside it. -/
def queriesOf : Builder Query → List Placed
  | ⟨.ok q, d⟩ => (0, ⟨.ok q, d⟩) :: q.queries
  | ⟨.error e, d⟩ => [(0, ⟨.error e, d⟩)]

def Query.queries : Query → List Placed
  | ⟨_, columns, source, joins, filters, _, groupFilters, _, _, _⟩ =>
    exprQueries columns ++ sourceQueries source ++ joinQueries joins ++ filterQueries filters ++
      filterQueries groupFilters

def Expr.queries : Expr → List Placed
  | .term _ => []
  | .subquery s => deeper (queriesOf s)
  | .aliased e _ => e.queries

def Join.queries : Join → List Placed
  | ⟨_, target, _⟩ => target.queries

def Part.queries : Part → List Placed
  | .text _ _ => []
  | .subquery s => deeper (queriesOf s)

def Predicate.queries : Predicate → List Placed
  | ⟨parts, _⟩ => partQueries parts

def exprQueries : List Expr → List Placed
  | [] => []
  | e :: es => e.queries ++ exprQueries es

def sourceQueries : Option Expr → List Placed
  | none => []
  | some e => e.queries

def joinQueries : List Join → List Placed
  | [] => []
  | j :: js => j.queries ++ joinQueries js

def partQueries : List Part → List Placed
  | [] => []
  | p :: ps => p.queries ++ partQueries ps

def filterQueries : List Predicate → List Placed
  | [] => []
  | p :: ps => p.queries ++ filterQueries ps

end

/-- An error as it is reported that many levels above. -/
def reportedAt : Nat → BuildError → BuildError
  | 0, e => e
  | k + 1, e => .subquery (reportedAt k e)

/-- What is reported when this query is written. -/
def Placed.report? (x : Placed) : Option BuildError := x.2.error?.map (reportedAt x.1)

/-- The script fails with the first report among these queries. -/
def FailsBy (script : Script) (inside : List Placed) : Prop :=
  script.failure? = inside.findSome? Placed.report?

theorem exprQueries_eq_flatMap (es : List Expr) : exprQueries es = es.flatMap Expr.queries := by
  induction es with
  | nil => rfl
  | cons e es ih => rw [exprQueries, ih, List.flatMap_cons]

theorem sourceQueries_eq_flatMap (source : Option Expr) :
    sourceQueries source = source.toList.flatMap Expr.queries := by
  cases source with
  | none => rfl
  | some e => exact (List.append_nil _).symm

theorem joinQueries_eq_flatMap (js : List Join) :
    joinQueries js = js.flatMap fun j => j.target.queries := by
  induction js with
  | nil => rfl
  | cons j js ih =>
    rcases j with ⟨kind, target, on⟩
    rw [joinQueries, ih, List.flatMap_cons, Join.queries]

theorem partQueries_eq_flatMap (ps : List Part) : partQueries ps = ps.flatMap Part.queries := by
  induction ps with
  | nil => rfl
  | cons p ps ih => rw [partQueries, ih, List.flatMap_cons]

theorem filterQueries_eq_flatMap (ps : List Predicate) :
    filterQueries ps = ps.flatMap Predicate.queries := by
  induction ps with
  | nil => rfl
  | cons p ps ih => rw [filterQueries, ih, List.flatMap_cons]

theorem queries_query (q : Query) :
    q.queries =
      q.columns.flatMap Expr.queries ++ q.source.toList.flatMap Expr.queries ++
        q.joins.flatMap (fun j => j.target.queries) ++ q.filters.flatMap Predicate.queries ++
        q.groupFilters.flatMap Predicate.queries := by
  cases q
  simp only [Query.queries, exprQueries_eq_flatMap, sourceQueries_eq_flatMap,
    joinQueries_eq_flatMap, filterQueries_eq_flatMap]

theorem queries_predicate (p : Predicate) :
    p.queries = p.nested.flatMap fun s => deeper (queriesOf s) := by
  rcases p with ⟨parts, disjunction⟩
  have part (p : Part) : p.queries = p.nested.flatMap fun s => deeper (queriesOf s) := by
    cases p with
    | text sql values => rfl
    | subquery s => exact (List.append_nil _).symm
  rw [Predicate.queries, partQueries_eq_flatMap, Predicate.nested, List.flatMap_assoc]
  exact List.flatMap_congr fun p _ => part p

/-- The connectives leave the queries of their operands in the order of the operands. -/
theorem queries_condition (t : CondTree) (p : Predicate) (sound : t.condition = .ok p) :
    p.queries = t.nested.flatMap fun cs => deeper (queriesOf (selectOf cs)) := by
  have held : p.nested = t.nested.map selectOf := hold_condition t p sound
  rw [queries_predicate, held, List.flatMap_map]

theorem kind_reportedAt {e : BuildError} (direct : ∀ c, e ≠ .subquery c) (k : Nat) :
    (reportedAt k e).kind = .composition ↔ 1 ≤ k := by
  rw [BuildError.kind_composition_iff]
  cases k with
  | zero =>
    constructor
    · rintro ⟨c, nested⟩
      exact absurd nested (direct c)
    · intro positive
      omega
  | succ k =>
    constructor
    · intro _
      omega
    · intro _
      exact ⟨reportedAt k e, rfl⟩

theorem report_deeper (inside : List Placed) :
    (deeper inside).findSome? Placed.report? =
      (inside.findSome? Placed.report?).map .subquery := by
  induction inside with
  | nil => rfl
  | cons x inside ih =>
    rcases x with ⟨k, s⟩
    have first : Placed.report? (k + 1, s) = (Placed.report? (k, s)).map .subquery := by
      simp only [Placed.report?, Option.map_map]
      rfl
    change List.findSome? Placed.report? ((k + 1, s) :: deeper inside) = _
    rw [List.findSome?_cons, List.findSome?_cons, first, ih]
    cases Placed.report? (k, s) <;> rfl

theorem fails_payload {script : Script} {inside : List Placed} :
    FailsBy script.payload inside ↔ FailsBy script inside := by
  rw [FailsBy, FailsBy, failure_payload]

theorem fails_append {a b : Script} {xs ys : List Placed} (left : FailsBy a xs)
    (right : FailsBy b ys) : FailsBy (a ++ b) (xs ++ ys) := by
  unfold FailsBy at left right ⊢
  rw [failure_append, List.findSome?_append, left, right]

theorem fails_flatMap {α : Type} {f : α → Script} {g : α → List Placed} {xs : List α}
    (each : ∀ x ∈ xs, FailsBy (f x) (g x)) : FailsBy (xs.flatMap f) (xs.flatMap g) := by
  induction xs with
  | nil => rfl
  | cons x xs ih =>
    have rest := ih fun y member => each y (List.mem_cons_of_mem x member)
    exact fails_append (each x List.mem_cons_self) rest

theorem fails_nested {script : Script} {inside : List Placed} (h : FailsBy script inside) :
    FailsBy script.nested (deeper inside) := by
  unfold FailsBy at h ⊢
  rw [failure_nested, report_deeper, h]

theorem fails_predicate {p : Predicate}
    (nested : ∀ s, Part.subquery s ∈ p.parts → FailsBy (Select.script s) (queriesOf s)) :
    FailsBy p.script p.queries := by
  rcases p with ⟨parts, disjunction⟩
  rw [Predicate.script_eq, Predicate.queries, partQueries_eq_flatMap]
  apply fails_flatMap
  intro part member
  cases part with
  | text sql values => rfl
  | subquery s => exact fails_nested (nested s member)

theorem fails_filters {ps : List Predicate}
    (nested : Nested (fun s => FailsBy (Select.script s) (queriesOf s)) ps) :
    FailsBy (ps.flatMap fun p => p.script.payload) (ps.flatMap Predicate.queries) :=
  fails_flatMap fun p member => fails_payload.mpr (fails_predicate (nested p member))

theorem fails_query {q : Query}
    (h : Clausewise (fun e => FailsBy e.script e.queries)
      (fun s => FailsBy (Select.script s) (queriesOf s)) q) :
    FailsBy q.script q.queries := by
  rw [← fails_payload, payload_query, queries_query]
  refine fails_append (fails_append (fails_append (fails_append ?_ ?_) ?_)
    (fails_filters h.filters)) (fails_filters h.groupFilters)
  · exact fails_flatMap fun e member => fails_payload.mpr (h.columns e member)
  · exact fails_flatMap fun e member =>
      fails_payload.mpr (h.source e (Option.mem_toList.mp member))
  · exact fails_flatMap fun j member => fails_payload.mpr (h.joins j member)

theorem fails_hereditary :
    Hereditary (fun e => FailsBy e.script e.queries)
      (fun s => FailsBy (Select.script s) (queriesOf s)) where
  term t := fails_payload.mp (by rw [Expr.script, payload_term]; rfl)
  subquery _ := fails_nested
  aliased e label h := by
    have both := fails_append h (show FailsBy [.text (" AS " ++ label)] [] from rfl)
    rw [List.append_nil] at both
    exact both
  failed _ _ := rfl
  query _ _ := fails_query

/-! No call records an error of a nested query as such: it records an error of its own or takes over
   what another query has recorded. -/

theorem testFault_direct (t : CondTree) (c : BuildError) : t.testFault? ≠ some (.subquery c) := by
  intro fault
  cases t with
  | compare column op value =>
    simp only [CondTree.testFault?] at fault
    split at fault <;> cases fault
  | member column polarity values =>
    simp only [CondTree.testFault?] at fault
    split at fault
    · cases fault
    · split at fault <;> cases fault
  | between column polarity low high =>
    simp only [CondTree.testFault?] at fault
    split at fault <;> cases fault
  | existence polarity e =>
    cases e with
    | term t => cases t <;> cases fault
    | _ => cases fault
  | raw sql values =>
    simp only [CondTree.testFault?] at fault
    split at fault <;> cases fault
  | _ => cases fault

theorem fault_direct (t : CondTree) (c : BuildError) : t.fault? ≠ some (.subquery c) := by
  intro fault
  obtain ⟨test, -, same⟩ := List.exists_of_findSome?_eq_some fault
  exact testFault_direct test c same

theorem tableFault_direct (e : Expr) (c : BuildError) : e.tableFault? ≠ some (.subquery c) := by
  intro fault
  unfold Expr.tableFault? at fault
  split at fault <;> cases fault

theorem itemFault_direct (clause : StrictClause) (e : Expr) (c : BuildError) :
    e.itemFault? clause ≠ some (.subquery c) := by
  intro fault
  cases e <;> cases fault

theorem mutationFault_direct (clause : StrictClause) (e : Expr) (c : BuildError) :
    e.mutationFault? clause ≠ some (.subquery c) := by
  intro fault
  unfold Expr.mutationFault? at fault
  split at fault
  · split at fault <;> cases fault
  · split at fault <;> cases fault
  · cases fault

theorem none_direct (c : BuildError) : none ≠ some (BuildError.subquery c) :=
  (Option.some_ne_none _).symm

theorem calls_direct {α ε κ : Type} {apply : ε → α → Except BuildError α}
    {call : κ → Builder.Call ε} {fault? : κ → Option BuildError} {start : Builder α} {cs : List κ}
    {c : BuildError} (faults : ∀ k, (call k).Faults apply (fault? k))
    (opens : start.error? ≠ some (.subquery c))
    (each : ∀ k ∈ cs, fault? k ≠ some (.subquery c)) :
    (start.calls apply (cs.map call)).error? ≠ some (.subquery c) := by
  intro recorded
  rw [calls_error faults] at recorded
  rcases Option.or_eq_some_iff.mp recorded with first | ⟨-, later⟩
  · exact opens first
  · obtain ⟨k, member, fault⟩ := List.exists_of_findSome?_eq_some later
    exact each k member fault

theorem query_fault_direct {q : QueryCall} {c : BuildError}
    (passes : q.Passes (fun _ => True) (fun _ => True)
      (fun cs => (selectOf cs).error? ≠ some (.subquery c))) : q.fault? ≠ some (.subquery c) := by
  cases q with
  | source e => exact tableFault_direct e.expr c
  | join kind target left right => exact tableFault_direct target.expr c
  | filter t => exact fault_direct t c
  | groupFilter t => exact fault_direct t c
  | orderBy e asked => exact itemFault_direct .orderBy e.expr c
  | groupBy es =>
    intro fault
    obtain ⟨e, -, same⟩ := List.exists_of_findSome?_eq_some fault
    exact itemFault_direct .groupBy e c same
  | compose other =>
    cases other with
    | none => exact none_direct c
    | some cs => exact passes cs rfl
  | _ => exact none_direct c

theorem selectOf_direct (cs : List QueryCall) (c : BuildError) :
    (selectOf cs).error? ≠ some (.subquery c) := by
  induction cs using composed_induction with
  | calls cs passes =>
    rw [selectOf, queryCalls_eq_map]
    exact calls_direct query_call_faults (none_direct c) fun q member =>
      query_fault_direct (passes q member)

theorem begun_direct {α : Type} (clause : StrictClause) (table : Expr) (content : Term → α)
    (c : BuildError) :
    Builder.error? { state := (mutationTable clause table).map content } ≠ some (.subquery c) := by
  rw [begun_error]
  exact mutationFault_direct clause table c

theorem recorded_direct (t : StatementTree) (c : BuildError) :
    t.statement.recorded? ≠ some (.subquery c) := by
  cases t with
  | select cs => exact selectOf_direct cs c
  | insert table cs =>
    change (insertOf table cs).error? ≠ _
    rw [insertOf, ← List.map_id cs]
    exact calls_direct row_call_faults (begun_direct _ _ _ c) fun _ _ => none_direct c
  | update table cs =>
    refine calls_direct update_call_faults (begun_direct _ _ _ c) fun u _ => ?_
    cases u with
    | filter t => exact fault_direct t c
    | _ => exact none_direct c
  | delete table cs =>
    refine calls_direct delete_call_faults (begun_direct _ _ _ c) fun u _ => ?_
    cases u with
    | filter t => exact fault_direct t c
    | dialect d => exact none_direct c
  | upsert table cs conflicts => exact none_direct c
  | returning inner columns dialects =>
    rw [StatementTree.statement, recorded_withDialects]
    exact none_direct c

/-- What these queries have recorded is their own. -/
def Direct (inside : List Placed) : Prop := ∀ x ∈ inside, ∀ c, x.2.error? ≠ some (.subquery c)

theorem direct_deeper {inside : List Placed} (h : Direct inside) : Direct (deeper inside) := by
  intro x member
  obtain ⟨y, inner, rfl⟩ := List.mem_map.mp member
  exact h y inner

theorem direct_append {xs ys : List Placed} (left : Direct xs) (right : Direct ys) :
    Direct (xs ++ ys) := List.forall_mem_append.mpr ⟨left, right⟩

theorem direct_flatMap {α : Type} {f : α → List Placed} {xs : List α}
    (each : ∀ x ∈ xs, Direct (f x)) : Direct (xs.flatMap f) := by
  intro x member
  obtain ⟨y, inner, placed⟩ := List.mem_flatMap.mp member
  exact each y inner x placed

theorem direct_filters {ps : List Predicate} (nested : Nested (fun s => Direct (queriesOf s)) ps) :
    Direct (ps.flatMap Predicate.queries) := by
  apply direct_flatMap
  intro p member
  rw [queries_predicate]
  apply direct_flatMap
  intro s inside
  obtain ⟨part, stored, found⟩ := List.mem_flatMap.mp inside
  cases part with
  | text sql values => cases found
  | subquery r =>
    cases List.mem_singleton.mp found
    exact direct_deeper (nested p member s stored)

theorem direct_query {q : Query}
    (h : Clausewise (fun e => Direct e.queries) (fun s => Direct (queriesOf s)) q) :
    Direct q.queries := by
  rw [queries_query]
  refine direct_append (direct_append (direct_append (direct_append ?_ ?_) ?_)
    (direct_filters h.filters)) (direct_filters h.groupFilters)
  · exact direct_flatMap h.columns
  · exact direct_flatMap fun e member => h.source e (Option.mem_toList.mp member)
  · exact direct_flatMap h.joins

theorem direct_inherited :
    Inherited (fun e => Direct e.queries) (fun s => Direct (queriesOf s)) where
  term t := by simp [Expr.queries, Direct]
  subquery _ := direct_deeper
  aliased _ _ h := h
  failed cs e failed := by
    have own := selectOf_direct cs
    cases made : selectOf cs with
    | mk state d =>
      rw [made] at own failed
      cases failed
      simpa [queriesOf, Direct] using own
  query q d h := by
    rw [queriesOf]
    refine List.forall_mem_cons.mpr ⟨?_, direct_query h⟩
    simp [Builder.error?]

/-! Builds. -/

theorem build_error {s : Script} (plain : s.Plain) (d : Dialect) :
    errorOf (s.build d) = s.failure? := by
  have finished := (portable_of_plain plain).2 { dialect := d }
  have same (r : Context × Option BuildError) :
      errorOf (Context.outcome r) = errorOf (Context.finished r) := by
    rcases r with ⟨ctx, none | e⟩ <;> rfl
  rw [Script.build, same, finished, errorOf_map, Script.outcome]
  cases s.failure? <;> rfl

/-- A build succeeds when none of these queries has failed, and otherwise tells the error of the
    first that has, once wrapped for every level between. -/
structure SurfacesFirst (st : Statement) (inside : List Placed) : Prop where
  succeeds : ∀ d, (∃ b, st.buildWith d = .ok b) ↔ ∀ x ∈ inside, x.2.error? = none
  fails : ∀ d before k s after e, inside = before ++ (k, s) :: after →
    (∀ x ∈ before, x.2.error? = none) → s.error? = some e →
      st.buildWith d = .error (reportedAt k e) ∧
        ((reportedAt k e).kind = .composition ↔ 1 ≤ k)

theorem surfaces_of_fails {st : Statement} {inside : List Placed} (plain : st.script.Plain)
    (fails : FailsBy st.script inside) (direct : Direct inside) : SurfacesFirst st inside := by
  have built (d : Dialect) : errorOf (st.buildWith d) = inside.findSome? Placed.report? :=
    (build_error plain d).trans fails
  constructor
  · intro d
    rw [← errorOf_eq_none, built, List.findSome?_eq_none_iff]
    simp only [Placed.report?, Option.map_eq_none_iff]
  · intro d before k s after e split sound failed
    constructor
    · rw [← errorOf_eq_some, built, split, List.findSome?_append, List.findSome?_cons]
      have earlier : before.findSome? Placed.report? = none := by
        rw [List.findSome?_eq_none_iff]
        intro x member
        rw [Placed.report?, sound x member, Option.map_none]
      rw [earlier, Option.none_or, Placed.report?, failed, Option.map_some]
    · apply kind_reportedAt
      intro c same
      have member : (k, s) ∈ inside := by
        rw [split]
        exact List.mem_append_right before List.mem_cons_self
      exact direct (k, s) member c (by rw [failed, same])

theorem fails_select (s : Select) : FailsBy s.script (queriesOf s) := fails_hereditary.select s

theorem fails_where (ps : List Predicate) :
    FailsBy (ps.flatMap fun p => p.script.payload) (filterQueries ps) := by
  rw [filterQueries_eq_flatMap]
  exact fails_filters (fails_hereditary.predicates ps)

theorem fails_changes {c : Changes} (assigned : c.assignments ≠ []) :
    FailsBy c.script (filterQueries c.filters) := by
  have some_assignment : ¬c.assignments.isEmpty := by simpa using assigned
  rw [← fails_payload, payload_changes, if_neg some_assignment]
  -- An assigned value holds no query, so the filters are all that can fail.
  have values : FailsBy (c.assignments.flatMap fun a => (Changes.assignedScript a.2).payload)
      (c.assignments.flatMap fun _ => []) := by
    apply fails_flatMap
    rintro ⟨column, assigned⟩ -
    cases assigned <;> rfl
  have both := fails_append values (fails_where c.filters)
  rw [List.flatMap_eq_nil_iff.mpr fun _ _ => rfl] at both
  exact both

theorem fails_removal (r : Removal) : FailsBy r.script (filterQueries r.filters) := by
  rw [← fails_payload, payload_removal]
  exact fails_where r.filters

theorem direct_made {ts : List CondTree} {ps : List Predicate}
    (made : ts.map CondTree.condition = ps.map .ok) : Direct (filterQueries ps) := by
  rw [filterQueries_eq_flatMap]
  apply direct_filters
  intro p member s inside
  have given : Except.ok p ∈ ts.map CondTree.condition := by
    rw [made]
    exact List.mem_map_of_mem member
  obtain ⟨t, -, sound⟩ := List.mem_map.mp given
  exact direct_inherited.predicate sound inside

/-- A statement builds when neither it nor a query written in it has failed. Otherwise the failed
    query that is written first is reported, wrapped once for each level that it lies below the
    statement. What is recorded is never such a report. -/
theorem nested_failures_surface :
    (∀ cs, SurfacesFirst (.select (selectOf cs)) (queriesOf (selectOf cs))) ∧
      (∀ table cs c, (updateOf table cs).state = .ok c → c.assignments ≠ [] →
        SurfacesFirst (.update (updateOf table cs)) (filterQueries c.filters)) ∧
      (∀ table cs r, (deleteOf table cs).state = .ok r →
        SurfacesFirst (.delete (deleteOf table cs)) (filterQueries r.filters)) ∧
      (∀ t p, CondTree.condition t = .ok p →
        p.queries = t.nested.flatMap fun cs => deeper (queriesOf (selectOf cs))) ∧
      ∀ t c, (StatementTree.statement t).recorded? ≠ some (.subquery c) := by
  refine ⟨?_, ?_, ?_, queries_condition, recorded_direct⟩
  · intro cs
    exact surfaces_of_fails (plain_select _) (fails_select _) (direct_inherited.select cs)
  · intro table cs c state assigned
    have script : (Statement.update (updateOf table cs)).script = c.script := by
      rw [Statement.script, Update.script, state]
    have plain : (Statement.update (updateOf table cs)).script.Plain := plain_update _
    apply surfaces_of_fails plain
    · rw [script]
      exact fails_changes assigned
    · exact direct_made (update_filters state)
  · intro table cs r state
    have script : (Statement.delete (deleteOf table cs)).script = r.script := by
      rw [Statement.script, Delete.script, state]
    have plain : (Statement.delete (deleteOf table cs)).script.Plain := plain_delete _
    apply surfaces_of_fails plain
    · rw [script]
      exact fails_removal r
    · exact direct_made (delete_filters state)

/-- The blank table two levels down in the projection is written before the join, whose query has
    failed as well. In the filter of an update the levels are counted alike. -/
theorem deep_projection_fails_before_join :
    (∀ d, (Statement.select (selectOf [
        .columns [.aliased (.subquery [.filter (.case [
          .when (.memberOf "a" .negated [.source (.term (.raw " "))]) (.int 1)])]) "b"],
        .join .cross (.subquery [.groupBy [.subquery []]]) "" ""])).buildWith d =
      .error (.subquery (.subquery .emptyTable))) ∧
    ∀ d, (Statement.update (updateOf (.term (.name "t")) [.set "a" .null,
        .filter (.neg (.existence .plain (.subquery [.source (.term (.name "")), .limit 1])))])
      ).buildWith d = .error (.subquery .emptyTable) := by
  obtain ⟨select, update, -⟩ := nested_failures_surface
  constructor
  · intro d
    -- Before the failed query stand the statement and the projected query that it filters.
    refine ((select _).fails d [(0, _), (1, _)] 2 _ [(1, _)] .emptyTable rfl ?_ rfl).1
    intro x member
    rcases List.mem_cons.mp member with rfl | later
    · rfl
    · cases List.mem_singleton.mp later
      rfl
  · intro d
    have surfaces := update (.term (.name "t")) [.set "a" .null,
      .filter (.neg (.existence .plain (.subquery [.source (.term (.name "")), .limit 1])))] _ rfl
      (List.cons_ne_nil _ _)
    exact (surfaces.fails d [] 1 _ [] .emptyTable rfl (by simp) rfl).1

end SqlAssembly
