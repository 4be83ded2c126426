import SqlAssembly.Proofs.CallEffects
import SqlAssembly.Proofs.Composition

/-! Calls for different clauses do not wait for each other. A query holds the entries of each clause
   in the order of their calls, and of each setting the last one; nothing else of the order
   counts. -/
namespace SqlAssembly

/-- The parts of a query that grow call by call. -/
inductive QueryClause where
  | projection : QueryClause
  | joins : QueryClause
  | filters : QueryClause
  | groups : QueryClause
  | groupFilters : QueryClause
  | order : QueryClause
  deriving DecidableEq, Repr

namespace Query

namespace Edit

def clause? : Query.Edit → Option QueryClause
  | .columns _ => some .projection
  | .join _ _ _ _ => some .joins
  | .filter _ => some .filters
  | .groupBy _ => some .groups
  | .groupFilter _ => some .groupFilters
  | .orderBy _ _ => some .order
  | _ => none

def source? : Query.Edit → Option Expr
  | .source e => some e
  | _ => none

def limit? : Query.Edit → Option Nat
  | .limit n => some n
  | _ => none

def offset? : Query.Edit → Option Nat
  | .offset n => some n
  | _ => none

/-- What a valid edit, other than a composition, brings to a query. -/
def content : Query.Edit → Query
  | .columns es => { Query.empty with columns := es }
  | .distinct => { Query.empty with distinct := true }
  | .source e => { Query.empty with source := some e }
  | .join kind target left right => { Query.empty with joins := [joined kind target left right] }
  | .filter c => { Query.empty with filters := c.toOption.toList }
  | .groupBy es => { Query.empty with groups := (es.mapM (term .groupBy)).toOption.getD [] }
  | .groupFilter c => { Query.empty with groupFilters := c.toOption.toList }
  | .orderBy e asked =>
    { Query.empty with order := (term .orderBy e).toOption.toList.map (orderItem · asked) }
  | .limit n => { Query.empty with limit := some n }
  | .offset n => { Query.empty with offset := some n }
  | .compose _ => Query.empty

end Edit

/-- Lists go on, and a later setting replaces an earlier one. -/
def overlay (q r : Query) : Query where
  distinct := q.distinct || r.distinct
  columns := q.columns ++ r.columns
  source := r.source.or q.source
  joins := q.joins ++ r.joins
  filters := q.filters ++ r.filters
  groups := q.groups ++ r.groups
  groupFilters := q.groupFilters ++ r.groupFilters
  order := q.order ++ r.order
  limit := r.limit.or q.limit
  offset := r.offset.or q.offset

/-- What the edits bring together. -/
def brought (es : List Query.Edit) : Query where
  distinct := es.any fun e => e.content.distinct
  columns := es.flatMap fun e => e.content.columns
  source := es.reverse.findSome? Edit.source?
  joins := es.flatMap fun e => e.content.joins
  filters := es.flatMap fun e => e.content.filters
  groups := es.flatMap fun e => e.content.groups
  groupFilters := es.flatMap fun e => e.content.groupFilters
  order := es.flatMap fun e => e.content.order
  limit := es.reverse.findSome? Edit.limit?
  offset := es.reverse.findSome? Edit.offset?

end Query

def Builder.Call.edit? {ε : Type} : Builder.Call ε → Option ε
  | .edit e => some e
  | .dialect _ => none

def editsOf (cs : List (Builder.Call Query.Edit)) : List Query.Edit :=
  cs.filterMap Builder.Call.edit?

/-- The same calls in the same order, clause by clause, and the same last settings. -/
structure Shuffled (cs ds : List (Builder.Call Query.Edit)) : Prop where
  clauses : ∀ k, (editsOf cs).filter (fun e => e.clause? = some k) =
    (editsOf ds).filter fun e => e.clause? = some k
  source : (editsOf cs).reverse.findSome? Query.Edit.source? =
    (editsOf ds).reverse.findSome? Query.Edit.source?
  limit : (editsOf cs).reverse.findSome? Query.Edit.limit? =
    (editsOf ds).reverse.findSome? Query.Edit.limit?
  offset : (editsOf cs).reverse.findSome? Query.Edit.offset? =
    (editsOf ds).reverse.findSome? Query.Edit.offset?
  dialect : cs.reverse.findSome? Builder.Call.chosen? = ds.reverse.findSome? Builder.Call.chosen?
  distinct : Query.Edit.distinct ∈ editsOf cs ↔ Query.Edit.distinct ∈ editsOf ds

/-! What a run of edits comes to. -/

theorem edit_overlay {e : Query.Edit} (plain : ∀ other, e ≠ .compose other) {q q' : Query}
    (edited : Query.edit e q = .ok q') : q' = q.overlay e.content := by
  cases e with
  | columns _ | distinct | limit _ | offset _ =>
    cases edited
    simp [Query.overlay, Query.Edit.content, Query.empty]
  | source _ | join _ _ _ _ =>
    obtain ⟨table, checked, rest⟩ := bind_eq_ok edited
    cases table_eq_ok checked
    cases rest
    simp [Query.overlay, Query.Edit.content, Query.empty]
  | filter _ | groupFilter _ =>
    obtain ⟨p, rfl, rest⟩ := bind_eq_ok edited
    cases rest
    simp [Query.overlay, Query.Edit.content, Query.empty, Except.toOption]
  | groupBy _ | orderBy _ _ =>
    obtain ⟨found, sound, rest⟩ := bind_eq_ok edited
    cases rest
    simp [Query.overlay, Query.Edit.content, Query.empty, sound, Except.toOption]
  | compose other => exact absurd rfl (plain other)

theorem overlay_brought (q : Query) (e : Query.Edit) (es : List Query.Edit) :
    (q.overlay e.content).overlay (.brought es) = q.overlay (.brought (e :: es)) := by
  have source : e.content.source = e.source? := by cases e <;> rfl
  have limit : e.content.limit = e.limit? := by cases e <;> rfl
  have offset : e.content.offset = e.offset? := by cases e <;> rfl
  have last {α : Type} (f : Query.Edit → Option α) : List.findSome? f [e] = f e := by
    cases found : f e <;> simp [found]
  simp only [Query.overlay, Query.brought, List.any_cons, List.flatMap_cons, List.reverse_cons,
    List.findSome?_append, last, source, limit, offset, Bool.or_assoc, List.append_assoc,
    Option.or_assoc]

theorem edits_overlay {es : List Query.Edit} (plain : ∀ e ∈ es, ∀ other, e ≠ .compose other)
    {q q' : Query} (run : es.foldl editState (.ok q) = .ok q') : q' = q.overlay (.brought es) := by
  -- The induction is over the edits from any query, since each edit hands on another one.
  induction es generalizing q with
  | nil =>
    cases run
    cases q'
    simp [Query.overlay, Query.brought]
  | cons e es ih =>
    obtain ⟨first, later⟩ := List.forall_mem_cons.mp plain
    rw [List.foldl_cons] at run
    cases edited : Query.edit e q with
    | error cause =>
      have failed : editState (.ok q) e = .error cause := edited
      rw [failed, edits_of_error] at run
      cases run
    | ok r =>
      have done : editState (.ok q) e = .ok r := edited
      rw [done] at run
      rw [ih later run, edit_overlay first edited, overlay_brought]

theorem calls_state (s : Select) (cs : List (Builder.Call Query.Edit)) :
    (s.calls Query.edit cs).state = (editsOf cs).foldl editState s.state := by
  induction cs generalizing s with
  | nil => rfl
  | cons c cs ih =>
    cases c with
    | edit e => exact ih (s.edit e)
    | dialect d => exact ih (s.withDialect d)

/-! Shuffling. -/

theorem flatMap_within {α κ : Type} {f : κ → List α} {p : κ → Bool}
    (elsewhere : ∀ c, ¬ p c → f c = []) (cs : List κ) : cs.flatMap f = (cs.filter p).flatMap f := by
  induction cs with
  | nil => rfl
  | cons c cs ih =>
    by_cases inside : p c
    · rw [List.filter_cons_of_pos inside, List.flatMap_cons, List.flatMap_cons, ih]
    · rw [List.filter_cons_of_neg inside, List.flatMap_cons, elsewhere c inside, ih,
        List.nil_append]

theorem entries_shuffled {α : Type} {cs ds : List (Builder.Call Query.Edit)} (same : Shuffled cs ds)
    (k : QueryClause) {f : Query.Edit → List α} (elsewhere : ∀ e, e.clause? ≠ some k → f e = []) :
    (editsOf cs).flatMap f = (editsOf ds).flatMap f := by
  have outside (e : Query.Edit) (other : ¬ decide (e.clause? = some k)) : f e = [] :=
    elsewhere e (by simpa using other)
  rw [flatMap_within outside, same.clauses k, ← flatMap_within outside]

theorem distinct_brought (es : List Query.Edit) :
    (es.any fun e => e.content.distinct) = true ↔ Query.Edit.distinct ∈ es := by
  have only (e : Query.Edit) : e.content.distinct = true ↔ e = .distinct := by
    cases e <;> simp [Query.Edit.content, Query.empty]
  simp [only]

theorem brought_shuffled {cs ds : List (Builder.Call Query.Edit)} (same : Shuffled cs ds) :
    Query.brought (editsOf cs) = Query.brought (editsOf ds) := by
  have distinct : ((editsOf cs).any fun e => e.content.distinct) =
      (editsOf ds).any fun e => e.content.distinct := by
    rw [Bool.eq_iff_iff, distinct_brought, distinct_brought]
    exact same.distinct
  have entries {α : Type} (k : QueryClause) (f : Query → List α)
      (elsewhere : ∀ e : Query.Edit, e.clause? ≠ some k → f e.content = []) :
      (editsOf cs).flatMap (fun e => f e.content) = (editsOf ds).flatMap fun e => f e.content :=
    entries_shuffled same k elsewhere
  have columns := entries .projection Query.columns fun e other => by
    cases e <;> first | rfl | exact absurd rfl other
  have joins := entries .joins Query.joins fun e other => by
    cases e <;> first | rfl | exact absurd rfl other
  have filters := entries .filters Query.filters fun e other => by
    cases e <;> first | rfl | exact absurd rfl other
  have groups := entries .groups Query.groups fun e other => by
    cases e <;> first | rfl | exact absurd rfl other
  have groupFilters := entries .groupFilters Query.groupFilters fun e other => by
    cases e <;> first | rfl | exact absurd rfl other
  have order := entries .order Query.order fun e other => by
    cases e <;> first | rfl | exact absurd rfl other
  simp only [Query.brought, distinct, columns, joins, filters, groups, groupFilters, order,
    same.source, same.limit, same.offset]

theorem calls_shuffled {s : Select} {cs ds : List (Builder.Call Query.Edit)}
    (plain : ∀ other, .compose other ∉ editsOf cs) (plain' : ∀ other, .compose other ∉ editsOf ds)
    (sound : (s.calls Query.edit cs).error? = none) (sound' : (s.calls Query.edit ds).error? = none)
    (same : Shuffled cs ds) : Alike (s.calls Query.edit cs) (s.calls Query.edit ds) := by
  obtain ⟨q, made⟩ := errorOf_eq_none.mp sound
  obtain ⟨q', made'⟩ := errorOf_eq_none.mp sound'
  have state : q = q' := by
    rw [calls_state] at made made'
    cases begun : s.state with
    | error cause =>
      rw [begun, edits_of_error] at made
      cases made
    | ok start =>
      rw [begun] at made made'
      have single (e : Query.Edit) (member : e ∈ editsOf cs) (other : Option Select) :
          e ≠ .compose other := fun composed => plain other (composed ▸ member)
      have single' (e : Query.Edit) (member : e ∈ editsOf ds) (other : Option Select) :
          e ≠ .compose other := fun composed => plain' other (composed ▸ member)
      rw [edits_overlay single made, edits_overlay single' made', brought_shuffled same]
  apply alike_of_state
  · rw [made, made', state]
  · rw [calls_dialect, calls_dialect, same.dialect]

/-! Calls with several entries. -/

theorem edit_twice {α ε : Type} {apply : ε → α → Except BuildError α} {a b c : ε}
    (both : ∀ content, apply c content = (apply a content).bind (apply b)) (s : Builder α) :
    s.edit apply c = (s.edit apply a).edit apply b := by
  rcases s with ⟨state, dialect⟩
  cases state with
  | error e => rfl
  | ok content => exact congrArg (Builder.mk · dialect) (both content)

theorem columns_split (s : Select) (xs ys : List Expr) :
    s.edit (.columns (xs ++ ys)) = (s.edit (.columns xs)).edit (.columns ys) := by
  refine edit_twice (fun q => ?_) s
  simp [Query.edit, Except.bind]

theorem groups_split (s : Select) (xs ys : List Expr) :
    s.edit (.groupBy (xs ++ ys)) = (s.edit (.groupBy xs)).edit (.groupBy ys) := by
  refine edit_twice (fun q => ?_) s
  simp only [Query.edit, List.mapM_append]
  cases xs.mapM (Query.term .groupBy) with
  | error e => rfl
  | ok ts =>
    change _ = ((ys.mapM (Query.term .groupBy)).bind fun us => _)
    cases ys.mapM (Query.term .groupBy) with
    | error e => rfl
    | ok us => simp [bind, Except.bind, pure, Except.pure]

theorem rows_split (s : Insert) (rows : List (List Value)) :
    s.edit (.valuesMany rows) = rows.foldl (fun s row => s.edit (.values row)) s := by
  induction rows generalizing s with
  | nil =>
    rcases s with ⟨state, dialect⟩
    cases state with
    | error e => rfl
    | ok r => simp [Insert.edit, Builder.edit, Rows.edit, Except.bind]
  | cons row rows ih =>
    rw [List.foldl_cons, ← ih]
    refine edit_twice (fun r => ?_) s
    simp [Rows.edit, Except.bind]

/-- Two runs of valid calls with the same calls in each clause and the same last settings make the
    same query, however the clauses are mixed. A call with several entries is several calls, also
    where one of the entries is refused. -/
theorem clauses_keep_to_themselves :
    (∀ (s : Select) (cs ds : List (Builder.Call Query.Edit)),
      (∀ other, .compose other ∉ editsOf cs) → (∀ other, .compose other ∉ editsOf ds) →
      (s.calls Query.edit cs).error? = none → (s.calls Query.edit ds).error? = none →
      Shuffled cs ds → Alike (s.calls Query.edit cs) (s.calls Query.edit ds)) ∧
    (∀ (s : Select) (xs ys : List Expr),
      s.edit (.columns (xs ++ ys)) = (s.edit (.columns xs)).edit (.columns ys) ∧
      s.edit (.groupBy (xs ++ ys)) = (s.edit (.groupBy xs)).edit (.groupBy ys)) ∧
    ∀ (s : Insert) (rows : List (List Value)),
      s.edit (.valuesMany rows) = rows.foldl (fun s row => s.edit (.values row)) s := by
  refine ⟨?_, fun s xs ys => ⟨columns_split s xs ys, groups_split s xs ys⟩, rows_split⟩
  intro s cs ds plain plain' sound sound' same
  exact calls_shuffled plain plain' sound sound' same

def clauseByClause : List (Builder.Call Query.Edit) := [
  .edit (.columns [.term (.name "a")]), .edit .distinct, .edit (.source (.term (.name "t"))),
  .edit (.filter (.compare "a" .gt (.int 1))), .edit (.filter (.nullTest "b" .negated)),
  .edit (.limit 10), .dialect .postgres]

def mixedUp : List (Builder.Call Query.Edit) := [
  .dialect .mysql, .edit (.limit 3), .edit (.filter (.compare "a" .gt (.int 1))),
  .edit (.source (.term (.name "u"))), .dialect .postgres, .edit (.limit 10), .edit .distinct,
  .edit (.filter (.nullTest "b" .negated)), .edit (.source (.term (.name "t"))), .edit .distinct,
  .edit (.columns [.term (.name "a")])]

theorem mixed_calls_make_the_same_query :
    (Statement.select (Select.empty.calls Query.edit mixedUp)).buildWith .postgres = .ok
      ⟨"SELECT DISTINCT \"a\" FROM \"t\" WHERE a > $1 AND b IS NOT NULL LIMIT 10", [.int 1]⟩ ∧
    (Select.empty.calls Query.edit mixedUp).dialect = some .postgres ∧
    ((Select.empty.edit (.groupBy [.term (.name "a")])).edit
      (.groupBy [.subquery Select.empty, .term (.raw "")])).error? =
        some (.unsupportedExpression .groupBy .subquery) := by
  obtain ⟨shuffled, batched, -⟩ := clauses_keep_to_themselves
  have same : Shuffled clauseByClause mixedUp := by
    refine ⟨fun k => ?_, rfl, rfl, rfl, rfl, ?_⟩
    · cases k <;> rfl
    · simp [editsOf, clauseByClause, mixedUp, Builder.Call.edit?]
  have plain : ∀ other, .compose other ∉ editsOf clauseByClause := by
    simp [editsOf, clauseByClause, Builder.Call.edit?]
  have plain' : ∀ other, .compose other ∉ editsOf mixedUp := by
    simp [editsOf, mixedUp, Builder.Call.edit?]
  have alike := shuffled Select.empty clauseByClause mixedUp plain plain' rfl rfl same
  have built : (Statement.select (Select.empty.calls Query.edit clauseByClause)).buildWith
      .postgres = .ok
        ⟨"SELECT DISTINCT \"a\" FROM \"t\" WHERE a > $1 AND b IS NOT NULL LIMIT 10", [.int 1]⟩ :=
    rfl
  refine ⟨(alike.built .postgres).symm.trans built, alike.dialect.symm, ?_⟩
  rw [← (batched Select.empty [.term (.name "a")] [.subquery Select.empty, .term (.raw "")]).2]
  rfl

end SqlAssembly
