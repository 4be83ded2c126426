import Mathlib.Data.List.Forall2
import SqlAssembly.Proofs.Composition
import SqlAssembly.Proofs.DialectIndependence

/-! The dialects chosen for nested queries. Two statements that differ in nothing else are told
   apart by nothing: a nested query is written in the dialect of what it stands in. -/
namespace SqlAssembly

/-! Calls without such choices. -/

def QueryCall.isDialect : QueryCall → Bool
  | .dialect _ => true
  | _ => false

def withoutDialects (cs : List QueryCall) : List QueryCall := cs.filter fun c => !c.isDialect

mutual

def ExprTree.neutral : ExprTree → ExprTree
  | .term t => .term t
  | .subquery cs => .subquery (withoutDialects (neutralCalls cs))
  | .aliased e label => .aliased e.neutral label

def CondTree.neutral : CondTree → CondTree
  | .memberOf column polarity cs => .memberOf column polarity (withoutDialects (neutralCalls cs))
  | .existence polarity e => .existence polarity e.neutral
  | .conj a b => .conj a.neutral b.neutral
  | .disj a b => .disj a.neutral b.neutral
  | .neg a => .neg a.neutral
  | .case cs => .case (neutralCases cs)
  | t => t

def CaseCall.neutral : CaseCall → CaseCall
  | .when t v => .when t.neutral v
  | .otherwise v => .otherwise v

/-- The query that is called on keeps its own choice. -/
def QueryCall.neutral : QueryCall → QueryCall
  | .columns es => .columns (neutralExprs es)
  | .distinct => .distinct
  | .source e => .source e.neutral
  | .join kind target left right => .join kind target.neutral left right
  | .filter t => .filter t.neutral
  | .groupBy es => .groupBy (neutralExprs es)
  | .groupFilter t => .groupFilter t.neutral
  | .orderBy e asked => .orderBy e.neutral asked
  | .limit n => .limit n
  | .offset n => .offset n
  | .compose other => .compose (neutralComposed other)
  | .dialect d => .dialect d

def neutralExprs : List ExprTree → List ExprTree
  | [] => []
  | e :: es => e.neutral :: neutralExprs es

def neutralCases : List CaseCall → List CaseCall
  | [] => []
  | c :: cs => c.neutral :: neutralCases cs

def neutralCalls : List QueryCall → List QueryCall
  | [] => []
  | c :: cs => c.neutral :: neutralCalls cs

def neutralComposed : Option (List QueryCall) → Option (List QueryCall)
  | none => none
  | some cs => some (withoutDialects (neutralCalls cs))

end

def UpdateCall.neutral : UpdateCall → UpdateCall
  | .filter t => .filter t.neutral
  | c => c

def DeleteCall.neutral : DeleteCall → DeleteCall
  | .filter t => .filter t.neutral
  | c => c

/-- The same calls, but none of the queries nested in the statement or composed into it has a
    dialect chosen for it. -/
def StatementTree.neutral : StatementTree → StatementTree
  | .select cs => .select (neutralCalls cs)
  | .insert table cs => .insert table.neutral cs
  | .update table cs => .update table.neutral (cs.map UpdateCall.neutral)
  | .delete table cs => .delete table.neutral (cs.map DeleteCall.neutral)
  | .upsert table cs conflicts => .upsert table.neutral cs conflicts
  | .returning inner columns dialects => .returning inner.neutral columns dialects

theorem neutralExprs_eq_map (es : List ExprTree) : neutralExprs es = es.map ExprTree.neutral := by
  induction es with
  | nil => rfl
  | cons e es ih => rw [neutralExprs, ih, List.map_cons]

theorem neutralCalls_eq_map (cs : List QueryCall) : neutralCalls cs = cs.map QueryCall.neutral := by
  induction cs with
  | nil => rfl
  | cons c cs ih => rw [neutralCalls, ih, List.map_cons]

/-! What is alike writes the same. -/

/-- Both fail with one error, or both succeed with results that are related. -/
inductive Matches {α : Type} (R : α → α → Prop) :
    Except BuildError α → Except BuildError α → Prop where
  | ok {a a' : α} : R a a' → Matches R (.ok a) (.ok a')
  | error (e : BuildError) : Matches R (.error e) (.error e)

theorem Matches.bind {α β : Type} {R : α → α → Prop} {S : β → β → Prop}
    {x x' : Except BuildError α} {f f' : α → Except BuildError β} (first : Matches R x x')
    (next : ∀ a a', R a a' → Matches S (f a) (f' a')) : Matches S (x.bind f) (x'.bind f') := by
  cases first with
  | error e => exact .error e
  | ok related => exact next _ _ related

theorem matches_refl {α : Type} {R : α → α → Prop} (refl : ∀ a, R a a) (x : Except BuildError α) :
    Matches R x x := by
  cases x with
  | error e => exact .error e
  | ok a => exact .ok (refl a)

inductive Expr.Like : Expr → Expr → Prop where
  | term (t : Term) : Like (.term t) (.term t)
  | subquery {s s' : Select} : s.script = s'.script → Like (.subquery s) (.subquery s')
  | aliased {e e' : Expr} (label : String) : Like e e' → Like (.aliased e label) (.aliased e' label)

inductive Part.Like : Part → Part → Prop where
  | text (sql : String) (values : List Value) : Like (.text sql values) (.text sql values)
  | subquery {s s' : Select} : s.script = s'.script → Like (.subquery s) (.subquery s')

structure Predicate.Like (p p' : Predicate) : Prop where
  parts : List.Forall₂ Part.Like p.parts p'.parts
  disjunction : p.disjunction = p'.disjunction

structure Query.Like (q q' : Query) : Prop where
  distinct : q.distinct = q'.distinct
  columns : q.columns.map Expr.script = q'.columns.map Expr.script
  source : q.source.map Expr.script = q'.source.map Expr.script
  joins : q.joins.map Join.script = q'.joins.map Join.script
  filters : q.filters.map Predicate.operand = q'.filters.map Predicate.operand
  groups : q.groups = q'.groups
  groupFilters : q.groupFilters.map Predicate.operand = q'.groupFilters.map Predicate.operand
  order : q.order = q'.order
  limit : q.limit = q'.limit
  offset : q.offset = q'.offset

theorem script_expr_like {e e' : Expr} (like : e.Like e') : e.script = e'.script := by
  induction like with
  | term t => rfl
  | subquery same => exact congrArg Script.nested same
  | aliased label _ ih => exact congrArg (· ++ [.text (" AS " ++ label)]) ih

theorem blank_like {e e' : Expr} (like : e.Like e') : e.isBlank = e'.isBlank := by
  induction like with
  | term t => rfl
  | subquery _ => rfl
  | aliased label _ ih => exact ih

theorem part_like_refl (p : Part) : p.Like p := by
  cases p with
  | text sql values => exact .text sql values
  | subquery q => exact .subquery rfl

theorem parts_like_refl (ps : List Part) : List.Forall₂ Part.Like ps ps :=
  List.forall₂_same.mpr fun p _ => part_like_refl p

theorem predicate_like_refl (p : Predicate) : p.Like p := ⟨parts_like_refl p.parts, rfl⟩

theorem script_part_like {p p' : Part} (like : p.Like p') : p.script = p'.script := by
  cases like with
  | text sql values => rfl
  | subquery same => exact congrArg Script.nested same

theorem parts_like {ps ps' : List Part} (like : List.Forall₂ Part.Like ps ps') :
    ps.flatMap Part.script = ps'.flatMap Part.script := by
  induction like with
  | nil => rfl
  | cons first _ ih =>
    rw [List.flatMap_cons, List.flatMap_cons, script_part_like first, ih]

theorem operand_like {p p' : Predicate} (like : p.Like p') : p.operand = p'.operand := by
  have script : p.script = p'.script := by
    rw [Predicate.script_eq, Predicate.script_eq, parts_like like.parts]
  rcases p with ⟨parts, disjunction⟩
  rcases p' with ⟨parts', disjunction'⟩
  exact Prod.ext like.disjunction script

theorem added_like {ps ps' : List Predicate} {p p' : Predicate}
    (before : ps.map Predicate.operand = ps'.map Predicate.operand) (like : p.Like p') :
    (ps ++ [p]).map Predicate.operand = (ps' ++ [p']).map Predicate.operand := by
  rw [List.map_append, List.map_append, before, List.map_singleton, List.map_singleton,
    operand_like like]

theorem source_like (source : Option Expr) :
    sourceScript source = ((source.map Expr.script).elim [] fun s => .text " FROM " :: s) := by
  cases source <;> rfl

theorem query_like {q q' : Query} (like : q.Like q') : q.script = q'.script := by
  rw [Query.script_eq, Query.script_eq, List.flatMap_def, List.flatMap_def, source_like,
    source_like, like.distinct, like.columns, like.source, like.joins, like.filters, like.groups,
    like.groupFilters, like.order, like.limit, like.offset]

theorem select_like {s s' : Select} (like : Matches Query.Like s.state s'.state) :
    s.script = s'.script := by
  rcases s with ⟨state, d⟩
  rcases s' with ⟨state', d'⟩
  cases like with
  | error e => rfl
  | ok like => exact query_like like

theorem merge_like {q q' r r' : Query} (left : q.Like q') (right : r.Like r') :
    (q.merge r).Like (q'.merge r') := by
  constructor <;>
    simp only [Query.merge, List.map_append, Option.map_or, left.distinct, left.columns,
      left.source, left.joins, left.filters, left.groups, left.groupFilters, left.order,
      left.limit, left.offset, right.distinct, right.columns, right.source, right.joins,
      right.filters, right.groups, right.groupFilters, right.order, right.limit, right.offset]

/-! Conditions. -/

theorem glue_like {ps ps' qs qs' : List Part} (left : List.Forall₂ Part.Like ps ps')
    (right : List.Forall₂ Part.Like qs qs') :
    List.Forall₂ Part.Like (Part.glue ps qs) (Part.glue ps' qs') := by
  induction left with
  | nil => exact right
  | cons first rest ih =>
    cases rest with
    | cons second others =>
      rw [Part.glue_cons_cons, Part.glue_cons_cons]
      exact .cons first ih
    | nil =>
      cases first with
      | subquery same =>
        rw [Part.glue_subquery, Part.glue_subquery]
        exact .cons (.subquery same) ih
      | text sql values =>
        -- A text grows only where it meets another one.
        cases right with
        | nil => exact .cons (.text sql values) .nil
        | cons next later =>
          cases next with
          | text more extra => exact .cons (.text _ _) later
          | subquery same => exact .cons (.text sql values) (.cons (.subquery same) later)

theorem glueAll_like {pss pss' : List (List Part)}
    (each : List.Forall₂ (List.Forall₂ Part.Like) pss pss') :
    List.Forall₂ Part.Like (Part.glueAll pss) (Part.glueAll pss') := by
  induction each with
  | nil => exact .nil
  | cons first _ ih => exact glue_like first ih

theorem wrapped_like {p p' : Predicate} (like : p.Like p') :
    List.Forall₂ Part.Like p.wrapped p'.wrapped :=
  glueAll_like (.cons (parts_like_refl _) (.cons like.parts (.cons (parts_like_refl _) .nil)))

theorem guarded_like {p p' : Predicate} (like : p.Like p') :
    List.Forall₂ Part.Like p.guarded p'.guarded := by
  unfold Predicate.guarded
  rw [like.disjunction]
  cases p'.disjunction with
  | true => exact wrapped_like like
  | false => exact like.parts

theorem joined_like {ps ps' qs qs' : List Part} (word : String)
    (left : List.Forall₂ Part.Like ps ps') (right : List.Forall₂ Part.Like qs qs') :
    List.Forall₂ Part.Like (Part.glueAll [ps, Part.plain word, qs])
      (Part.glueAll [ps', Part.plain word, qs']) :=
  glueAll_like (.cons left (.cons (parts_like_refl _) (.cons right .nil)))

theorem neg_like {p p' : Predicate} (like : p.Like p') : p.neg.Like p'.neg :=
  ⟨glueAll_like (.cons (parts_like_refl _) (.cons (wrapped_like like) .nil)), rfl⟩

theorem existence_like (polarity : Polarity) {e e' : Expr} (like : e.Like e') :
    Matches Predicate.Like (Condition.existence polarity e) (Condition.existence polarity e') := by
  cases like with
  | term t => exact matches_refl predicate_like_refl _
  | subquery same => exact .ok ⟨.cons (.text _ _) (.cons (.subquery same) .nil), rfl⟩
  | aliased label _ => exact .error _

abbrev ExprNeutral (e : ExprTree) : Prop := e.neutral.expr.Like e.expr

abbrev CondNeutral (t : CondTree) : Prop :=
  Matches Predicate.Like t.neutral.condition t.condition

abbrev QueryNeutral (cs : List QueryCall) : Prop :=
  Matches Query.Like (selectOf (withoutDialects (neutralCalls cs))).state (selectOf cs).state

theorem branches_like {cs : List CaseCall}
    (each : ∀ t v, CaseCall.when t v ∈ cs → CondNeutral t) :
    Matches (List.Forall₂ Part.Like)
      (CaseExpr.branchParts ((neutralCases cs).flatMap CaseCall.branch))
      (CaseExpr.branchParts (cs.flatMap CaseCall.branch)) := by
  induction cs with
  | nil => exact .ok .nil
  | cons c cs ih =>
    have rest := ih fun t v member => each t v (List.mem_cons_of_mem c member)
    cases c with
    | otherwise v => exact rest
    | when t v =>
      refine (each t v List.mem_cons_self).bind fun p p' like => rest.bind fun ps ps' later => ?_
      exact .ok (glueAll_like (.cons (parts_like_refl _) (.cons like.parts
        (.cons (parts_like_refl _) (.cons (parts_like_refl _) (.cons later .nil))))))

theorem neutral_branches (cs : List CaseCall) :
    lastOtherwise (neutralCases cs) = lastOtherwise cs ∧
      ((neutralCases cs).flatMap CaseCall.branch).isEmpty =
        (cs.flatMap CaseCall.branch).isEmpty := by
  induction cs with
  | nil => exact ⟨rfl, rfl⟩
  | cons c cs ih =>
    cases c with
    | when t v => exact ⟨ih.1, rfl⟩
    | otherwise v => exact ⟨congrArg (Option.or · (some v)) ih.1, ih.2⟩

theorem case_like {cs : List CaseCall} (each : ∀ t v, CaseCall.when t v ∈ cs → CondNeutral t) :
    CondNeutral (.case cs) := by
  obtain ⟨fallback, branched⟩ := neutral_branches cs
  change Matches Predicate.Like (caseExpr {} (neutralCases cs)).condition (caseExpr {} cs).condition
  rw [caseExpr_eq, caseExpr_eq, fallback]
  simp only [CaseExpr.condition, List.nil_append, branched]
  cases (cs.flatMap CaseCall.branch).isEmpty with
  | true => exact .error .emptyCase
  | false =>
    refine (branches_like each).bind fun ps ps' parts => .ok ⟨?_, rfl⟩
    exact glueAll_like (.cons (parts_like_refl _) (.cons parts
      (.cons (parts_like_refl _) (.cons (parts_like_refl _) .nil))))

/-! Runs of calls. -/

/-- From contents that are alike the two calls lead to such contents again. -/
def Builder.Call.Mirrors {α ε : Type} (apply : ε → α → Except BuildError α) (R : α → α → Prop) :
    Builder.Call ε → Builder.Call ε → Prop
  | .edit e, .edit e' => ∀ a a', R a a' → Matches R (apply e a) (apply e' a')
  | .dialect d, .dialect d' => d = d'
  | _, _ => False

structure Builder.Like {α : Type} (R : α → α → Prop) (b b' : Builder α) : Prop where
  state : Matches R b.state b'.state
  dialect : b.dialect = b'.dialect

theorem call_like {α ε : Type} {apply : ε → α → Except BuildError α} {R : α → α → Prop}
    {c c' : Builder.Call ε} (mirror : c.Mirrors apply R c') {b b' : Builder α}
    (like : b.Like R b') : (Builder.call apply b c).Like R (Builder.call apply b' c') := by
  cases c with
  | edit e =>
    cases c' with
    | edit e' => exact ⟨like.state.bind mirror, like.dialect⟩
    | dialect d => exact absurd mirror id
  | dialect d =>
    cases c' with
    | edit e => exact absurd mirror id
    | dialect d' => exact ⟨like.state, congrArg some mirror⟩

theorem calls_like {α ε κ : Type} {apply : ε → α → Except BuildError α} {R : α → α → Prop}
    {call call' : κ → Builder.Call ε} {cs : List κ}
    (mirror : ∀ c ∈ cs, (call c).Mirrors apply R (call' c)) {b b' : Builder α}
    (like : b.Like R b') :
    (b.calls apply (cs.map call)).Like R (b'.calls apply (cs.map call')) := by
  induction cs generalizing b b' with
  | nil => exact like
  | cons c cs ih =>
    have first := call_like (mirror c List.mem_cons_self) like
    exact ih (fun d member => mirror d (List.mem_cons_of_mem c member)) first

/-- The choice of a dialect leaves the content alone. -/
theorem state_withoutDialects (cs : List QueryCall) :
    (selectOf (withoutDialects cs)).state = (selectOf cs).state := by
  have content (b b' : Select) (same : b.state = b'.state) :
      (b.calls Query.edit (queryCalls (withoutDialects cs))).state =
        (b'.calls Query.edit (queryCalls cs)).state := by
    induction cs generalizing b b' with
    | nil => exact same
    | cons c cs ih =>
      cases c with
      | dialect d => exact ih b (b'.withDialect d) same
      | _ => exact ih _ _ (congrArg (Except.bind · _) same)
  exact content _ _ rfl

theorem exprs_like {es : List ExprTree} (each : ∀ e ∈ es, ExprNeutral e) :
    (exprsOf (neutralExprs es)).map Expr.script = (exprsOf es).map Expr.script := by
  rw [neutralExprs_eq_map, exprsOf_eq_map, exprsOf_eq_map, List.map_map, List.map_map, List.map_map]
  exact List.map_congr_left fun e member => script_expr_like (each e member)

theorem table_like {e e' : Expr} (like : e.Like e') :
    Matches Expr.Like (Query.table e) (Query.table e') := by
  unfold Query.table
  rw [blank_like like]
  split
  · exact .error .emptyTable
  · exact .ok like

theorem term_like (clause : StrictClause) {e e' : Expr} (like : e.Like e') :
    Query.term clause e = Query.term clause e' := by
  cases like <;> rfl

theorem terms_like (clause : StrictClause) {es : List ExprTree} (each : ∀ e ∈ es, ExprNeutral e) :
    (exprsOf (neutralExprs es)).mapM (Query.term clause) =
      (exprsOf es).mapM (Query.term clause) := by
  induction es with
  | nil => rfl
  | cons e es ih =>
    rw [neutralExprs, exprsOf, exprsOf, List.mapM_cons, List.mapM_cons,
      term_like clause (each e List.mem_cons_self),
      ih fun e' member => each e' (List.mem_cons_of_mem e member)]

theorem query_call_mirrors {c : QueryCall}
    (passes : c.Passes ExprNeutral CondNeutral QueryNeutral) :
    c.neutral.call.Mirrors Query.edit Query.Like c.call := by
  cases c with
  | dialect d => exact rfl
  | columns es =>
    intro q q' like
    refine .ok { like with columns := ?_ }
    rw [List.map_append, List.map_append, like.columns, exprs_like passes]
  | distinct =>
    intro q q' like
    exact .ok { like with distinct := rfl }
  | source e =>
    intro q q' like
    refine (table_like passes).bind fun t t' table => .ok { like with source := ?_ }
    exact congrArg some (script_expr_like table)
  | join kind target left right =>
    intro q q' like
    refine (table_like passes).bind fun t t' table => .ok { like with joins := ?_ }
    simp only [List.map_append, like.joins, List.map_cons, List.map_nil, Query.joined, Join.script,
      script_expr_like table]
  | filter t =>
    intro q q' like
    exact Matches.bind passes fun p p' entered =>
      .ok { like with filters := added_like like.filters entered }
  | groupFilter t =>
    intro q q' like
    exact Matches.bind passes fun p p' entered =>
      .ok { like with groupFilters := added_like like.groupFilters entered }
  | groupBy es =>
    intro q q' like
    have terms := terms_like .groupBy passes
    refine Matches.bind (R := Eq) (terms ▸ matches_refl (fun _ => rfl) _) ?_
    rintro ts _ rfl
    exact .ok { like with groups := congrArg (· ++ ts) like.groups }
  | orderBy e asked =>
    intro q q' like
    have term := term_like .orderBy (passes : ExprNeutral e)
    refine Matches.bind (R := Eq) (term ▸ matches_refl (fun _ => rfl) _) ?_
    rintro t _ rfl
    exact .ok { like with order := congrArg (· ++ [Query.orderItem t asked]) like.order }
  | limit n =>
    intro q q' like
    exact .ok { like with limit := rfl }
  | offset n =>
    intro q q' like
    exact .ok { like with offset := rfl }
  | compose other =>
    intro q q' like
    cases other with
    | none => exact .ok like
    | some cs =>
      exact Matches.bind (passes cs rfl) fun r r' composed => .ok (merge_like like composed)

theorem selectOf_like {cs : List QueryCall}
    (passes : ∀ c ∈ cs, c.Passes ExprNeutral CondNeutral QueryNeutral) :
    (selectOf (neutralCalls cs)).Like Query.Like (selectOf cs) := by
  have start : Builder.Like Query.Like Select.empty Select.empty :=
    ⟨.ok ⟨rfl, rfl, rfl, rfl, rfl, rfl, rfl, rfl, rfl, rfl⟩, rfl⟩
  rw [selectOf, selectOf, neutralCalls_eq_map, queryCalls_eq_map, queryCalls_eq_map, List.map_map]
  exact calls_like (fun c member => query_call_mirrors (passes c member)) start

theorem neutral_compositional : Compositional ExprNeutral CondNeutral QueryNeutral where
  term t := .term t
  subquery _ inner := .subquery (select_like inner)
  aliased _ label inner := .aliased label inner
  compare _ _ _ := matches_refl predicate_like_refl _
  member _ _ _ := matches_refl predicate_like_refl _
  memberOf _ _ _ inner := .ok ⟨.cons (.text _ _) (.cons (.subquery (select_like inner)) .nil), rfl⟩
  between _ _ _ _ := matches_refl predicate_like_refl _
  nullTest _ _ := matches_refl predicate_like_refl _
  existence polarity _ inner := existence_like polarity inner
  raw _ _ := matches_refl predicate_like_refl _
  conj _ _ left right := left.bind fun _ _ a => right.bind fun _ _ b =>
    .ok ⟨joined_like " AND " (guarded_like a) (guarded_like b), rfl⟩
  disj _ _ left right := left.bind fun _ _ a => right.bind fun _ _ b =>
    .ok ⟨joined_like " OR " (wrapped_like a) (wrapped_like b), rfl⟩
  neg _ inner := inner.bind fun _ _ a => .ok (neg_like a)
  case _ := case_like
  calls cs passes := by
    have like := (selectOf_like passes).state
    rw [← state_withoutDialects] at like
    exact like

/-! Statements. -/

structure Changes.Like (c c' : Changes) : Prop where
  table : c.table = c'.table
  assignments : c.assignments = c'.assignments
  filters : c.filters.map Predicate.operand = c'.filters.map Predicate.operand

structure Removal.Like (r r' : Removal) : Prop where
  table : r.table = r'.table
  filters : r.filters.map Predicate.operand = r'.filters.map Predicate.operand

theorem mutationTable_like (clause : StrictClause) {e e' : Expr} (like : e.Like e') :
    mutationTable clause e = mutationTable clause e' := by
  cases like <;> rfl

theorem changes_like {c c' : Changes} (like : c.Like c') : c.script = c'.script := by
  simp only [Changes.script, whereClause, operands_eq_map, like.table, like.assignments,
    like.filters]

theorem removal_like {r r' : Removal} (like : r.Like r') : r.script = r'.script := by
  simp only [Removal.script, whereClause, operands_eq_map, like.table, like.filters]

theorem update_call_mirrors (c : UpdateCall) :
    c.neutral.call.Mirrors Changes.edit Changes.Like c.call := by
  cases c with
  | dialect d => exact rfl
  | set column v =>
    intro c c' like
    exact .ok { like with assignments := congrArg (· ++ [(column, .value v)]) like.assignments }
  | setRaw column sql =>
    intro c c' like
    exact .ok { like with assignments := congrArg (· ++ [(column, .raw sql)]) like.assignments }
  | filter t =>
    intro c c' like
    exact (neutral_compositional.cond t).bind fun p p' entered =>
      .ok { like with filters := added_like like.filters entered }

theorem delete_call_mirrors (c : DeleteCall) :
    c.neutral.call.Mirrors Removal.edit Removal.Like c.call := by
  cases c with
  | dialect d => exact rfl
  | filter t =>
    intro r r' like
    exact (neutral_compositional.cond t).bind fun p p' entered =>
      .ok { like with filters := added_like like.filters entered }

/-- What a caller can ask of a statement has the same answer for both. -/
structure Statement.Agrees (st st' : Statement) : Prop where
  recorded : st.recorded? = st'.recorded?
  dialect : st.dialect? = st'.dialect?
  script : st.script = st'.script

theorem agrees_of_like {α : Type} {R : α → α → Prop} {content : α → Script}
    (statement : Builder α → Statement) (records : ∀ b, (statement b).recorded? = b.error?)
    (chooses : ∀ b, (statement b).dialect? = b.dialect)
    (writes : ∀ a d, (statement ⟨.ok a, d⟩).script = content a)
    (fails : ∀ e d, (statement ⟨.error e, d⟩).script = [.fail e])
    (same : ∀ a a', R a a' → content a = content a') {b b' : Builder α} (like : b.Like R b') :
    (statement b).Agrees (statement b') := by
  rcases b with ⟨state, d⟩
  rcases b' with ⟨state', d'⟩
  refine ⟨?_, ?_, ?_⟩
  · rw [records, records]
    cases like.state <;> rfl
  · rw [chooses, chooses, like.dialect]
  · cases like.state with
    | error e => rw [fails, fails]
    | ok related => rw [writes, writes, same _ _ related]

theorem agrees_withDialects {st st' : Statement} (agree : st.Agrees st') (ds : List Dialect) :
    (ds.foldl (fun st d => st.withDialect d) st).Agrees
      (ds.foldl (fun st d => st.withDialect d) st') := by
  refine ⟨?_, ?_, ?_⟩
  · rw [recorded_withDialects, recorded_withDialects, agree.recorded]
  · rw [dialect_withDialects, dialect_withDialects, agree.dialect]
  · rw [script_withDialects, script_withDialects, agree.script]

theorem begun_like {α : Type} {R : α → α → Prop} (refl : ∀ a, R a a) (clause : StrictClause)
    (table : ExprTree) (start : Term → α) :
    Builder.Like R { state := (mutationTable clause table.neutral.expr).map start }
      { state := (mutationTable clause table.expr).map start } := by
  rw [mutationTable_like clause (neutral_compositional.expr table)]
  exact ⟨matches_refl refl _, rfl⟩

theorem insertOf_neutral (table : ExprTree) (cs : List (Builder.Call Rows.Edit)) :
    insertOf table.neutral cs = insertOf table cs := by
  rw [insertOf, insertOf, Insert.into, Insert.into,
    mutationTable_like .insert (neutral_compositional.expr table)]

theorem neutral_agrees (t : StatementTree) : t.neutral.statement.Agrees t.statement := by
  induction t with
  | select cs =>
    have like := selectOf_like (neutral_compositional.allPassed cs)
    exact agrees_of_like .select (fun _ => rfl) (fun _ => rfl) (fun _ _ => rfl) (fun _ _ => rfl)
      (fun _ _ => query_like) like
  | insert table cs =>
    rw [StatementTree.neutral, StatementTree.statement, insertOf_neutral]
    exact ⟨rfl, rfl, rfl⟩
  | update table cs =>
    have start := begun_like (fun _ => Changes.Like.mk rfl rfl rfl) .update table
      fun t => { table := t }
    have like := calls_like (fun c (_ : c ∈ cs) => update_call_mirrors c) start
    rw [StatementTree.neutral, StatementTree.statement, updateOf, List.map_map]
    exact agrees_of_like .update (fun _ => rfl) (fun _ => rfl) (fun _ _ => rfl) (fun _ _ => rfl)
      (fun _ _ => changes_like) like
  | delete table cs =>
    have start := begun_like (fun _ => Removal.Like.mk rfl rfl) .delete table
      fun t => { table := t }
    have like := calls_like (fun c (_ : c ∈ cs) => delete_call_mirrors c) start
    rw [StatementTree.neutral, StatementTree.statement, deleteOf, List.map_map]
    exact agrees_of_like .delete (fun _ => rfl) (fun _ => rfl) (fun _ _ => rfl) (fun _ _ => rfl)
      (fun _ _ => removal_like) like
  | upsert table cs conflicts =>
    rw [StatementTree.neutral, StatementTree.statement, insertOf_neutral]
    exact ⟨rfl, rfl, rfl⟩
  | returning inner columns dialects ih =>
    apply agrees_withDialects
    refine ⟨rfl, ?_, ?_⟩
    · exact ih.dialect
    · exact congrArg (· ++ Statement.returningScript columns) ih.script

/-- Statements that differ in the dialects of nested and composed queries alone agree in all that
    can be asked of them. What is nested is spelled by the context that it is written in, whatever
    dialect it names itself. -/
theorem nested_dialects_never_matter :
    (∀ t t' : StatementTree, t.neutral = t'.neutral →
      t.statement.recorded? = t'.statement.recorded? ∧
        t.statement.dialect? = t'.statement.dialect? ∧
        (∀ d, t.statement.buildWith d = t'.statement.buildWith d) ∧
        ∀ preset, t.statement.build preset = t'.statement.build preset ∧
          t.statement.preview preset = t'.statement.preview preset) ∧
      ∀ (s : Select) (own : Option Dialect) (ctx : Context),
        Context.finished (ctx.run (Expr.subquery { s with dialect := own }).script) =
          (Expr.subquery s).script.outcome.map ctx.spelled := by
  constructor
  · intro t t' same
    have left := neutral_agrees t
    have right := neutral_agrees t'
    rw [← same] at right
    have recorded := left.recorded.symm.trans right.recorded
    have dialect := left.dialect.symm.trans right.dialect
    have built (d : Dialect) : t.statement.buildWith d = t'.statement.buildWith d := by
      rw [Statement.buildWith, Statement.buildWith, ← left.script, right.script]
    have resolved (preset : Dialect) : t.statement.build preset = t'.statement.build preset := by
      rw [Statement.build, Statement.build, Statement.dialectFor, Statement.dialectFor, dialect,
        built]
    refine ⟨recorded, dialect, built, fun preset => ⟨resolved preset, ?_⟩⟩
    rw [Statement.preview, Statement.preview, resolved]
  · intro s own ctx
    have same : (Expr.subquery { s with dialect := own }).script = (Expr.subquery s).script :=
      congrArg Script.nested (script_of_state rfl)
    rw [same]
    exact (portable_of_plain (plain_hereditary.expr (.subquery s))).2 ctx

/-- MySQL is named in the projection, under NOT in a CASE and in the composed query. The names are
    quoted and the markers numbered as the outer choice of PostgreSQL has it. -/
theorem overridden_queries_follow_the_outer_dialect :
    (StatementTree.statement (.select [
        .columns [.aliased (.subquery [.dialect .mysql, .columns [.term (.name "x")],
          .source (.term (.name "u")), .filter (.compare "k" .eq (.int 1))]) "n"],
        .dialect .postgres,
        .filter (.case [.when (.neg (.existence .plain (.subquery [.columns [.term (.name "y")],
          .dialect .sqlite, .source (.term (.name "v")), .dialect .mysql]))) (.int 2)]),
        .compose (some [.source (.term (.name "t")), .dialect .mysql])])).build .mysql =
      .ok ⟨"SELECT (SELECT \"x\" FROM \"u\" WHERE k = $1) AS n FROM \"t\" WHERE CASE WHEN NOT " ++
        "(EXISTS (SELECT \"y\" FROM \"v\")) THEN $2 END", [.int 1, .int 2]⟩ := by
  refine ((nested_dialects_never_matter.1 _ (.select [
      .columns [.aliased (.subquery [.columns [.term (.name "x")], .source (.term (.name "u")),
        .filter (.compare "k" .eq (.int 1))]) "n"],
      .dialect .postgres,
      .filter (.case [.when (.neg (.existence .plain (.subquery [.columns [.term (.name "y")],
        .source (.term (.name "v"))]))) (.int 2)]),
      .compose (some [.source (.term (.name "t"))])]) rfl).2.2.2 .mysql).1.trans ?_
  decide

end SqlAssembly
