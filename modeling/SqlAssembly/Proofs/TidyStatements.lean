import SqlAssembly.Proofs.CallerText

/-! Whole statements keep to what the texts of the caller keep to: a query clause by clause, and
   every other statement from the conditions and queries that its calls bring in. -/
namespace SqlAssembly

variable {bad : List Char}

theorem splitLastBlank_mem {cs head word : List Char} (h : splitLastBlank? cs = some (head, word)) :
    ∀ c ∈ head, c ∈ cs := by
  induction cs generalizing head with
  | nil => cases h
  | cons d cs ih =>
    rw [splitLastBlank?] at h
    split at h
    · rename_i first last found
      cases h
      intro c member
      rcases List.mem_cons.mp member with same | later
      · rw [same]
        exact List.mem_cons_self
      · exact List.mem_cons_of_mem d (ih found c later)
    · split at h
      · cases h
        simp
      · cases h

theorem trimEnd_mem {cs : List Char} : ∀ c ∈ trimEnd cs, c ∈ cs := by
  intro c member
  rw [trimEnd, List.mem_reverse] at member
  exact List.mem_reverse.mp ((List.dropWhile_suffix isBlank).subset member)

theorem trim_mem {cs : List Char} : ∀ c ∈ trim cs, c ∈ cs := by
  intro c member
  exact (List.dropWhile_suffix isBlank).subset (trimEnd_mem c member)

theorem clear_direction {text : String} (clear : ClearText bad text) :
    ClearText bad (splitDirection text).1 := by
  unfold splitDirection
  split
  · exact clear
  · rename_i head word found
    split
    · intro c member
      rw [String.toList_ofList] at member
      exact clear c (trim_mem c (splitLastBlank_mem found c (trimEnd_mem c member)))
    · exact clear

theorem clear_orderItem {t : Term} (clear : ClearText bad t.text) (asked : Option Direction) :
    ClearText bad (Query.orderItem t asked).key.text := by
  cases t with
  | name s => exact clear_direction clear
  | raw s => exact clear_direction clear
  | call s => exact clear

theorem bare_order (reserved : Reserved bad) {item : OrderItem}
    (clear : ClearText bad item.key.text) : Bare bad item.script := by
  refine bare_append (bare_term reserved clear) ?_
  cases item.direction with
  | none => exact bare_nil
  | some d => cases d <;> exact bare_library reserved (by decide)

structure ClausesTidy (bad : List Char) (q : Query) : Prop where
  columns : ∀ e ∈ q.columns, Tidy bad e.script
  source : ∀ e, q.source = some e → Tidy bad e.script
  joins : ∀ j ∈ q.joins, Tidy bad j.script ∧ Opens j.script
  filters : ∀ p ∈ q.filters, Tidy bad p.script
  groups : ∀ t ∈ q.groups, ClearText bad t.text
  groupFilters : ∀ p ∈ q.groupFilters, Tidy bad p.script
  order : ∀ item ∈ q.order, ClearText bad item.key.text

theorem tidy_join (reserved : Reserved bad) (kind : JoinKind) {target : Expr} {left right : String}
    (h : Tidy bad target.script) (first : ClearText bad left) (second : ClearText bad right) :
    Tidy bad (Query.joined kind target left right).script ∧
      Opens (Query.joined kind target left right).script := by
  have lead : Bare bad [.text (" " ++ kind.keyword ++ " ")] := by
    cases kind <;> exact bare_library reserved (by decide)
  have head : (" " ++ kind.keyword ++ " ").toList.head? = some ' ' := by simp
  refine ⟨?_, opens_text _ _ head rfl⟩
  unfold Query.joined
  split
  · exact tidy_append (tidy_lead lead h) (tidy_of_bare bare_nil) opens_nil
  · exact tidy_append (tidy_lead lead h) (tidy_of_bare (bare_on reserved first second))
      (opens_text " ON " _ rfl rfl)

theorem tidy_joins {js : List Join} (each : ∀ j ∈ js, Tidy bad j.script ∧ Opens j.script) :
    Tidy bad (js.flatMap Join.script) ∧ Opens (js.flatMap Join.script) := by
  induction js with
  | nil => exact ⟨tidy_of_bare bare_nil, opens_nil⟩
  | cons j js ih =>
    have rest := ih fun k member => each k (List.mem_cons_of_mem j member)
    have first := each j List.mem_cons_self
    rw [List.flatMap_cons]
    exact ⟨tidy_append first.1 rest.1 rest.2, opens_append first.2 rest.2⟩

theorem tidy_predicates (reserved : Reserved bad) {keyword : String}
    (clear : ClearText bad (" " ++ keyword ++ " ")) {ps : List Predicate}
    (each : ∀ p ∈ ps, Tidy bad p.script) :
    Tidy bad (filterClause keyword (ps.map Predicate.operand)) := by
  apply tidy_filterClause reserved clear
  intro o member
  obtain ⟨p, inside, rfl⟩ := List.mem_map.mp member
  exact each p inside

theorem tidy_projection (reserved : Reserved bad) {es : List Expr}
    (each : ∀ e ∈ es, Tidy bad e.script) : Tidy bad (projection (es.map Expr.script)) := by
  have scripts : ∀ s ∈ es.map Expr.script, Tidy bad s := by
    intro s member
    obtain ⟨e, inside, rfl⟩ := List.mem_map.mp member
    exact each e inside
  cases items : es.map Expr.script with
  | nil => exact tidy_of_bare (bare_library reserved (by decide))
  | cons s ss =>
    rw [items] at scripts
    exact tidy_listed reserved scripts

theorem tidy_source (reserved : Reserved bad) {source : Option Expr}
    (h : ∀ e, source = some e → Tidy bad e.script) :
    Tidy bad (sourceScript source) ∧ Opens (sourceScript source) := by
  cases source with
  | none => exact ⟨tidy_of_bare bare_nil, opens_nil⟩
  | some e =>
    have word : Bare bad [.text " FROM "] := bare_library reserved (by decide)
    exact ⟨tidy_lead word (h e rfl), opens_text " FROM " _ rfl rfl⟩

theorem tidy_query (reserved : Reserved bad) {q : Query} (h : ClausesTidy bad q) :
    Tidy bad q.script := by
  have keyword (word : String) (library : ClearText special (" " ++ word ++ " ")) :
      ClearText bad (" " ++ word ++ " ") := clear_library reserved library
  have lead : Bare bad [.text (if q.distinct then "SELECT DISTINCT " else "SELECT ")] := by
    apply bare_text
    cases q.distinct <;> exact clear_library reserved (by decide)
  have columns := tidy_projection reserved h.columns
  obtain ⟨source, opens⟩ := tidy_source reserved h.source
  have groups : Bare bad (listClause "GROUP BY" (q.groups.map Term.script)) := by
    apply bare_listClause reserved (keyword "GROUP BY" (by decide))
    intro s member
    obtain ⟨t, inside, rfl⟩ := List.mem_map.mp member
    exact bare_term reserved (h.groups t inside)
  have order : Bare bad (listClause "ORDER BY" (q.order.map OrderItem.script)) := by
    apply bare_listClause reserved (keyword "ORDER BY" (by decide))
    intro s member
    obtain ⟨item, inside, rfl⟩ := List.mem_map.mp member
    exact bare_order reserved (h.order item inside)
  have joins := tidy_joins h.joins
  have filters := tidy_predicates reserved (keyword "WHERE" (by decide)) h.filters
  have groupFilters := tidy_predicates reserved (keyword "HAVING" (by decide)) h.groupFilters
  have limit := bare_count reserved (keyword "LIMIT" (by decide)) q.limit
  have offset := bare_count reserved (keyword "OFFSET" (by decide)) q.offset
  -- every clause but the projection is empty or starts with a blank
  rw [Query.script_eq]
  refine tidy_lead lead (tidy_append ?_ (tidy_of_bare offset) (opens_countClause _ _))
  refine tidy_append ?_ (tidy_of_bare limit) (opens_countClause _ _)
  refine tidy_append ?_ (tidy_of_bare order) (opens_listClause _ _)
  refine tidy_append ?_ groupFilters (opens_filterClause _ _)
  refine tidy_append ?_ (tidy_of_bare groups) (opens_listClause _ _)
  refine tidy_append ?_ filters (opens_filterClause _ _)
  refine tidy_append ?_ joins.1 joins.2
  exact tidy_append columns source opens

abbrev ExprTidy (bad : List Char) (e : ExprTree) : Prop :=
  AllClear bad e.texts → Tidy bad e.expr.script

abbrev CondTidy (bad : List Char) (t : CondTree) : Prop :=
  AllClear bad t.texts → Tidy bad (wordsScript t.words)

abbrev QueryTidy (bad : List Char) (cs : List QueryCall) : Prop :=
  AllClear bad (textsOf cs) → ∀ q, (selectOf cs).state = .ok q → ClausesTidy bad q

theorem clauses_tidy_merge {q r : Query} (left : ClausesTidy bad q) (right : ClausesTidy bad r) :
    ClausesTidy bad (q.merge r) := by
  constructor
  · exact List.forall_mem_append.mpr ⟨left.columns, right.columns⟩
  · intro e named
    rw [Query.merge, Option.or_eq_some_iff] at named
    rcases named with first | ⟨_, second⟩
    · exact left.source e first
    · exact right.source e second
  · exact List.forall_mem_append.mpr ⟨left.joins, right.joins⟩
  · exact List.forall_mem_append.mpr ⟨left.filters, right.filters⟩
  · exact List.forall_mem_append.mpr ⟨left.groups, right.groups⟩
  · exact List.forall_mem_append.mpr ⟨left.groupFilters, right.groupFilters⟩
  · exact List.forall_mem_append.mpr ⟨left.order, right.order⟩

theorem exprs_tidy {es : List ExprTree} (each : ∀ e ∈ es, ExprTidy bad e)
    (clear : AllClear bad (exprTexts es)) : ∀ e ∈ exprsOf es, Tidy bad e.script := by
  intro e member
  rw [exprsOf_eq_map] at member
  rw [exprTexts_eq_flatMap] at clear
  obtain ⟨tree, inside, rfl⟩ := List.mem_map.mp member
  exact each tree inside (allClear_flatMap clear tree inside)

/-- The text of a term that an expression evaluates to is a text of the expression. -/
theorem clear_of_term {e : ExprTree} {t : Term} (made : e.expr = .term t)
    (clear : AllClear bad e.texts) : ClearText bad t.text := by
  cases e with
  | term s =>
    cases made
    exact clear (.plain t.text) List.mem_cons_self
  | subquery cs => cases made
  | aliased e label => cases made

theorem call_tidy (reserved : Reserved bad) {c : QueryCall}
    (passes : c.Passes (ExprTidy bad) (CondTidy bad) (QueryTidy bad))
    (clear : AllClear bad c.texts) {q q' : Query} (held : ClausesTidy bad q)
    (effect : c.Effect q q') : ClausesTidy bad q' := by
  cases c with
  | columns es =>
    cases effect
    have columns := List.forall_mem_append.mpr ⟨held.columns, exprs_tidy passes clear⟩
    exact { held with columns := columns }
  | source e =>
    cases effect
    refine { held with source := ?_ }
    rintro _ ⟨⟩
    exact passes clear
  | join kind target left right =>
    cases effect
    obtain ⟨inner, names⟩ := allClear_append.mp clear
    obtain ⟨first, rest⟩ := allClear_cons.mp names
    have second : ClearText bad right := rest (.plain right) List.mem_cons_self
    have join := tidy_join reserved kind (passes inner) first second
    exact { held with joins := forall_mem_concat held.joins join }
  | filter t =>
    obtain ⟨p, sound, rfl⟩ := effect
    have filter := tidy_words sound (passes clear)
    exact { held with filters := forall_mem_concat held.filters filter }
  | groupFilter t =>
    obtain ⟨p, sound, rfl⟩ := effect
    have filter := tidy_words sound (passes clear)
    exact { held with groupFilters := forall_mem_concat held.groupFilters filter }
  | groupBy es =>
    obtain ⟨ts, made, rfl⟩ := effect
    have texts : AllClear bad (es.flatMap ExprTree.texts) := by
      rw [← exprTexts_eq_flatMap]
      exact clear
    suffices added : ∀ t ∈ ts, ClearText bad t.text from
      { held with groups := List.forall_mem_append.mpr ⟨held.groups, added⟩ }
    intro t member
    have listed : Expr.term t ∈ exprsOf es := by
      rw [made]
      exact List.mem_map_of_mem member
    rw [exprsOf_eq_map] at listed
    obtain ⟨e, inside, same⟩ := List.mem_map.mp listed
    exact clear_of_term same (allClear_flatMap texts e inside)
  | orderBy e asked =>
    obtain ⟨t, made, rfl⟩ := effect
    have item := clear_orderItem (clear_of_term made clear) asked
    exact { held with order := forall_mem_concat held.order item }
  | compose other =>
    cases other with
    | none =>
      cases effect
      exact held
    | some cs =>
      obtain ⟨r, composed, rfl⟩ := effect
      exact clauses_tidy_merge held (passes cs rfl clear r composed)
  | _ =>
    cases effect
    exact { held with }

theorem select_tidy (reserved : Reserved bad) {cs : List QueryCall} (h : QueryTidy bad cs)
    (clear : AllClear bad (textsOf cs)) : Tidy bad (selectOf cs).script := by
  rcases made : selectOf cs with ⟨e | q, d⟩
  · exact tidy_failure e
  · exact tidy_query reserved (h clear q (congrArg Builder.state made))

theorem tidy_compositional (reserved : Reserved bad) :
    Compositional (ExprTidy bad) (CondTidy bad) (QueryTidy bad) where
  term t clear :=
    tidy_of_bare (bare_term reserved (clear (.plain t.text) List.mem_cons_self))
  subquery cs inner clear := tidy_nested reserved (select_tidy reserved inner clear)
  aliased e label inner clear := by
    obtain ⟨texts, last⟩ := allClear_append.mp clear
    have own : ClearText bad label := last (.plain label) List.mem_cons_self
    have suffix : Bare bad [.text (" AS " ++ label)] :=
      bare_text (clear_append (clear_library reserved (by decide)) own)
    have head : (" AS " ++ label).toList.head? = some ' ' := by simp
    exact tidy_append (inner texts) (tidy_of_bare suffix) (opens_text _ [] head rfl)
  compare column op v clear :=
    tidy_atom rfl (tidy_compare reserved (clear (.plain column) List.mem_cons_self) op v)
  member column polarity values clear :=
    tidy_atom rfl
      (tidy_member reserved (clear (.plain column) List.mem_cons_self) polarity values)
  memberOf column polarity cs inner clear := by
    obtain ⟨own, texts⟩ := allClear_cons.mp clear
    have name : ClearText bad column := own
    have lead : ClearText bad (column ++ " " ++ (Operator.member polarity).keyword ++ " ") := by
      have blank : ClearText bad " " := clear_library reserved (by decide)
      have word : ClearText bad (Operator.member polarity).keyword := by
        cases polarity <;> exact clear_library reserved (by decide)
      exact clear_append (clear_append (clear_append name blank) word) blank
    exact tidy_atom rfl
      (tidy_before reserved lead (tidy_nested reserved (select_tidy reserved inner texts)))
  between column polarity low high clear :=
    tidy_atom rfl
      (tidy_between reserved (clear (.plain column) List.mem_cons_self) polarity low high)
  nullTest column polarity clear :=
    tidy_atom rfl (tidy_nullTest reserved (clear (.plain column) List.mem_cons_self) polarity)
  existence polarity e inner clear :=
    tidy_atom rfl (tidy_existence reserved polarity clear (inner clear))
  raw sql values clear :=
    tidy_atom rfl (tidy_raw (clear (.marked sql) List.mem_cons_self) values)
  conj a b left right clear := by
    obtain ⟨first, second⟩ := allClear_append.mp clear
    exact tidy_conj reserved (left first) (right second)
  disj a b left right clear := by
    obtain ⟨first, second⟩ := allClear_append.mp clear
    exact tidy_disj reserved (left first) (right second)
  neg a inner clear := tidy_neg reserved (inner clear)
  case cs branches clear := by
    have texts : AllClear bad (cs.flatMap CaseCall.texts) := by
      rw [← caseTexts_eq_flatMap]
      exact clear
    exact tidy_case reserved fun t v member =>
      branches t v member (allClear_flatMap texts _ member)
  calls cs passes clear := by
    intro q state
    rw [textsOf_eq_flatMap] at clear
    have start : ClausesTidy bad .empty := by constructor <;> simp [Query.empty]
    exact selectOf_invariant
      (fun c member q held q' effect =>
        call_tidy reserved (passes c member) (allClear_flatMap clear c member) held effect)
      start state

/-! Statements. -/

theorem clear_table (reserved : Reserved bad) {table : ExprTree} (clear : AllClear bad table.texts)
    (t : Term) (made : table.expr = .term t) : Bare bad t.script :=
  bare_term reserved (clear_of_term made clear)

structure RowsClear (bad : List Char) (r : Rows) : Prop where
  table : Bare bad r.table.script
  columns : ∀ n ∈ r.columns, ClearText bad n

theorem insertOf_clear (reserved : Reserved bad) {table : ExprTree}
    {cs : List (Builder.Call Rows.Edit)} (own : AllClear bad table.texts)
    (clear : AllClear bad (cs.flatMap rowTexts)) {r : Rows}
    (h : (insertOf table cs).state = .ok r) : RowsClear bad r := by
  rw [insertOf, ← List.map_id cs] at h
  refine calls_keep (g := ()) (fun r _ => RowsClear bad r) (fun _ _ => ())
    (fun c member r _ held r' effect => ?_) (fun a begun => ?_) r h
  · have texts := allClear_flatMap clear c member
    cases c with
    | dialect d =>
      cases effect
      exact held
    | edit e =>
      cases e with
      | columns names =>
        cases effect
        exact { held with columns := allClear_names texts }
      | values row =>
        cases effect
        exact { held with }
      | valuesMany rows =>
        cases effect
        exact { held with }
  · obtain ⟨t, checked, rfl⟩ := map_eq_ok begun
    exact ⟨clear_table reserved own t (mutationTable_eq_ok checked), by simp⟩

theorem rows_tidy (reserved : Reserved bad) {r : Rows} (h : RowsClear bad r) :
    Tidy bad r.script := by
  rw [Rows.script]
  cases r.fault? with
  | some e => exact tidy_failure e
  | none =>
    have into : Bare bad [.text "INSERT INTO "] := bare_library reserved (by decide)
    have opening : Bare bad [.text " ("] := bare_library reserved (by decide)
    have closing : Bare bad [.text ") VALUES "] := bare_library reserved (by decide)
    have rows : Tidy bad (Script.separated ", " (r.rows.map Rows.rowScript)) := by
      apply tidy_listed reserved
      intro s member
      obtain ⟨row, _, rfl⟩ := List.mem_map.mp member
      refine tidy_parenthesized reserved (tidy_listed reserved fun s member => ?_)
      obtain ⟨v, _, rfl⟩ := List.mem_map.mp member
      exact tidy_argument v
    have names := bare_names reserved h.columns
    exact tidy_lead (bare_append (bare_append into h.table) (bare_append opening names))
      (tidy_lead closing rows)

theorem insert_tidy (reserved : Reserved bad) {table : ExprTree}
    {cs : List (Builder.Call Rows.Edit)} (own : AllClear bad table.texts)
    (clear : AllClear bad (cs.flatMap rowTexts)) :
    Tidy bad (Insert.script (insertOf table cs)) := by
  rcases made : insertOf table cs with ⟨e | r, d⟩
  · exact tidy_failure e
  · exact rows_tidy reserved (insertOf_clear reserved own clear (congrArg Builder.state made))

theorem condition_tidy (reserved : Reserved bad) {t : CondTree} (clear : AllClear bad t.texts)
    {p : Predicate} (sound : t.condition = .ok p) : Tidy bad p.script :=
  tidy_words sound ((tidy_compositional reserved).cond t clear)

theorem where_tidy (reserved : Reserved bad) {ps : List Predicate}
    (each : ∀ p ∈ ps, Tidy bad p.script) :
    Tidy bad (whereClause ps) ∧ Opens (whereClause ps) := by
  rw [whereClause, operands_eq_map]
  exact ⟨tidy_predicates reserved (clear_library reserved (by decide)) each,
    opens_filterClause _ _⟩

structure ChangesTidy (bad : List Char) (c : Changes) : Prop where
  table : Bare bad c.table.script
  assignments : ∀ a ∈ c.assignments, Tidy bad (Changes.assignmentScript a)
  filters : ∀ p ∈ c.filters, Tidy bad p.script

theorem assignment_tidy (reserved : Reserved bad) {column : String} (clear : ClearText bad column)
    {assigned : Assigned} (h : Tidy bad (Changes.assignedScript assigned)) :
    Tidy bad (Changes.assignmentScript (column, assigned)) := by
  have sign : Bare bad [.text " = "] := bare_library reserved (by decide)
  exact tidy_lead (bare_qualified reserved clear) (tidy_lead sign h)

theorem updateOf_tidy (reserved : Reserved bad) {table : ExprTree} {cs : List UpdateCall}
    (own : AllClear bad table.texts) (clear : AllClear bad (cs.flatMap UpdateCall.texts))
    {c : Changes} (h : (updateOf table cs).state = .ok c) : ChangesTidy bad c := by
  refine updateOf_invariant (fun u member c held c' effect => ?_) (fun t made => ?_) h
  · have texts := allClear_flatMap clear u member
    cases u with
    | dialect d =>
      cases effect
      exact held
    | set column v =>
      cases effect
      have name : ClearText bad column := texts (.plain column) List.mem_cons_self
      have assigned : Tidy bad (Changes.assignedScript (.value v)) := tidy_argument v
      have assignment := assignment_tidy reserved name assigned
      exact { held with assignments := forall_mem_concat held.assignments assignment }
    | setRaw column sql =>
      cases effect
      obtain ⟨name, rest⟩ := allClear_cons.mp texts
      have raw : ClearText bad sql := rest (.plain sql) List.mem_cons_self
      have assigned : Tidy bad (Changes.assignedScript (.raw sql)) := tidy_of_bare (bare_text raw)
      have assignment := assignment_tidy reserved name assigned
      exact { held with assignments := forall_mem_concat held.assignments assignment }
    | filter t =>
      obtain ⟨p, sound, rfl⟩ := effect
      have filter := condition_tidy reserved texts sound
      exact { held with filters := forall_mem_concat held.filters filter }
  · exact ⟨clear_table reserved own t made, by simp, by simp⟩

theorem changes_tidy (reserved : Reserved bad) {c : Changes} (h : ChangesTidy bad c) :
    Tidy bad c.script := by
  rw [Changes.script]
  split
  · exact tidy_failure _
  · have lead : Bare bad [.text "UPDATE "] := bare_library reserved (by decide)
    have word : Bare bad [.text " SET "] := bare_library reserved (by decide)
    have assignments : Tidy bad
        (Script.separated ", " (c.assignments.map Changes.assignmentScript)) := by
      apply tidy_listed reserved
      intro s member
      obtain ⟨a, inside, rfl⟩ := List.mem_map.mp member
      exact h.assignments a inside
    obtain ⟨filters, opens⟩ := where_tidy reserved h.filters
    exact tidy_append (tidy_lead (bare_append lead h.table) (tidy_lead word assignments)) filters
      opens

theorem deleteOf_tidy (reserved : Reserved bad) {table : ExprTree} {cs : List DeleteCall}
    (own : AllClear bad table.texts) (clear : AllClear bad (cs.flatMap DeleteCall.texts))
    {r : Removal} (h : (deleteOf table cs).state = .ok r) : Tidy bad r.script := by
  have kept : Bare bad r.table.script ∧ ∀ p ∈ r.filters, Tidy bad p.script := by
    refine deleteOf_invariant
      (I := fun r => Bare bad r.table.script ∧ ∀ p ∈ r.filters, Tidy bad p.script)
      (fun d member r held r' effect => ?_) (fun t made => ?_) h
    · have texts := allClear_flatMap clear d member
      cases d with
      | dialect d =>
        cases effect
        exact held
      | filter t =>
        obtain ⟨p, sound, rfl⟩ := effect
        have filter := condition_tidy reserved texts sound
        exact ⟨held.1, forall_mem_concat held.2 filter⟩
    · exact ⟨clear_table reserved own t made, by simp⟩
  have lead : Bare bad [.text "DELETE FROM "] := bare_library reserved (by decide)
  obtain ⟨filters, opens⟩ := where_tidy reserved kept.2
  exact tidy_append (tidy_of_bare (bare_append lead kept.1)) filters opens

def ConflictClear (bad : List Char) (c : Conflict) : Prop :=
  (∀ n ∈ c.target, ClearText bad n) ∧
    ∀ names, c.action = .overwrite names → ∀ n ∈ names, ClearText bad n

theorem conflict_clear {u : Upsert} {cs : List (Builder.Call Conflict.Edit)}
    (clear : AllClear bad (cs.flatMap conflictTexts))
    (start : ∀ c, u.conflict = .ok c → ConflictClear bad c) :
    ∀ c, (cs.foldl upsertCall u).conflict = .ok c → ConflictClear bad c := by
  induction cs generalizing u with
  | nil => exact start
  | cons call cs ih =>
    obtain ⟨texts, rest⟩ := allClear_append.mp clear
    apply ih rest
    intro c made
    cases call with
    | dialect d => exact start c made
    | edit e =>
      obtain ⟨before, known, edited⟩ := bind_eq_ok made
      have held := start before known
      cases e with
      | keep =>
        cases edited
        exact ⟨held.1, by simp⟩
      | target names =>
        cases names with
        | nil => cases edited
        | cons n ns =>
          cases edited
          exact ⟨allClear_names texts, held.2⟩
      | overwrite names =>
        cases names with
        | nil => cases edited
        | cons n ns =>
          cases edited
          constructor
          · exact held.1
          · rintro _ ⟨⟩
            exact allClear_names texts

theorem conflict_tidy (reserved : Reserved bad) {c : Conflict} (h : ConflictClear bad c) :
    Tidy bad c.script ∧ Opens c.script := by
  have lead : Bare bad [.text " ON CONFLICT ("] := bare_library reserved (by decide)
  have closing : Bare bad [.text ")"] := bare_library reserved (by decide)
  have action : Bare bad (Conflict.actionScript c.action) := by
    cases asked : c.action with
    | keep => exact bare_library reserved (by decide)
    | overwrite names =>
      have word : Bare bad [.text " DO UPDATE SET "] :=
        bare_library reserved (by decide)
      have excluded : Bare bad [.text " = excluded."] :=
        bare_library reserved (by decide)
      refine bare_append word (bare_separated (clear_library reserved (by decide)) ?_)
      intro s member
      obtain ⟨n, inside, rfl⟩ := List.mem_map.mp member
      have column := bare_column (h.2 names asked n inside)
      exact bare_append column (bare_append excluded column)
  rw [Conflict.script]
  split
  · exact ⟨tidy_failure _, opens_failure _⟩
  · have names := bare_names reserved h.1
    constructor
    · exact tidy_of_bare (bare_append (bare_append (bare_need _) (bare_append lead names))
        (bare_append closing action))
    · exact opens_need _ (opens_text " ON CONFLICT (" _ rfl rfl)

theorem returning_tidy (reserved : Reserved bad) {columns : List String}
    (clear : ∀ n ∈ columns, ClearText bad n) :
    Tidy bad (Statement.returningScript columns) ∧
      Opens (Statement.returningScript columns) := by
  have word : Bare bad [.text " RETURNING "] := bare_library reserved (by decide)
  have star : Bare bad [.text "*"] := bare_library reserved (by decide)
  have listed : Bare bad (if columns.isEmpty then [.text "*"] else Script.names columns) := by
    split
    · exact star
    · exact bare_names reserved clear
  constructor
  · exact tidy_of_bare (bare_append (bare_need _) (bare_append word listed))
  · exact opens_need _ (opens_text " RETURNING " _ rfl rfl)

/-- Clear texts make a tidy statement, whatever the values are. -/
theorem statement_tidy (reserved : Reserved bad) {t : StatementTree}
    (clear : AllClear bad t.texts) : Tidy bad t.statement.script := by
  induction t with
  | select cs =>
    exact select_tidy reserved ((tidy_compositional reserved).query cs) clear
  | insert table cs =>
    obtain ⟨own, calls⟩ := allClear_append.mp clear
    exact insert_tidy reserved own calls
  | update table cs =>
    obtain ⟨own, calls⟩ := allClear_append.mp clear
    change Tidy bad (Update.script (updateOf table cs))
    rcases made : updateOf table cs with ⟨e | c, d⟩
    · exact tidy_failure e
    · exact changes_tidy reserved (updateOf_tidy reserved own calls (congrArg Builder.state made))
  | delete table cs =>
    obtain ⟨own, calls⟩ := allClear_append.mp clear
    change Tidy bad (Delete.script (deleteOf table cs))
    rcases made : deleteOf table cs with ⟨e | r, d⟩
    · exact tidy_failure e
    · exact deleteOf_tidy reserved own calls (congrArg Builder.state made)
  | upsert table cs conflicts =>
    obtain ⟨front, named⟩ := allClear_append.mp clear
    obtain ⟨own, calls⟩ := allClear_append.mp front
    have start : ∀ c, (Upsert.conflict { insert := insertOf table cs }) = .ok c →
        ConflictClear bad c := by
      rintro _ ⟨⟩
      exact ⟨by simp, by simp⟩
    have kept := conflict_clear named start
    change Tidy bad (Upsert.script _)
    rw [Upsert.script, upserted_insert]
    cases asked : (conflicts.foldl upsertCall { insert := insertOf table cs }).conflict with
    | error e =>
      exact tidy_append (insert_tidy reserved own calls) (tidy_failure e) (opens_failure e)
    | ok c =>
      obtain ⟨tidy, opens⟩ := conflict_tidy reserved (kept c asked)
      exact tidy_append (insert_tidy reserved own calls) tidy opens
  | returning inner columns dialects ih =>
    obtain ⟨own, names⟩ := allClear_append.mp clear
    obtain ⟨tidy, opens⟩ := returning_tidy reserved (allClear_names names)
    change Tidy bad (dialects.foldl _ (Statement.returning inner.statement columns none)).script
    rw [script_withDialects]
    exact tidy_append (ih own) tidy opens

end SqlAssembly
