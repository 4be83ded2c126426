import SqlAssembly.Proofs.Rendering
import SqlAssembly.Statement

/-! The payload of a script is what is left without its plain text and its names: arguments,
   demands on the dialect and failures. Every clause passes the payload of its items on, in order
   and with nothing between. -/
namespace SqlAssembly

def Piece.isLoaded : Piece → Bool
  | .text _ => false
  | .qualified _ => false
  | _ => true

def Script.payload (s : Script) : Script := s.filter Piece.isLoaded

theorem payload_append (a b : Script) : Script.payload (a ++ b) = a.payload ++ b.payload :=
  List.filter_append ..

theorem payload_text (sql : String) (s : Script) :
    Script.payload (.text sql :: s) = s.payload := rfl

theorem payload_qualified (name : String) (s : Script) :
    Script.payload (.qualified name :: s) = s.payload := rfl

theorem payload_flatten (ss : List Script) :
    Script.payload ss.flatten = ss.flatMap Script.payload := by
  induction ss with
  | nil => rfl
  | cons s ss ih => rw [List.flatten_cons, payload_append, ih, List.flatMap_cons]

theorem payload_flatMap {α : Type} (f : α → Script) (xs : List α) :
    Script.payload (xs.flatMap f) = xs.flatMap fun x => (f x).payload := by
  rw [List.flatMap, payload_flatten, List.flatMap_map]

theorem payload_separated (separator : String) (ss : List Script) :
    (Script.separated separator ss).payload = ss.flatMap Script.payload := by
  induction ss with
  | nil => rfl
  | cons s ss ih =>
    cases ss with
    | nil => simp [Script.separated]
    | cons t ss =>
      rw [Script.separated, payload_append, payload_text, ih]
      rfl

theorem payload_names (ns : List String) : (Script.names ns).payload = [] := by
  rw [Script.names, payload_separated]
  simp [Script.payload, Piece.isLoaded]

theorem payload_parenthesized (s : Script) : s.parenthesized.payload = s.payload := by
  rw [Script.parenthesized, List.cons_append, payload_text, payload_append]
  exact List.append_nil _

theorem payload_nested (s : Script) : s.nested.payload = s.payload.map Script.nestedPiece := by
  rw [Script.nested, payload_parenthesized, Script.payload, List.filter_map]
  have same : Piece.isLoaded ∘ Script.nestedPiece = Piece.isLoaded := by
    funext p
    cases p <;> rfl
  rw [same, Script.payload]

theorem payload_filterClause (keyword : String) (os : List Operand) :
    (filterClause keyword os).payload = os.flatMap fun o => Script.payload o.2 := by
  have guarded (o : Operand) : o.guarded.payload = Script.payload o.2 := by
    rcases o with ⟨disjunction, s⟩
    cases disjunction with
    | false => rfl
    | true => exact payload_parenthesized s
  match os with
  | [] => rfl
  | [o] => rw [filterClause, payload_text]; simp
  | o :: p :: os =>
    change (Script.separated " AND " ((o :: p :: os).map Operand.guarded)).payload = _
    rw [payload_separated, List.flatMap_map]
    simp only [guarded]

theorem payload_listClause (keyword : String) (ss : List Script) :
    (listClause keyword ss).payload = ss.flatMap Script.payload := by
  cases ss with
  | nil => rfl
  | cons s ss =>
    rw [listClause, payload_text, payload_separated]
    simp

theorem payload_countClause (keyword : String) (n : Option Nat) :
    (countClause keyword n).payload = [] := by cases n <;> rfl

theorem payload_projection (ss : List Script) :
    (projection ss).payload = ss.flatMap Script.payload := by
  cases ss with
  | nil => rfl
  | cons s ss =>
    rw [projection, payload_separated]
    simp

theorem payload_term (t : Term) : t.script.payload = [] := by cases t <;> rfl

theorem payload_order (item : OrderItem) : item.script.payload = [] := by
  rcases item with ⟨key, direction⟩
  rw [OrderItem.script, payload_append, payload_term]
  cases direction <;> rfl

theorem payload_join (j : Join) : j.script.payload = j.target.script.payload := by
  rcases j with ⟨kind, target, on⟩
  have on_nil : (onClause on).payload = [] := by cases on <;> rfl
  rw [Join.script, List.cons_append, payload_text, payload_append, on_nil]
  exact List.append_nil _

theorem payload_source (source : Option Expr) :
    (sourceScript source).payload = source.toList.flatMap fun e => e.script.payload := by
  cases source with
  | none => rfl
  | some e => simp [sourceScript, payload_text]

/-- Projection, table, joins, WHERE, HAVING: nothing else carries anything. -/
theorem payload_query (q : Query) :
    q.script.payload =
      q.columns.flatMap (fun e => e.script.payload) ++
        q.source.toList.flatMap (fun e => e.script.payload) ++
        q.joins.flatMap (fun j => j.target.script.payload) ++
        q.filters.flatMap (fun p => p.script.payload) ++
        q.groupFilters.flatMap (fun p => p.script.payload) := by
  have groups : (listClause "GROUP BY" (q.groups.map Term.script)).payload = [] := by
    simp [payload_listClause, List.flatMap_map, payload_term]
  have order : (listClause "ORDER BY" (q.order.map OrderItem.script)).payload = [] := by
    simp [payload_listClause, List.flatMap_map, payload_order]
  rw [Query.script_eq, payload_text]
  simp only [payload_append, payload_projection, payload_source, payload_flatMap, payload_join,
    payload_filterClause, payload_countClause, groups, order, List.flatMap_map, List.append_nil]
  rfl

theorem payload_whereClause (filters : List Predicate) :
    (whereClause filters).payload = filters.flatMap fun p => p.script.payload := by
  rw [whereClause, payload_filterClause, operands_eq_map, List.flatMap_map]
  rfl

theorem payload_argument (v : Value) : (Script.argument v).payload = Script.argument v := rfl

theorem payload_row (row : List Value) :
    (Rows.rowScript row).payload = row.flatMap Script.argument := by
  simp only [Rows.rowScript, payload_parenthesized, payload_separated, List.flatMap_map,
    payload_argument]

theorem payload_rows (r : Rows) :
    r.script.payload =
      match r.fault? with
      | some e => [.fail e]
      | none => r.rows.flatMap fun row => row.flatMap Script.argument := by
  rw [Rows.script]
  cases r.fault? with
  | some e => rfl
  | none =>
    simp only [List.cons_append, payload_text, payload_append, payload_term, payload_names,
      payload_separated, List.flatMap_map, payload_row, List.nil_append]

theorem payload_changes (c : Changes) :
    c.script.payload =
      if c.assignments.isEmpty then [.fail .missingAssignments]
      else c.assignments.flatMap (fun a => (Changes.assignedScript a.2).payload) ++
        c.filters.flatMap fun p => p.script.payload := by
  rw [Changes.script]
  split
  · rfl
  · simp only [List.cons_append, payload_text, payload_append, payload_term, payload_separated,
      payload_whereClause, List.flatMap_map, Changes.assignmentScript, payload_qualified,
      List.nil_append]

theorem payload_removal (r : Removal) :
    r.script.payload = r.filters.flatMap fun p => p.script.payload := by
  simp only [Removal.script, List.cons_append, payload_text, payload_append, payload_term,
    payload_whereClause, List.nil_append]

theorem payload_conflict (c : Conflict) :
    c.script.payload =
      if c.target.isEmpty then [.fail .emptyConflictTarget]
      else .need .onConflict ::
        match c.action with
        | .keep => []
        | .overwrite names => names.flatMap fun name => [.column name, .column name] := by
  rcases c with ⟨target, action⟩
  rw [Conflict.script]
  split
  · rfl
  · change Piece.need .onConflict :: Script.payload (Script.names target ++ .text ")" ::
      Conflict.actionScript action) = _
    rw [payload_append, payload_names, List.nil_append, payload_text]
    cases action with
    | keep => rfl
    | overwrite names =>
      rw [Conflict.actionScript, payload_text, payload_separated, List.flatMap_map]
      rfl

theorem payload_returning (columns : List String) :
    (Statement.returningScript columns).payload = [.need .returning] := by
  rw [Statement.returningScript]
  change Piece.need .returning :: Script.payload (if columns.isEmpty then _ else _) = _
  split
  · rfl
  · rw [payload_names]

theorem arguments_payload (s : Script) : s.payload.arguments = s.arguments := by
  induction s with
  | nil => rfl
  | cons p s ih =>
    cases p with
    | text _ => exact ih
    | qualified _ => exact ih
    | _ => exact congrArg (Piece.values _ ++ ·) ih

theorem failure_payload (s : Script) : s.payload.failure? = s.failure? := by
  induction s with
  | nil => rfl
  | cons p s ih =>
    cases p with
    | fail e => rfl
    | _ => exact ih

theorem arguments_of_payload {script : Script} (empty : script.payload = []) :
    script.arguments = [] := by
  rw [← arguments_payload, empty]
  rfl

theorem arguments_conflict (c : Conflict) : c.script.arguments = [] := by
  rw [← arguments_payload, payload_conflict]
  split
  · rfl
  · cases c.action with
    | keep => rfl
    | overwrite names =>
      change List.flatMap Piece.values (names.flatMap _) = []
      simp [List.flatMap_assoc, Piece.values]

theorem arguments_returning (columns : List String) :
    (Statement.returningScript columns).arguments = [] := by
  rw [← arguments_payload, payload_returning]
  rfl

/-! What is asked of every piece of a script, when text, names and failures meet it in any case, and
    perhaps every argument as well. Only the rest of the payload has to be looked at then. -/

def Script.Each (P : Piece → Prop) (s : Script) : Prop := ∀ p ∈ s, P p

structure Indifferent (P : Piece → Prop) : Prop where
  text : ∀ sql, P (.text sql)
  qualified : ∀ name, P (.qualified name)
  failure : ∀ e, P (.fail e)

structure Undemanding (P : Piece → Prop) : Prop extends Indifferent P where
  argument : ∀ v, P (.fragment "?" [v])

/-- What every piece of the clauses of a query meets. -/
structure ClausesEach (P : Piece → Prop) (q : Query) : Prop where
  columns : ∀ e ∈ q.columns, e.script.Each P
  source : ∀ e, q.source = some e → e.script.Each P
  joins : ∀ j ∈ q.joins, j.target.script.Each P
  filters : ∀ p ∈ q.filters, p.script.Each P
  groupFilters : ∀ p ∈ q.groupFilters, p.script.Each P

section Each

variable {P : Piece → Prop}

theorem each_append {a b : Script} : Script.Each P (a ++ b) ↔ a.Each P ∧ b.Each P :=
  List.forall_mem_append

theorem each_flatMap {α : Type} {f : α → Script} {xs : List α} (h : ∀ x ∈ xs, (f x).Each P) :
    Script.Each P (xs.flatMap f) := by
  intro p member
  obtain ⟨x, inside, hp⟩ := List.mem_flatMap.mp member
  exact h x inside p hp

theorem ClausesEach.merge {q r : Query} (left : ClausesEach P q) (right : ClausesEach P r) :
    ClausesEach P (q.merge r) := by
  refine ⟨List.forall_mem_append.mpr ⟨left.columns, right.columns⟩, ?_,
    List.forall_mem_append.mpr ⟨left.joins, right.joins⟩,
    List.forall_mem_append.mpr ⟨left.filters, right.filters⟩,
    List.forall_mem_append.mpr ⟨left.groupFilters, right.groupFilters⟩⟩
  intro e table
  rcases Option.or_eq_some_iff.mp table with own | ⟨-, other⟩
  · exact left.source e own
  · exact right.source e other

namespace Indifferent

theorem each_failure (h : Indifferent P) (e : BuildError) : Script.Each P [.fail e] :=
  List.forall_mem_singleton.mpr (h.failure e)

theorem each_iff_payload (h : Indifferent P) (s : Script) : s.Each P ↔ s.payload.Each P := by
  constructor
  · intro each p member
    exact each p (List.mem_filter.mp member).1
  · intro each p member
    cases p with
    | text sql => exact h.text sql
    | qualified name => exact h.qualified name
    | _ => exact each _ (List.mem_filter.mpr ⟨member, rfl⟩)

theorem each_of_unloaded (h : Indifferent P) {s : Script} (empty : s.payload = []) : s.Each P := by
  rw [h.each_iff_payload, empty]
  exact List.forall_mem_nil P

theorem each_nested (h : Indifferent P) {s : Script} (each : s.Each P) : s.nested.Each P := by
  rw [h.each_iff_payload, payload_nested]
  intro p member
  obtain ⟨r, inside, rfl⟩ := List.mem_map.mp member
  have met : P r := (h.each_iff_payload s).mp each r inside
  cases r with
  | fail e => exact h.failure (.subquery e)
  | _ => exact met

theorem each_payloads (h : Indifferent P) {α : Type} {f : α → Script} {xs : List α}
    (each : ∀ x ∈ xs, (f x).Each P) : Script.Each P (xs.flatMap fun x => (f x).payload) :=
  each_flatMap fun x inside => (h.each_iff_payload (f x)).mp (each x inside)

theorem each_query (h : Indifferent P) {q : Query} (clauses : ClausesEach P q) :
    q.script.Each P := by
  rw [h.each_iff_payload, payload_query]
  simp only [each_append]
  refine ⟨⟨⟨⟨?_, ?_⟩, ?_⟩, ?_⟩, ?_⟩
  · exact h.each_payloads clauses.columns
  · exact h.each_payloads fun e inside => clauses.source e (Option.mem_toList.mp inside)
  · exact h.each_payloads clauses.joins
  · exact h.each_payloads clauses.filters
  · exact h.each_payloads clauses.groupFilters

theorem each_select (h : Indifferent P) {s : Select}
    (clauses : ∀ q, s.state = .ok q → ClausesEach P q) : s.script.Each P := by
  rcases s with ⟨e | q, d⟩
  · exact h.each_failure e
  · exact h.each_query (clauses q rfl)

theorem each_delete (h : Indifferent P) {s : Delete}
    (filters : ∀ r, s.state = .ok r → ∀ p ∈ r.filters, p.script.Each P) : s.script.Each P := by
  rcases s with ⟨e | r, d⟩
  · exact h.each_failure e
  · change r.script.Each P
    rw [h.each_iff_payload, payload_removal]
    exact h.each_payloads (filters r rfl)

end Indifferent

namespace Undemanding

theorem each_argument (h : Undemanding P) (v : Value) : (Script.argument v).Each P :=
  List.forall_mem_singleton.mpr (h.argument v)

theorem each_insert (h : Undemanding P) (s : Insert) : s.script.Each P := by
  rw [Insert.script]
  cases s.state with
  | error e => exact h.each_failure e
  | ok r =>
    simp only
    rw [h.each_iff_payload, payload_rows]
    cases r.fault? with
    | some e => exact h.each_failure e
    | none => exact each_flatMap fun row _ => each_flatMap fun v _ => h.each_argument v

theorem each_assigned (h : Undemanding P) (a : Assigned) :
    (Changes.assignedScript a).Each P := by
  cases a with
  | value v => exact h.each_argument v
  | raw sql => exact List.forall_mem_singleton.mpr (h.text sql)

theorem each_update (h : Undemanding P) {s : Update}
    (filters : ∀ c, s.state = .ok c → ∀ p ∈ c.filters, p.script.Each P) : s.script.Each P := by
  rcases s with ⟨e | c, d⟩
  · exact h.each_failure e
  · change c.script.Each P
    rw [h.each_iff_payload, payload_changes]
    split
    · exact h.each_failure .missingAssignments
    · exact each_append.mpr ⟨h.each_payloads fun a _ => h.each_assigned a.2,
        h.each_payloads (filters c rfl)⟩

end Undemanding

end Each

end SqlAssembly
