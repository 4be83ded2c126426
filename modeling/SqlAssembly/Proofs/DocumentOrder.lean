import Mathlib.Data.List.Basic
import SqlAssembly.Proofs.CallEffects
import SqlAssembly.Proofs.ConditionWords
import SqlAssembly.Proofs.DialectIndependence

/-! The values that a caller binds come out as arguments in the order in which the statement is
   read: clause by clause, and what a nested query binds in the place of the query. -/
namespace SqlAssembly

/-- The values bound in each clause of a query. A query without a table has no values for it. -/
structure Bound where
  projection : List Value := []
  source : Option (List Value) := none
  joins : List Value := []
  filters : List Value := []
  groupFilters : List Value := []

namespace Bound

def inOrder (b : Bound) : List Value :=
  b.projection ++ b.source.getD [] ++ b.joins ++ b.filters ++ b.groupFilters

/-- Of two tables the first counts. -/
def merge (a b : Bound) : Bound where
  projection := a.projection ++ b.projection
  source := a.source.or b.source
  joins := a.joins ++ b.joins
  filters := a.filters ++ b.filters
  groupFilters := a.groupFilters ++ b.groupFilters

end Bound

mutual

def ExprTree.values : ExprTree → List Value
  | .term _ => []
  | .subquery cs => (boundBy {} cs).inOrder
  | .aliased e _ => e.values

def exprValues : List ExprTree → List Value
  | [] => []
  | e :: es => e.values ++ exprValues es

/-- A comparison with NULL binds nothing. The result of a CASE branch is bound after the values of
    its condition, the fallback at the end. -/
def CondTree.values : CondTree → List Value
  | .compare _ _ value => if value.isNull then [] else [value]
  | .member _ _ values => values
  | .memberOf _ _ cs => (boundBy {} cs).inOrder
  | .between _ _ low high => [low, high]
  | .nullTest _ _ => []
  | .existence _ e => e.values
  | .raw _ values => values
  | .conj a b => a.values ++ b.values
  | .disj a b => a.values ++ b.values
  | .neg a => a.values
  | .case cs => branchValues cs ++ (lastOtherwise cs).toList

def CaseCall.values : CaseCall → List Value
  | .when t v => t.values ++ [v]
  | .otherwise _ => []

def branchValues : List CaseCall → List Value
  | [] => []
  | c :: cs => c.values ++ branchValues cs

/-- What is bound after the call, if b was bound before. -/
def QueryCall.bound (b : Bound) : QueryCall → Bound
  | .columns es => { b with projection := b.projection ++ exprValues es }
  | .source e => { b with source := some e.values }
  | .join _ target _ _ => { b with joins := b.joins ++ target.values }
  | .filter t => { b with filters := b.filters ++ t.values }
  | .groupFilter t => { b with groupFilters := b.groupFilters ++ t.values }
  | .compose other => b.merge (composedBound other)
  | _ => b

def composedBound : Option (List QueryCall) → Bound
  | none => {}
  | some cs => boundBy {} cs

def boundBy (b : Bound) : List QueryCall → Bound
  | [] => b
  | c :: cs => boundBy (c.bound b) cs

end

def rowValues : Builder.Call Rows.Edit → List Value
  | .edit (.values row) => row
  | .edit (.valuesMany rows) => rows.flatten
  | _ => []

def UpdateCall.assigned : UpdateCall → List Value
  | .set _ v => [v]
  | _ => []

def UpdateCall.filtered : UpdateCall → List Value
  | .filter t => t.values
  | _ => []

def DeleteCall.filtered : DeleteCall → List Value
  | .filter t => t.values
  | .dialect _ => []

def StatementTree.values : StatementTree → List Value
  | .select cs => (boundBy {} cs).inOrder
  | .insert _ cs => cs.flatMap rowValues
  | .update _ cs => cs.flatMap UpdateCall.assigned ++ cs.flatMap UpdateCall.filtered
  | .delete _ cs => cs.flatMap DeleteCall.filtered
  | .upsert _ cs _ => cs.flatMap rowValues
  | .returning inner _ _ => inner.values

/-- Written without a failure, the script has these arguments. -/
def Carries (s : Script) (vs : List Value) : Prop := s.failure? = none → s.arguments = vs

theorem carries_nil : Carries [] [] := fun _ => rfl

theorem carries_failure (e : BuildError) (vs : List Value) : Carries [.fail e] vs := by
  intro none
  cases none

theorem carries_append {a b : Script} {vs ws : List Value} (left : Carries a vs)
    (right : Carries b ws) : Carries (a ++ b) (vs ++ ws) := by
  intro none
  rw [failure_append, Option.or_eq_none_iff] at none
  rw [arguments_append, left none.1, right none.2]

theorem carries_flatMap {α : Type} {f : α → Script} {g : α → List Value} {xs : List α}
    (each : ∀ x ∈ xs, Carries (f x) (g x)) : Carries (xs.flatMap f) (xs.flatMap g) := by
  induction xs with
  | nil => exact carries_nil
  | cons x xs ih =>
    have rest := ih fun y member => each y (List.mem_cons_of_mem x member)
    exact carries_append (each x List.mem_cons_self) rest

theorem carries_payload {s : Script} {vs : List Value} (h : Carries s.payload vs) :
    Carries s vs := by
  unfold Carries at h ⊢
  rw [failure_payload, arguments_payload] at h
  exact h

theorem carries_of_carries {s : Script} {vs : List Value} (h : Carries s vs) :
    Carries s.payload vs := by
  unfold Carries at h ⊢
  rw [failure_payload, arguments_payload]
  exact h

theorem carries_parenthesized {s : Script} {vs : List Value} (h : Carries s vs) :
    Carries s.parenthesized vs := by
  apply carries_payload
  rw [payload_parenthesized]
  exact carries_of_carries h

theorem failure_nested (s : Script) : s.nested.failure? = s.failure?.map .subquery := by
  have inner : Script.failure? (s.map Script.nestedPiece) = s.failure?.map .subquery := by
    induction s with
    | nil => rfl
    | cons p s ih =>
      cases p with
      | fail e => rfl
      | _ => exact ih
  change Script.failure? (s.map Script.nestedPiece ++ [.text ")"]) = _
  rw [failure_append, inner]
  exact Option.or_none

theorem arguments_nested (s : Script) : s.nested.arguments = s.arguments := by
  have inner : Script.arguments (s.map Script.nestedPiece) = s.arguments := by
    rw [Script.arguments, Script.arguments, List.flatMap_map]
    apply List.flatMap_congr
    intro p _
    cases p <;> rfl
  change Script.arguments (s.map Script.nestedPiece ++ [.text ")"]) = _
  rw [arguments_append, inner]
  exact List.append_nil _

theorem carries_nested {s : Script} {vs : List Value} (h : Carries s vs) : Carries s.nested vs := by
  intro none
  rw [failure_nested, Option.map_eq_none_iff] at none
  rw [arguments_nested, h none]

/-- Words are seen through, wherever the fragments were cut. -/
theorem carries_words {t : CondTree} {p : Predicate} (sound : t.condition = .ok p)
    (h : Carries (wordsScript t.words) t.values) : Carries p.script t.values := by
  obtain ⟨-, reads⟩ := worded t p sound
  unfold Carries at h ⊢
  rw [reads seamless_failure, reads seamless_arguments]
  exact h

theorem carries_bracketed {ts : List Word} {vs : List Value} (h : Carries (wordsScript ts) vs) :
    Carries (wordsScript (bracketed ts)) vs := by
  rw [wordsScript_bracketed]
  exact carries_parenthesized h

theorem carries_guarded {t : CondTree} {vs : List Value} (h : Carries (wordsScript t.words) vs) :
    Carries (wordsScript t.guardedWords) vs := by
  unfold CondTree.guardedWords
  split
  · exact carries_bracketed h
  · exact h

abbrev ExprCarries (e : ExprTree) : Prop := Carries e.expr.script e.values

abbrev CondCarries (t : CondTree) : Prop := Carries (wordsScript t.words) t.values

theorem carries_atom {t : CondTree} (atom : t.isAtom = true)
    (h : Carries t.condition.script t.values) : CondCarries t := by
  unfold CondCarries
  rw [wordsScript_atom atom]
  exact h

theorem carries_leaf (sql : String) (values : List Value) :
    Carries (Condition.leaf sql values).script values := fun _ => List.append_nil _

theorem carries_compare (column : String) (op : Comparison) (v : Value) :
    CondCarries (.compare column op v) := by
  apply carries_atom rfl
  simp only [CondTree.condition, Condition.compare, CondTree.values]
  cases v.isNull with
  | false => exact carries_leaf _ _
  | true =>
    cases op with
    | eq => exact carries_leaf _ _
    | ne => exact carries_leaf _ _
    | _ => exact carries_failure _ _

theorem carries_member (column : String) (polarity : Polarity) (values : List Value) :
    CondCarries (.member column polarity values) := by
  apply carries_atom rfl
  simp only [CondTree.condition, Condition.member, CondTree.values]
  split
  · exact carries_failure _ _
  · split
    · exact carries_failure _ _
    · exact carries_leaf _ _

theorem carries_between (column : String) (polarity : Polarity) (low high : Value) :
    CondCarries (.between column polarity low high) := by
  apply carries_atom rfl
  simp only [CondTree.condition, Condition.between, CondTree.values]
  split
  · exact carries_failure _ _
  · exact carries_leaf _ _

theorem carries_raw (sql : String) (values : List Value) : CondCarries (.raw sql values) := by
  apply carries_atom rfl
  simp only [CondTree.condition, Condition.raw, CondTree.values]
  split
  · exact carries_leaf _ _
  · exact carries_failure _ _

/-- Text in front of a nested query adds nothing to what the query carries. -/
theorem carries_lead {sql : String} {q : Select} {vs : List Value}
    (h : Carries (Expr.script (.subquery q)) vs) :
    Carries (Condition.script (.ok (.leaf [.text sql [], .subquery q]))) vs := by
  rw [script_before]
  exact carries_append (fun _ => rfl) h

theorem carries_existence (polarity : Polarity) (e : ExprTree) (h : ExprCarries e) :
    CondCarries (.existence polarity e) := by
  apply carries_atom rfl
  cases e with
  | aliased e label => exact carries_failure _ _
  | subquery cs => exact carries_lead h
  | term t =>
    cases t with
    | raw sql => exact carries_leaf _ _
    | _ => exact carries_failure _ _

theorem carries_conj {a b : CondTree} (left : CondCarries a) (right : CondCarries b) :
    CondCarries (.conj a b) := by
  unfold CondCarries
  rw [words_conj, wordsScript_append]
  exact carries_append (carries_guarded left) (carries_guarded right)

theorem carries_disj {a b : CondTree} (left : CondCarries a) (right : CondCarries b) :
    CondCarries (.disj a b) := by
  unfold CondCarries
  rw [words_disj, wordsScript_append]
  exact carries_append (carries_bracketed left) (carries_bracketed right)

theorem carries_neg {a : CondTree} (h : CondCarries a) : CondCarries (.neg a) := by
  unfold CondCarries
  rw [words_neg]
  exact carries_bracketed h

theorem carries_branches {cs : List CaseCall}
    (each : ∀ t v, CaseCall.when t v ∈ cs → CondCarries t) :
    Carries (wordsScript (branchWords cs)) (branchValues cs) := by
  induction cs with
  | nil => exact carries_nil
  | cons c cs ih =>
    have rest := ih fun t v member => each t v (List.mem_cons_of_mem c member)
    rw [branchWords, wordsScript_append]
    refine carries_append ?_ rest
    cases c with
    | otherwise v => exact carries_nil
    | when t v =>
      have condition := each t v List.mem_cons_self
      have result : Carries (wordsScript [.thenWord, .value v]) [v] := fun _ => rfl
      have both := carries_append condition result
      rw [← wordsScript_append] at both
      exact both

theorem carries_case {cs : List CaseCall} (each : ∀ t v, CaseCall.when t v ∈ cs → CondCarries t) :
    CondCarries (.case cs) := by
  have fallback : Carries (wordsScript (fallbackWords (lastOtherwise cs) ++ [.endWord]))
      (lastOtherwise cs).toList := by
    cases lastOtherwise cs with
    | none => exact fun _ => rfl
    | some v => exact fun _ => rfl
  have both := carries_append (carries_branches each) fallback
  rw [← wordsScript_append] at both
  unfold CondCarries
  rw [words_case]
  exact both

/-! Queries. -/

def SourceCarries : Option Expr → Option (List Value) → Prop
  | none, none => True
  | some e, some vs => Carries e.script vs
  | _, _ => False

/-- Clause by clause the query carries what is bound. -/
structure ClausesCarry (q : Query) (b : Bound) : Prop where
  projection : Carries (q.columns.flatMap Expr.script) b.projection
  source : SourceCarries q.source b.source
  joins : Carries (q.joins.flatMap fun j => j.target.script) b.joins
  filters : Carries (q.filters.flatMap Predicate.script) b.filters
  groupFilters : Carries (q.groupFilters.flatMap Predicate.script) b.groupFilters

theorem clauses_carry_empty : ClausesCarry .empty {} :=
  ⟨carries_nil, trivial, carries_nil, carries_nil, carries_nil⟩

theorem sources_carry {a b : Option Expr} {vs ws : Option (List Value)} (left : SourceCarries a vs)
    (right : SourceCarries b ws) : SourceCarries (a.or b) (vs.or ws) := by
  cases a with
  | some e =>
    cases vs with
    | some vs => exact left
    | none => exact absurd left id
  | none =>
    cases vs with
    | some vs => exact absurd left id
    | none => exact right

theorem clauses_carry_merge {q r : Query} {b c : Bound} (left : ClausesCarry q b)
    (right : ClausesCarry r c) : ClausesCarry (q.merge r) (b.merge c) := by
  constructor
  · rw [Query.merge, List.flatMap_append]
    exact carries_append left.projection right.projection
  · exact sources_carry left.source right.source
  · rw [Query.merge, List.flatMap_append]
    exact carries_append left.joins right.joins
  · rw [Query.merge, List.flatMap_append]
    exact carries_append left.filters right.filters
  · rw [Query.merge, List.flatMap_append]
    exact carries_append left.groupFilters right.groupFilters

theorem merge_nothing (b : Bound) : b.merge {} = b := by
  rcases b with ⟨projection, source, joins, filters, groupFilters⟩
  simp [Bound.merge]

theorem source_carries {source : Option Expr} {vs : Option (List Value)}
    (h : SourceCarries source vs) : Carries (source.toList.flatMap Expr.script) (vs.getD []) := by
  cases source with
  | none =>
    cases vs with
    | none => exact carries_nil
    | some vs => exact absurd h id
  | some e =>
    cases vs with
    | none => exact absurd h id
    | some vs =>
      rw [Option.toList_some, List.flatMap_singleton]
      exact h

theorem query_carries {q : Query} {b : Bound} (h : ClausesCarry q b) :
    Carries q.script b.inOrder := by
  have loaded {α : Type} {f : α → Script} {xs : List α} {vs : List Value}
      (items : Carries (xs.flatMap f) vs) : Carries (xs.flatMap fun x => (f x).payload) vs := by
    rw [← payload_flatMap]
    exact carries_of_carries items
  apply carries_payload
  rw [payload_query]
  exact carries_append (carries_append (carries_append (carries_append
    (loaded h.projection) (loaded (source_carries h.source))) (loaded h.joins)) (loaded h.filters))
    (loaded h.groupFilters)

theorem exprs_carry {es : List ExprTree} (each : ∀ e ∈ es, ExprCarries e) :
    Carries ((exprsOf es).flatMap Expr.script) (exprValues es) := by
  induction es with
  | nil => exact carries_nil
  | cons e es ih =>
    have rest := ih fun x member => each x (List.mem_cons_of_mem e member)
    exact carries_append (each e List.mem_cons_self) rest

abbrev QueryCarries (cs : List QueryCall) : Prop :=
  ∀ r, (selectOf cs).state = .ok r → ClausesCarry r (boundBy {} cs)

/-- What a successful call adds to the query is what it adds to the values bound. -/
theorem call_carries {c : QueryCall} (passes : c.Passes ExprCarries CondCarries QueryCarries)
    {q q' : Query} {b : Bound} (held : ClausesCarry q b) (effect : c.Effect q q') :
    ClausesCarry q' (c.bound b) := by
  have single {s : Script} {vs : List Value} (h : Carries s vs) : Carries (s ++ []) vs := by
    rw [List.append_nil]
    exact h
  cases c with
  | columns es =>
    cases effect
    refine { held with projection := ?_ }
    rw [List.flatMap_append]
    exact carries_append held.projection (exprs_carry passes)
  | source e =>
    cases effect
    exact { held with source := passes }
  | join kind target left right =>
    cases effect
    refine { held with joins := ?_ }
    rw [List.flatMap_append]
    exact carries_append held.joins (single passes)
  | filter t =>
    obtain ⟨p, sound, rfl⟩ := effect
    refine { held with filters := ?_ }
    rw [List.flatMap_append]
    exact carries_append held.filters (single (carries_words sound passes))
  | groupFilter t =>
    obtain ⟨p, sound, rfl⟩ := effect
    refine { held with groupFilters := ?_ }
    rw [List.flatMap_append]
    exact carries_append held.groupFilters (single (carries_words sound passes))
  | groupBy es =>
    obtain ⟨ts, _, rfl⟩ := effect
    exact { held with }
  | orderBy e asked =>
    obtain ⟨t, _, rfl⟩ := effect
    exact { held with }
  | compose other =>
    cases other with
    | none =>
      cases effect
      rw [QueryCall.bound, composedBound, merge_nothing]
      exact held
    | some cs =>
      obtain ⟨r, composed, rfl⟩ := effect
      exact clauses_carry_merge held (passes cs rfl r composed)
  | _ =>
    cases effect
    exact { held with }

theorem boundBy_eq_foldl (b : Bound) (cs : List QueryCall) :
    boundBy b cs = cs.foldl (fun b c => c.bound b) b := by
  induction cs generalizing b with
  | nil => rfl
  | cons c cs ih => rw [boundBy, ih, List.foldl_cons]

theorem select_carries {cs : List QueryCall} (h : QueryCarries cs) :
    Carries (selectOf cs).script (boundBy {} cs).inOrder := by
  rcases made : selectOf cs with ⟨e | q, d⟩
  · exact carries_failure e _
  · have clauses := h q (congrArg Builder.state made)
    exact query_carries clauses

theorem carries_compositional : Compositional ExprCarries CondCarries QueryCarries where
  term t := by
    apply carries_payload
    have unloaded : (ExprTree.term t).expr.script.payload = [] := payload_term t
    rw [unloaded]
    exact carries_nil
  subquery cs inner := carries_nested (select_carries inner)
  aliased e label inner := by
    have extended : Carries (e.expr.script ++ [.text (" AS " ++ label)]) (e.values ++ []) :=
      carries_append inner fun _ => rfl
    rw [List.append_nil] at extended
    exact extended
  compare := carries_compare
  member := carries_member
  memberOf column polarity cs inner :=
    carries_atom rfl (carries_lead (carries_nested (select_carries inner)))
  between := carries_between
  nullTest column polarity := carries_atom rfl (carries_leaf _ _)
  existence := carries_existence
  raw := carries_raw
  conj _ _ := carries_conj
  disj _ _ := carries_disj
  neg _ := carries_neg
  case _ := carries_case
  calls cs passes := by
    intro q state
    rw [boundBy_eq_foldl]
    exact selectOf_keeps ClausesCarry (fun b c => c.bound b) {}
      (fun c member q b held q' effect => call_carries (passes c member) held effect)
      clauses_carry_empty state

/-! Statements. -/

theorem rows_carry (r : Rows) : Carries r.script r.rows.flatten := by
  apply carries_payload
  rw [payload_rows]
  cases r.fault? with
  | some e => exact carries_failure e _
  | none =>
    have row (vs : List Value) : Carries (vs.flatMap Script.argument) vs := by
      have each : Carries (vs.flatMap Script.argument) (vs.flatMap fun v => [v]) :=
        carries_flatMap fun v _ _ => rfl
      rw [List.flatMap_singleton'] at each
      exact each
    have all : Carries (r.rows.flatMap fun vs => vs.flatMap Script.argument)
        (r.rows.flatMap fun vs => vs) := carries_flatMap fun vs _ => row vs
    rw [List.flatMap_id'] at all
    exact all

theorem rowValues_eq_flatten (c : Builder.Call Rows.Edit) :
    rowValues c = (givenRows c).flatten := by
  cases c with
  | dialect d => rfl
  | edit e =>
    cases e with
    | columns names => rfl
    | values row => exact (List.append_nil row).symm
    | valuesMany rows => rfl

theorem insertOf_rows {table : ExprTree} {cs : List (Builder.Call Rows.Edit)} {r : Rows}
    (h : (insertOf table cs).state = .ok r) : r.rows.flatten = cs.flatMap rowValues := by
  obtain ⟨-, -, rows⟩ := insertOf_content h
  rw [rows, List.flatMap_def, List.flatten_flatten, List.map_map, List.flatMap_def]
  exact congrArg List.flatten (List.map_congr_left fun c _ => (rowValues_eq_flatten c).symm)

theorem predicates_carry {ps : List Predicate} {vs : List Value}
    (h : Carries (ps.flatMap Predicate.script) vs) :
    Carries (ps.flatMap fun p => p.script.payload) vs := by
  rw [← payload_flatMap]
  exact carries_of_carries h

theorem condition_carries (t : CondTree) {p : Predicate} (sound : t.condition = .ok p) :
    Carries ([p].flatMap Predicate.script) t.values := by
  rw [List.flatMap_singleton]
  exact carries_words sound (carries_compositional.cond t)

/-- An update carries its assignments and then its filters, however the calls were mixed. -/
theorem updateOf_carries {table : ExprTree} {cs : List UpdateCall} {c : Changes}
    (h : (updateOf table cs).state = .ok c) :
    Carries (c.assignments.flatMap fun a => Changes.assignedScript a.2)
        (cs.flatMap UpdateCall.assigned) ∧
      Carries (c.filters.flatMap Predicate.script) (cs.flatMap UpdateCall.filtered) := by
  have both := updateOf_keeps
    (fun c (vs : List Value × List Value) =>
      Carries (c.assignments.flatMap fun a => Changes.assignedScript a.2) vs.1 ∧
        Carries (c.filters.flatMap Predicate.script) vs.2)
    (fun vs u => (vs.1 ++ u.assigned, vs.2 ++ u.filtered)) ([], [])
    (fun u _ c vs held c' effect => ?_) (fun _ _ => ⟨carries_nil, carries_nil⟩) h
  · have noted (us : List UpdateCall) (vs ws : List Value) :
        us.foldl (fun (vs : List Value × List Value) u => (vs.1 ++ u.assigned, vs.2 ++ u.filtered))
            (vs, ws) =
          (vs ++ us.flatMap UpdateCall.assigned, ws ++ us.flatMap UpdateCall.filtered) := by
      induction us generalizing vs ws with
      | nil => simp
      | cons u us ih => simp [ih]
    rw [noted] at both
    exact both
  · cases u with
    | dialect d =>
      cases effect
      simpa [UpdateCall.assigned, UpdateCall.filtered] using held
    | set column v =>
      cases effect
      refine ⟨?_, by simpa [UpdateCall.filtered] using held.2⟩
      rw [List.flatMap_append]
      exact carries_append held.1 fun _ => rfl
    | setRaw column sql =>
      cases effect
      refine ⟨?_, by simpa [UpdateCall.filtered] using held.2⟩
      rw [List.flatMap_append]
      exact carries_append held.1 fun _ => rfl
    | filter t =>
      obtain ⟨p, sound, rfl⟩ := effect
      constructor
      · simpa [UpdateCall.assigned] using held.1
      · rw [List.flatMap_append]
        exact carries_append held.2 (condition_carries t sound)

theorem changes_carry {c : Changes} {vs ws : List Value}
    (assignments : Carries (c.assignments.flatMap fun a => Changes.assignedScript a.2) vs)
    (filters : Carries (c.filters.flatMap Predicate.script) ws) : Carries c.script (vs ++ ws) := by
  apply carries_payload
  rw [payload_changes]
  split
  · exact carries_failure _ _
  · refine carries_append ?_ (predicates_carry filters)
    rw [← payload_flatMap (fun a : String × Assigned => Changes.assignedScript a.2)]
    exact carries_of_carries assignments

theorem deleteOf_carries {table : ExprTree} {cs : List DeleteCall} {r : Removal}
    (h : (deleteOf table cs).state = .ok r) :
    Carries (r.filters.flatMap Predicate.script) (cs.flatMap DeleteCall.filtered) := by
  rw [List.flatMap_eq_foldl (f := DeleteCall.filtered)]
  refine deleteOf_keeps (fun r vs => Carries (r.filters.flatMap Predicate.script) vs)
    (fun vs d => vs ++ d.filtered) [] (fun d _ r vs held r' effect => ?_)
    (fun _ _ => carries_nil) h
  cases d with
  | dialect d =>
    cases effect
    simpa [DeleteCall.filtered] using held
  | filter t =>
    obtain ⟨p, sound, rfl⟩ := effect
    rw [List.flatMap_append]
    exact carries_append held (condition_carries t sound)

theorem insertOf_carries (table : ExprTree) (cs : List (Builder.Call Rows.Edit)) :
    Carries (Insert.script (insertOf table cs)) (cs.flatMap rowValues) := by
  rcases made : insertOf table cs with ⟨e | r, d⟩
  · exact carries_failure e _
  · rw [← insertOf_rows (congrArg Builder.state made)]
    exact rows_carry r

theorem upserted_insert (u : Upsert) (cs : List (Builder.Call Conflict.Edit)) :
    Insert.script (cs.foldl upsertCall u).insert = Insert.script u.insert := by
  induction cs generalizing u with
  | nil => rfl
  | cons c cs ih =>
    rw [List.foldl_cons, ih]
    cases c <;> rfl

theorem statement_carries (t : StatementTree) : Carries t.statement.script t.values := by
  induction t with
  | select cs => exact select_carries (carries_compositional.query cs)
  | insert table cs => exact insertOf_carries table cs
  | update table cs =>
    change Carries (Update.script (updateOf table cs)) _
    rcases made : updateOf table cs with ⟨e | c, d⟩
    · exact carries_failure e _
    · obtain ⟨assignments, filters⟩ := updateOf_carries (congrArg Builder.state made)
      exact changes_carry assignments filters
  | delete table cs =>
    change Carries (Delete.script (deleteOf table cs)) _
    rcases made : deleteOf table cs with ⟨e | r, d⟩
    · exact carries_failure e _
    · have filters := predicates_carry (deleteOf_carries (congrArg Builder.state made))
      apply carries_payload
      change Carries r.script.payload _
      rw [payload_removal]
      exact filters
  | upsert table cs conflicts =>
    change Carries (Upsert.script _) (cs.flatMap rowValues)
    rw [Upsert.script, upserted_insert, ← List.append_nil (cs.flatMap rowValues)]
    refine carries_append (insertOf_carries table cs) ?_
    split
    · exact fun _ => arguments_conflict _
    · exact carries_failure _ _
  | returning inner columns dialects ih =>
    have suffix : Carries (Statement.returningScript columns) [] :=
      fun _ => arguments_returning columns
    change Carries (dialects.foldl _ (Statement.returning inner.statement columns none)).script _
    rw [script_withDialects]
    have both := carries_append ih suffix
    rw [List.append_nil] at both
    exact both

/-- A build that succeeds spells the rendering of the statement from the first number on. -/
theorem built_spelled {st : Statement} {d : Dialect} {b : Built} (h : st.buildWith d = .ok b) :
    st.script.failure? = none ∧ b.arguments = st.script.arguments ∧
      b.sql.toList = d.spell 1 st.script.glyphs := by
  obtain ⟨before, after, same, needless, none⟩ := failures_first st
  have run := Context.finished_run { dialect := d } before after needless none
  rw [← same] at run
  rw [Statement.buildWith, Script.build] at h
  rcases reached : Context.run { dialect := d } st.script with ⟨ctx, _ | e⟩
  · rw [reached] at h run
    cases h
    simp only [Context.finished, Script.outcome] at run
    cases failed : st.script.failure? with
    | some e => rw [failed] at run; cases run
    | none =>
      rw [failed] at run
      simp only [Except.bind, Context.accept] at run
      split at run
      · cases run
        exact ⟨rfl, List.nil_append _, by simp [Context.extended]⟩
      · cases run
  · rw [reached] at h
    cases h

theorem built_arguments {t : StatementTree} {d : Dialect} {b : Built}
    (h : t.statement.buildWith d = .ok b) : b.arguments = t.values := by
  obtain ⟨sound, arguments, -⟩ := built_spelled h
  rw [arguments]
  exact statement_carries t sound

end SqlAssembly
