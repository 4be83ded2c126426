import SqlAssembly.Proofs.FirstFault

/-! Queries kept in pieces. Put together they are the merge of their contents, however the
   compositions are grouped, and a piece that is composed into a query does what its calls would
   have done there. -/
namespace SqlAssembly

/-- Nothing that can be asked of a query tells the two apart. -/
structure Alike (a b : Select) : Prop where
  recorded : a.error? = b.error?
  dialect : a.dialect = b.dialect
  built : ∀ d, (Statement.select a).buildWith d = (Statement.select b).buildWith d

namespace Query

/-- Any number of queries in one: the lists joined in order, the first table, the smallest limit,
    the largest offset. -/
def mergeAll (qs : List Query) : Query where
  distinct := qs.any Query.distinct
  columns := qs.flatMap Query.columns
  source := qs.findSome? Query.source
  joins := qs.flatMap Query.joins
  filters := qs.flatMap Query.filters
  groups := qs.flatMap Query.groups
  groupFilters := qs.flatMap Query.groupFilters
  order := qs.flatMap Query.order
  limit := (qs.filterMap Query.limit).min?
  offset := (qs.filterMap Query.offset).max?

theorem bound_append {pick : Nat → Nat → Nat} {bound : List Nat → Option Nat}
    (assoc : ∀ a b c, pick (pick a b) c = pick a (pick b c)) (nil : bound [] = none)
    (cons : ∀ n ns, bound (n :: ns) = mergeBound pick (some n) (bound ns)) (ms ns : List Nat) :
    bound (ms ++ ns) = mergeBound pick (bound ms) (bound ns) := by
  induction ms with
  | nil => rw [nil]; rfl
  | cons m ms ih => rw [List.cons_append, cons, cons, ih, mergeBound_assoc pick assoc]

theorem min_append (ms ns : List Nat) : (ms ++ ns).min? = mergeBound min ms.min? ns.min? := by
  refine bound_append Nat.min_assoc rfl (fun n ns => ?_) ms ns
  rw [List.min?_cons]
  cases ns.min? <;> rfl

theorem max_append (ms ns : List Nat) : (ms ++ ns).max? = mergeBound max ms.max? ns.max? := by
  refine bound_append Nat.max_assoc rfl (fun n ns => ?_) ms ns
  rw [List.max?_cons]
  cases ns.max? <;> rfl

theorem mergeAll_append (qs rs : List Query) :
    mergeAll (qs ++ rs) = (mergeAll qs).merge (mergeAll rs) := by
  simp only [mergeAll, merge, List.any_append, List.flatMap_append, List.findSome?_append,
    List.filterMap_append, min_append, max_append]

theorem mergeAll_single (q : Query) : mergeAll [q] = q := by
  rcases q with
    ⟨distinct, columns, source, joins, filters, groups, groupFilters, order, limit, offset⟩
  cases source <;> cases limit <;> cases offset <;> simp [mergeAll]

end Query

/-- One way of composing queries in a row. -/
inductive Grouping where
  | single : Select → Grouping
  | compose : Grouping → Grouping → Grouping

namespace Grouping

def row : Grouping → List Select
  | .single s => [s]
  | .compose g h => g.row ++ h.row

def composed : Grouping → Select
  | .single s => s
  | .compose g h => g.composed.compose (some h.composed)

end Grouping

theorem compose_state (a b : Select) :
    (a.compose (some b)).state = do return (← a.state).merge (← b.state) := rfl

/-- The grouping is gone: the contents of the row are merged, unless one of them is missing. -/
theorem composed_state (g : Grouping) :
    g.composed.state = (g.row.mapM Builder.state).map Query.mergeAll := by
  induction g with
  | single s =>
    rw [Grouping.composed, Grouping.row, List.mapM_cons, List.mapM_nil]
    cases s.state with
    | error e => rfl
    | ok q => exact congrArg Except.ok (Query.mergeAll_single q).symm
  | compose g h left right =>
    rw [Grouping.composed, Grouping.row, compose_state, left, right, List.mapM_append]
    cases g.row.mapM Builder.state with
    | error e => rfl
    | ok qs =>
      cases h.row.mapM Builder.state with
      | error e => rfl
      | ok rs => exact congrArg Except.ok (Query.mergeAll_append qs rs).symm

theorem row_ne_nil (g : Grouping) : g.row ≠ [] := by
  induction g with
  | single s => exact List.cons_ne_nil s []
  | compose g h left _ => exact List.append_ne_nil_of_left_ne_nil left h.row

theorem composed_dialect (g : Grouping) :
    g.composed.dialect = g.row.head?.bind Builder.dialect := by
  induction g with
  | single s => rfl
  | compose g h left _ =>
    change g.composed.dialect = _
    rw [left, Grouping.row]
    cases begun : g.row with
    | nil => exact absurd begun (row_ne_nil g)
    | cons s ss => rfl

theorem composed_error (g : Grouping) :
    g.composed.error? = g.row.findSome? Builder.error? := by
  change errorOf g.composed.state = _
  rw [composed_state, errorOf_map, errorOf_mapM]
  rfl

theorem alike_of_state {a b : Select} (state : a.state = b.state)
    (dialect : a.dialect = b.dialect) : Alike a b := by
  have same : a = b := by
    cases a
    cases b
    cases state
    cases dialect
    rfl
  rw [same]
  exact ⟨rfl, rfl, fun _ => rfl⟩

theorem script_of_state {a b : Select} (state : a.state = b.state) : a.script = b.script := by
  rcases a with ⟨content, d⟩
  rcases b with ⟨content', d'⟩
  cases state
  cases content <;> rfl

theorem mapM_of_contents {ss : List Select} {qs : List Query}
    (contents : ss.map Builder.state = qs.map .ok) : ss.mapM Builder.state = .ok qs := by
  induction ss generalizing qs with
  | nil => rw [List.map_eq_nil_iff.mp contents.symm]; rfl
  | cons s ss ih =>
    obtain ⟨q, qs, rfl, first, rest⟩ := List.map_eq_cons_iff.mp contents.symm
    rw [List.mapM_cons, ← first, ih rest.symm]
    rfl

/-- Of queries in a row it does not matter which are composed first. The first failure among them
    stays, and without one they come to what the merge rules say. The empty query adds nothing on
    either side. -/
theorem composing_merges_in_a_row :
    (∀ g h : Grouping, g.row = h.row → Alike g.composed h.composed) ∧
      (∀ g : Grouping, g.composed.error? = g.row.findSome? Builder.error? ∧
        g.composed.dialect = g.row.head?.bind Builder.dialect) ∧
      (∀ (g : Grouping) (qs : List Query), g.row.map Builder.state = qs.map .ok →
        Alike g.composed ⟨.ok (.mergeAll qs), g.row.head?.bind Builder.dialect⟩) ∧
      (∀ s : Select, s.compose none = s ∧ s.compose (some .empty) = s) ∧
      ∀ (s : Select) (d : Dialect), (Statement.select (Select.empty.compose (some s))).buildWith d =
        (Statement.select s).buildWith d := by
  refine ⟨?_, ?_, ?_, ?_, ?_⟩
  · intro g h row
    apply alike_of_state
    · rw [composed_state, composed_state, row]
    · rw [composed_dialect, composed_dialect, row]
  · intro g
    exact ⟨composed_error g, composed_dialect g⟩
  · intro g qs contents
    apply alike_of_state
    · rw [composed_state, mapM_of_contents contents]
      rfl
    · exact composed_dialect g
  · rintro ⟨state, dialect⟩
    cases state with
    | error e => exact ⟨rfl, rfl⟩
    | ok q => exact ⟨rfl, congrArg (Builder.mk · dialect) (congrArg Except.ok q.merge_empty)⟩
  · intro s d
    have same : (Select.empty.compose (some s)).state = s.state := by
      rw [compose_state]
      cases s.state with
      | error e => rfl
      | ok q => exact congrArg Except.ok q.empty_merge
    rw [Statement.buildWith, Statement.script, script_of_state same]
    rfl

/-- The second piece brings the table, and the third the smaller limit. -/
theorem three_pieces_compose_in_either_grouping :
    Alike
      (((Select.ofColumns [.term (.name "id")]).compose
        (some ([.source (.term (.name "users")), .limit 50].foldl Select.edit .empty))).compose
        (some (Select.empty.edit (.limit 20))))
      ((Select.ofColumns [.term (.name "id")]).compose
        (some (([.source (.term (.name "users")), .limit 50].foldl Select.edit .empty).compose
          (some (Select.empty.edit (.limit 20)))))) ∧
    (Statement.select (((Select.ofColumns [.term (.name "id")]).compose
        (some ([.source (.term (.name "users")), .limit 50].foldl Select.edit .empty))).compose
        (some (Select.empty.edit (.limit 20))))).buildWith .postgres =
      .ok ⟨"SELECT \"id\" FROM \"users\" LIMIT 20", []⟩ := by
  obtain ⟨regroup, -, merged, -, -⟩ := composing_merges_in_a_row
  constructor
  · exact regroup
      (.compose (.compose (.single _) (.single _)) (.single _))
      (.compose (.single _) (.compose (.single _) (.single _))) rfl
  · have contents := merged (.compose (.compose (.single (Select.ofColumns [.term (.name "id")]))
      (.single ([.source (.term (.name "users")), .limit 50].foldl Select.edit .empty)))
      (.single (Select.empty.edit (.limit 20)))) [_, _, _] rfl
    exact contents.built .postgres

/-! Fragments. -/

/-- The call does not set over what the query has set already. -/
def Query.Edit.Fits (q : Query) : Query.Edit → Prop
  | .source _ => q.source = none
  | .limit _ => q.limit = none
  | .offset _ => q.offset = none
  | _ => True

/-- The content after one call, if there was no error so far. -/
def editState (state : Except BuildError Query) (e : Query.Edit) : Except BuildError Query :=
  state.bind (Query.edit e)

theorem edits_state (es : List Query.Edit) (s : Select) :
    (es.foldl Select.edit s).state = es.foldl editState s.state := by
  induction es generalizing s with
  | nil => rfl
  | cons e es ih => exact ih (s.edit e)

theorem edits_dialect (es : List Query.Edit) (s : Select) :
    (es.foldl Select.edit s).dialect = s.dialect := by
  induction es generalizing s with
  | nil => rfl
  | cons e es ih => exact ih (s.edit e)

theorem entry_merge {α : Type} {q : Query} {enter enter' : α → Query} (x : Except BuildError α)
    (entered : ∀ a, enter' a = q.merge (enter a)) :
    (do return enter' (← x)) = Except.map q.merge (do return enter (← x)) := by
  cases x with
  | error e => rfl
  | ok a => exact congrArg Except.ok (entered a)

/-- A call on a merged query is the call on its second part. -/
theorem edit_merge {q : Query} {e : Query.Edit} (fits : e.Fits q) (r : Query) :
    Query.edit e (q.merge r) = (Query.edit e r).map q.merge := by
  cases e with
  | columns es => simp [Query.edit, Query.merge, Except.map]
  | distinct => simp [Query.edit, Query.merge, Except.map]
  | source e =>
    have unset : q.source = none := fits
    exact entry_merge (Query.table e) fun t => by simp [Query.merge, unset]
  | join kind target left right =>
    exact entry_merge (Query.table target) fun t => by simp [Query.merge]
  | filter c => exact entry_merge c fun p => by simp [Query.merge]
  | groupBy es =>
    exact entry_merge (es.mapM (Query.term .groupBy)) fun ts => by simp [Query.merge]
  | groupFilter c => exact entry_merge c fun p => by simp [Query.merge]
  | orderBy e asked => exact entry_merge (Query.term .orderBy e) fun t => by simp [Query.merge]
  | limit n =>
    have unset : q.limit = none := fits
    simp [Query.edit, Query.merge, Query.mergeBound, Except.map, unset]
  | offset n =>
    have unset : q.offset = none := fits
    simp [Query.edit, Query.merge, Query.mergeBound, Except.map, unset]
  | compose other =>
    cases other with
    | none => rfl
    | some s => exact entry_merge s.state fun p => Query.merge_assoc q r p

theorem edits_merge {q : Query} {es : List Query.Edit} (fits : ∀ e ∈ es, e.Fits q)
    (state : Except BuildError Query) :
    es.foldl editState (state.map q.merge) = (es.foldl editState state).map q.merge := by
  induction es generalizing state with
  | nil => rfl
  | cons e es ih =>
    have first : editState (state.map q.merge) e = (editState state e).map q.merge := by
      cases state with
      | error cause => rfl
      | ok r => exact edit_merge (fits e List.mem_cons_self) r
    rw [List.foldl_cons, first, ih fun e' member => fits e' (List.mem_cons_of_mem e member)]
    rfl

theorem edits_of_error (es : List Query.Edit) (cause : BuildError) :
    es.foldl editState (.error cause) = .error cause := by
  induction es with
  | nil => rfl
  | cons e es ih => exact ih

/-- A fragment that is composed into a query and the calls of the fragment made on the query itself
    come to the same, also when one of them fails. -/
theorem composed_fragment_inlines (a : Select) (es : List Query.Edit)
    (fits : ∀ q, a.state = .ok q → ∀ e ∈ es, e.Fits q) :
    Alike (a.compose (some (es.foldl Select.edit .empty))) (es.foldl Select.edit a) := by
  apply alike_of_state
  · rw [compose_state, edits_state, edits_state]
    cases content : a.state with
    | error cause => rw [edits_of_error]; rfl
    | ok q =>
      -- The calls on the empty query, merged behind `q`, are the calls on `q` merged with nothing.
      have inlined := edits_merge (fits q content) (.ok .empty)
      rw [Except.map, Query.merge_empty] at inlined
      rw [inlined]
      rfl
  · rw [edits_dialect]
    rfl

/-- The fragment sets the table and the limit that the query has left open. Where a call of the
    fragment fails, the error is that of the call. -/
theorem page_inlines :
    (Statement.select ((Select.ofColumns [.term (.name "id")]).compose (some
        ([.source (.term (.name "users")), .filter (.compare "age" .gt (.int 18)), .limit 20].foldl
          Select.edit .empty)))).buildWith .postgres =
      .ok ⟨"SELECT \"id\" FROM \"users\" WHERE age > $1 LIMIT 20", [.int 18]⟩ ∧
    ((Select.ofColumns [.term (.name "id")]).compose (some
        ([.distinct, .groupBy [.term (.name "id"), .subquery Select.empty], .limit 20].foldl
          Select.edit .empty))).error? = some (.unsupportedExpression .groupBy .subquery) := by
  constructor
  · refine ((composed_fragment_inlines _ _ ?_).built .postgres).trans ?_
    · rintro _ ⟨⟩
      simp [Query.Edit.Fits, Query.empty]
    · rfl
  · refine (composed_fragment_inlines _ _ ?_).recorded.trans ?_
    · rintro _ ⟨⟩
      simp [Query.Edit.Fits, Query.empty]
    · rfl

end SqlAssembly
