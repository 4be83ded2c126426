import Mathlib.Data.List.Induction
import SqlAssembly.Proofs.Construction

/-! What a call on a statement does when it succeeds, and what a whole run of calls keeps. -/
namespace SqlAssembly

/-- From a the call leads to a'. -/
def Builder.Call.Effect {α ε : Type} (apply : ε → α → Except BuildError α) (a a' : α) :
    Builder.Call ε → Prop
  | .edit e => apply e a = .ok a'
  | .dialect _ => a' = a

/-- From q the call leads to q'. -/
def QueryCall.Effect (q q' : Query) : QueryCall → Prop
  | .columns es => q' = { q with columns := q.columns ++ exprsOf es }
  | .distinct => q' = { q with distinct := true }
  | .source e => q' = { q with source := some e.expr }
  | .join kind target left right =>
    q' = { q with joins := q.joins ++ [Query.joined kind target.expr left right] }
  | .filter t => ∃ p, t.condition = .ok p ∧ q' = { q with filters := q.filters ++ [p] }
  | .groupBy es => ∃ ts, exprsOf es = ts.map Expr.term ∧ q' = { q with groups := q.groups ++ ts }
  | .groupFilter t =>
    ∃ p, t.condition = .ok p ∧ q' = { q with groupFilters := q.groupFilters ++ [p] }
  | .orderBy e asked =>
    ∃ t, e.expr = .term t ∧ q' = { q with order := q.order ++ [Query.orderItem t asked] }
  | .limit n => q' = { q with limit := some n }
  | .offset n => q' = { q with offset := some n }
  | .compose none => q' = q
  | .compose (some cs) => ∃ r, (selectOf cs).state = .ok r ∧ q' = q.merge r
  | .dialect _ => q' = q

theorem term_eq_ok {clause : StrictClause} {e : Expr} {t : Term}
    (h : Query.term clause e = .ok t) : e = .term t := by
  cases e with
  | term s => cases h; rfl
  | _ => cases h

theorem terms_eq_ok {clause : StrictClause} {es : List Expr} {ts : List Term}
    (h : es.mapM (Query.term clause) = .ok ts) : es = ts.map Expr.term := by
  induction es generalizing ts with
  | nil => cases h; rfl
  | cons e es ih =>
    rw [List.mapM_cons] at h
    cases first : Query.term clause e with
    | error cause => rw [first] at h; cases h
    | ok t =>
      cases later : es.mapM (Query.term clause) with
      | error cause => rw [first, later] at h; cases h
      | ok us =>
        rw [first, later] at h
        cases h
        rw [List.map_cons, ← ih later, term_eq_ok first]

theorem bind_eq_ok {α β : Type} {x : Except BuildError α} {f : α → Except BuildError β} {b : β}
    (h : x.bind f = .ok b) : ∃ a, x = .ok a ∧ f a = .ok b := by
  cases x with
  | error e => cases h
  | ok a => exact ⟨a, rfl, h⟩

theorem map_eq_ok {α β : Type} {x : Except BuildError α} {f : α → β} {b : β}
    (h : x.map f = .ok b) : ∃ a, x = .ok a ∧ f a = b := by
  cases x with
  | error e => cases h
  | ok a => cases h; exact ⟨a, rfl, rfl⟩

/-- A list stays clear of what one more item does not bring in. -/
theorem forall_mem_concat {α : Type} {P : α → Prop} {xs : List α} {y : α} (held : ∀ x ∈ xs, P x)
    (last : P y) : ∀ x ∈ xs ++ [y], P x :=
  List.forall_mem_append.mpr ⟨held, List.forall_mem_singleton.mpr last⟩

theorem table_eq_ok {e e' : Expr} (h : Query.table e = .ok e') : e' = e := by
  unfold Query.table at h
  split at h
  · cases h
  · cases h; rfl

/-- No call succeeds on a failed builder. -/
theorem call_state_eq_ok {α ε : Type} {apply : ε → α → Except BuildError α} {b : Builder α}
    {c : Builder.Call ε} {a' : α} (h : (Builder.call apply b c).state = .ok a') :
    ∃ a, b.state = .ok a ∧ c.Effect apply a a' := by
  cases c with
  | edit e => exact bind_eq_ok h
  | dialect d => exact ⟨a', h, rfl⟩

/-- A relation between the content and notes taken call by call holds at the end of a run. -/
theorem calls_keep {α ε κ γ : Type} {apply : ε → α → Except BuildError α}
    {call : κ → Builder.Call ε} (R : α → γ → Prop) (note : γ → κ → γ) {cs : List κ}
    (step : ∀ c ∈ cs, ∀ a g, R a g → ∀ a', (call c).Effect apply a a' → R a' (note g c))
    {b : Builder α} {g : γ} (start : ∀ a, b.state = .ok a → R a g) :
    ∀ a, (b.calls apply (cs.map call)).state = .ok a → R a (cs.foldl note g) := by
  induction cs generalizing b g with
  | nil => exact start
  | cons c cs ih =>
    have later := fun d member => step d (List.mem_cons_of_mem c member)
    apply ih later
    intro a' reached
    obtain ⟨a, state, effect⟩ := call_state_eq_ok reached
    exact step c List.mem_cons_self a g (start a state) a' effect

theorem query_effect {c : QueryCall} {q q' : Query} (h : c.call.Effect Query.edit q q') :
    c.Effect q q' := by
  cases c with
  | dialect d => exact h
  | compose other =>
    cases other with
    | none => cases h; rfl
    | some cs =>
      obtain ⟨r, composed, rest⟩ := bind_eq_ok h
      cases rest
      exact ⟨r, composed, rfl⟩
  | source e =>
    obtain ⟨table, checked, rest⟩ := bind_eq_ok h
    cases table_eq_ok checked
    cases rest
    rfl
  | join kind target left right =>
    obtain ⟨table, checked, rest⟩ := bind_eq_ok h
    cases table_eq_ok checked
    cases rest
    rfl
  | filter t =>
    obtain ⟨p, sound, rest⟩ := bind_eq_ok h
    cases rest
    exact ⟨p, sound, rfl⟩
  | groupFilter t =>
    obtain ⟨p, sound, rest⟩ := bind_eq_ok h
    cases rest
    exact ⟨p, sound, rfl⟩
  | groupBy es =>
    obtain ⟨ts, sound, rest⟩ := bind_eq_ok h
    cases rest
    exact ⟨ts, terms_eq_ok sound, rfl⟩
  | orderBy e asked =>
    obtain ⟨t, sound, rest⟩ := bind_eq_ok h
    cases rest
    exact ⟨t, term_eq_ok sound, rfl⟩
  | _ => cases h; rfl

theorem selectOf_keeps {γ : Type} (R : Query → γ → Prop) (note : γ → QueryCall → γ) (g : γ)
    {cs : List QueryCall}
    (step : ∀ c ∈ cs, ∀ q g, R q g → ∀ q', c.Effect q q' → R q' (note g c))
    (start : R .empty g) {q : Query} (h : (selectOf cs).state = .ok q) : R q (cs.foldl note g) := by
  rw [selectOf, queryCalls_eq_map] at h
  refine calls_keep R note (fun c member q g held q' effect => ?_) ?_ q h
  · exact step c member q g held q' (query_effect effect)
  · rintro _ ⟨⟩
    exact start

theorem selectOf_invariant {I : Query → Prop} {cs : List QueryCall}
    (step : ∀ c ∈ cs, ∀ q, I q → ∀ q', c.Effect q q' → I q') (start : I .empty) {q : Query}
    (h : (selectOf cs).state = .ok q) : I q :=
  selectOf_keeps (fun q (_ : Unit) => I q) (fun _ _ => ()) ()
    (fun c member q _ => step c member q) start h

/-- From c the call leads to c'. -/
def UpdateCall.Effect (c c' : Changes) : UpdateCall → Prop
  | .set column v => c' = { c with assignments := c.assignments ++ [(column, .value v)] }
  | .setRaw column sql => c' = { c with assignments := c.assignments ++ [(column, .raw sql)] }
  | .filter t => ∃ p, t.condition = .ok p ∧ c' = { c with filters := c.filters ++ [p] }
  | .dialect _ => c' = c

theorem update_effect {u : UpdateCall} {c c' : Changes} (h : u.call.Effect Changes.edit c c') :
    u.Effect c c' := by
  cases u with
  | filter t =>
    obtain ⟨p, sound, rest⟩ := bind_eq_ok h
    cases rest
    exact ⟨p, sound, rfl⟩
  | _ => cases h; rfl

theorem mutationTable_eq_ok {clause : StrictClause} {e : Expr} {t : Term}
    (h : mutationTable clause e = .ok t) : e = .term t := by
  unfold mutationTable at h
  split at h
  · cases h
  · split at h
    · cases h
    · cases h; rfl
  · cases h

theorem updateOf_keeps {γ : Type} (R : Changes → γ → Prop) (note : γ → UpdateCall → γ) (g : γ)
    {table : ExprTree} {cs : List UpdateCall}
    (step : ∀ c ∈ cs, ∀ a g, R a g → ∀ a', c.Effect a a' → R a' (note g c))
    (start : ∀ t, table.expr = .term t → R { table := t } g) {c : Changes}
    (h : (updateOf table cs).state = .ok c) : R c (cs.foldl note g) := by
  refine calls_keep R note (fun c member q g held q' effect => ?_) ?_ c h
  · exact step c member q g held q' (update_effect effect)
  · intro a begun
    obtain ⟨t, checked, rfl⟩ := map_eq_ok begun
    exact start t (mutationTable_eq_ok checked)

theorem updateOf_invariant {I : Changes → Prop} {table : ExprTree} {cs : List UpdateCall}
    (step : ∀ u ∈ cs, ∀ c, I c → ∀ c', u.Effect c c' → I c')
    (start : ∀ t, table.expr = .term t → I { table := t }) {c : Changes}
    (h : (updateOf table cs).state = .ok c) : I c :=
  updateOf_keeps (fun c (_ : Unit) => I c) (fun _ _ => ()) ()
    (fun u member c _ => step u member c) start h

/-- From r the call leads to r'. -/
def DeleteCall.Effect (r r' : Removal) : DeleteCall → Prop
  | .filter t => ∃ p, t.condition = .ok p ∧ r' = { r with filters := r.filters ++ [p] }
  | .dialect _ => r' = r

theorem delete_effect {d : DeleteCall} {r r' : Removal} (h : d.call.Effect Removal.edit r r') :
    d.Effect r r' := by
  cases d with
  | dialect d => exact h
  | filter t =>
    obtain ⟨p, sound, rest⟩ := bind_eq_ok h
    cases rest
    exact ⟨p, sound, rfl⟩

theorem deleteOf_keeps {γ : Type} (R : Removal → γ → Prop) (note : γ → DeleteCall → γ) (g : γ)
    {table : ExprTree} {cs : List DeleteCall}
    (step : ∀ c ∈ cs, ∀ a g, R a g → ∀ a', c.Effect a a' → R a' (note g c))
    (start : ∀ t, table.expr = .term t → R { table := t } g) {r : Removal}
    (h : (deleteOf table cs).state = .ok r) : R r (cs.foldl note g) := by
  refine calls_keep R note (fun c member q g held q' effect => ?_) ?_ r h
  · exact step c member q g held q' (delete_effect effect)
  · intro a begun
    obtain ⟨t, checked, rfl⟩ := map_eq_ok begun
    exact start t (mutationTable_eq_ok checked)

theorem deleteOf_invariant {I : Removal → Prop} {table : ExprTree} {cs : List DeleteCall}
    (step : ∀ d ∈ cs, ∀ r, I r → ∀ r', d.Effect r r' → I r')
    (start : ∀ t, table.expr = .term t → I { table := t }) {r : Removal}
    (h : (deleteOf table cs).state = .ok r) : I r :=
  deleteOf_keeps (fun r (_ : Unit) => I r) (fun _ _ => ()) ()
    (fun d member r _ => step d member r) start h

/-! Calls on an insert cannot fail. -/

def givenColumns? : Builder.Call Rows.Edit → Option (List String)
  | .edit (.columns names) => some names
  | _ => none

def givenRows : Builder.Call Rows.Edit → List (List Value)
  | .edit (.values row) => [row]
  | .edit (.valuesMany rows) => rows
  | _ => []

def lastColumns (cs : List (Builder.Call Rows.Edit)) : List String :=
  (cs.reverse.findSome? givenColumns?).getD []

/-- The content is that of the last column list and of all rows in order. -/
theorem insertOf_content {table : ExprTree} {cs : List (Builder.Call Rows.Edit)} {r : Rows}
    (h : (insertOf table cs).state = .ok r) :
    table.expr = .term r.table ∧ r.columns = lastColumns cs ∧ r.rows = cs.flatMap givenRows := by
  induction cs using List.reverseRecOn generalizing r with
  | nil =>
    obtain ⟨t, checked, rfl⟩ := map_eq_ok h
    exact ⟨mutationTable_eq_ok checked, rfl, rfl⟩
  | append_singleton cs c ih =>
    rw [insertOf, Builder.calls_append] at h
    obtain ⟨before, state, effect⟩ := call_state_eq_ok h
    obtain ⟨term, columns, rows⟩ := ih state
    rw [List.flatMap_append, ← rows, lastColumns, List.reverse_append]
    cases c with
    | dialect d =>
      cases effect
      exact ⟨term, columns, (List.append_nil _).symm⟩
    | edit e =>
      cases e with
      | columns names =>
        cases effect
        exact ⟨term, rfl, (List.append_nil _).symm⟩
      | values row =>
        cases effect
        exact ⟨term, columns, rfl⟩
      | valuesMany more =>
        cases effect
        exact ⟨term, columns, by simp [givenRows]⟩

end SqlAssembly
