import SqlAssembly.Proofs.CallEffects
import SqlAssembly.Proofs.ConditionWords
import SqlAssembly.Proofs.Nesting

/-! The queries in a condition, read off the way it was put together. What is in a query came with
   its calls, so what the calls are given is all that an induction has to look at. -/
namespace SqlAssembly

def ExprTree.nested : ExprTree → List (List QueryCall)
  | .term _ => []
  | .subquery cs => [cs]
  | .aliased e _ => e.nested

mutual

def CondTree.nested : CondTree → List (List QueryCall)
  | .memberOf _ _ cs => [cs]
  | .existence _ e => e.nested
  | .conj a b => a.nested ++ b.nested
  | .disj a b => a.nested ++ b.nested
  | .neg a => a.nested
  | .case cs => branchNested cs
  | _ => []

def branchNested : List CaseCall → List (List QueryCall)
  | [] => []
  | c :: cs => c.nested ++ branchNested cs

def CaseCall.nested : CaseCall → List (List QueryCall)
  | .when t _ => t.nested
  | .otherwise _ => []

end

def Part.nested : Part → List Select
  | .text _ _ => []
  | .subquery s => [s]

def Predicate.nested (p : Predicate) : List Select := p.parts.flatMap Part.nested

/-- The parts hold these queries, in this order. -/
def Hold (parts : List Part) (trees : List (List QueryCall)) : Prop :=
  parts.flatMap Part.nested = trees.map selectOf

theorem nested_glue (ps qs : List Part) :
    (Part.glue ps qs).flatMap Part.nested =
      ps.flatMap Part.nested ++ qs.flatMap Part.nested := by
  induction ps with
  | nil => rfl
  | cons p ps ih =>
    cases ps with
    | cons r ps =>
      rw [Part.glue_cons_cons, List.flatMap_cons, ih, ← List.append_assoc]
      rfl
    | nil =>
      cases p with
      | subquery s => rw [Part.glue_subquery, List.flatMap_cons, ih]; rfl
      | text sql values =>
        cases qs with
        | nil => rfl
        | cons q qs => cases q <;> rfl

theorem nested_glueAll (pss : List (List Part)) :
    (Part.glueAll pss).flatMap Part.nested = pss.flatMap fun ps => ps.flatMap Part.nested := by
  induction pss with
  | nil => rfl
  | cons ps pss ih =>
    rw [List.flatMap_cons, ← ih]
    exact nested_glue ps (Part.glueAll pss)

theorem hold_wrapped {p : Predicate} {trees : List (List QueryCall)} (h : Hold p.parts trees) :
    Hold p.wrapped trees := by
  unfold Hold at h ⊢
  rw [Predicate.wrapped, nested_glueAll, ← h]
  exact List.append_nil _

theorem hold_guarded {p : Predicate} {trees : List (List QueryCall)} (h : Hold p.parts trees) :
    Hold p.guarded trees := by
  unfold Predicate.guarded
  split
  · exact hold_wrapped h
  · exact h

theorem hold_between {ps qs : List Part} {left right : List (List QueryCall)} (sql : String)
    (hp : Hold ps left) (hq : Hold qs right) :
    Hold (Part.glueAll [ps, Part.plain sql, qs]) (left ++ right) := by
  unfold Hold at hp hq ⊢
  rw [nested_glueAll, List.map_append, ← hp, ← hq]
  exact congrArg _ (List.append_nil _)

theorem hold_leaf {sql : String} {values : List Value} {p : Predicate}
    (sound : Condition.leaf sql values = .ok p) : Hold p.parts [] := by
  cases sound
  rfl

theorem hold_atom {t : CondTree} (atom : t.isAtom = true) {p : Predicate}
    (sound : t.condition = .ok p) : Hold p.parts t.nested := by
  cases t with
  | compare column op value =>
    simp only [CondTree.condition, Condition.compare, Condition.nullTest] at sound
    split at sound
    · split at sound
      · exact hold_leaf sound
      · exact hold_leaf sound
      · cases sound
    · exact hold_leaf sound
  | member column polarity values =>
    simp only [CondTree.condition, Condition.member] at sound
    split at sound
    · cases sound
    · split at sound
      · cases sound
      · exact hold_leaf sound
  | memberOf column polarity cs => cases sound; rfl
  | between column polarity low high =>
    simp only [CondTree.condition, Condition.between] at sound
    split at sound
    · cases sound
    · exact hold_leaf sound
  | nullTest column polarity => exact hold_leaf sound
  | existence polarity e =>
    cases e with
    | subquery cs => cases sound; rfl
    | aliased e label => cases sound
    | term t =>
      cases t with
      | raw sql => exact hold_leaf sound
      | _ => cases sound
  | raw sql values =>
    simp only [CondTree.condition, Condition.raw] at sound
    split at sound
    · exact hold_leaf sound
    · cases sound
  | conj a b => cases atom
  | disj a b => cases atom
  | neg a => cases atom
  | case cs => cases atom

theorem hold_branches {cs : List CaseCall}
    (each : ∀ t v, CaseCall.when t v ∈ cs → ∀ p, t.condition = .ok p → Hold p.parts t.nested)
    {parts : List Part}
    (sound : CaseExpr.branchParts (cs.flatMap CaseCall.branch) = .ok parts) :
    Hold parts (branchNested cs) := by
  induction cs generalizing parts with
  | nil => cases sound; rfl
  | cons c cs ih =>
    have rest := fun t v member => each t v (List.mem_cons_of_mem c member)
    cases c with
    | otherwise v => exact ih rest sound
    | when t v =>
      obtain ⟨p, later, branch, others, rfl⟩ := branchParts_cons_eq_ok sound
      have first : Hold p.parts t.nested := each t v List.mem_cons_self p branch
      have second := ih rest others
      unfold Hold at first second ⊢
      rw [nested_glueAll, branchNested, CaseCall.nested, List.map_append, ← first, ← second]
      exact congrArg _ (List.append_nil _)

/-- A condition holds the queries of its tests, in the order in which it was put together. -/
theorem hold_condition (t : CondTree) :
    ∀ p, t.condition = .ok p → Hold p.parts t.nested := by
  induction t using tree_induction with
  | atom t atom => exact fun p sound => hold_atom atom sound
  | conj a b left right =>
    intro p sound
    obtain ⟨q, r, hq, hr, rfl⟩ := conj_eq_ok sound
    rw [CondTree.nested]
    exact hold_between " AND " (hold_guarded (left q hq)) (hold_guarded (right r hr))
  | disj a b left right =>
    intro p sound
    obtain ⟨q, r, hq, hr, rfl⟩ := disj_eq_ok sound
    rw [CondTree.nested]
    exact hold_between " OR " (hold_wrapped (left q hq)) (hold_wrapped (right r hr))
  | neg a operand =>
    intro p sound
    obtain ⟨q, hq, rfl⟩ := neg_eq_ok sound
    rw [CondTree.nested]
    have inner := hold_wrapped (operand q hq)
    unfold Hold at inner ⊢
    rw [Predicate.neg, Predicate.leaf, nested_glueAll, ← inner]
    exact List.append_nil _
  | case cs branches =>
    intro p sound
    obtain ⟨parts, made, rfl⟩ := case_eq_ok sound
    have inner := hold_branches branches made
    have fallback (v : Option Value) : (CaseExpr.fallbackParts v).flatMap Part.nested = [] := by
      cases v <;> rfl
    unfold Hold at inner ⊢
    rw [Predicate.leaf, nested_glueAll, CondTree.nested, ← inner]
    simp only [List.flatMap_cons, List.flatMap_nil, fallback]
    exact List.append_nil _

theorem nested_made {t : CondTree} {p : Predicate} (sound : t.condition = .ok p) {s : Select}
    (inside : Part.subquery s ∈ p.parts) : ∃ cs ∈ t.nested, selectOf cs = s := by
  have held : p.parts.flatMap Part.nested = t.nested.map selectOf := hold_condition t p sound
  apply List.mem_map.mp
  rw [← held]
  exact List.mem_flatMap.mpr ⟨_, inside, List.mem_singleton_self s⟩

/-! Induction over the queries that calls can make. -/

/-- All that a condition passes on is what holds of the queries in it. -/
theorem compositional_of_nested {E : ExprTree → Prop} {Q : List QueryCall → Prop}
    (term : ∀ t, E (.term t)) (subquery : ∀ cs, Q cs → E (.subquery cs))
    (aliased : ∀ e label, E e → E (.aliased e label))
    (calls : ∀ cs, (∀ c ∈ cs, QueryCall.Passes (fun e => E e ∧ ∀ ds ∈ e.nested, Q ds)
      (fun t => ∀ ds ∈ t.nested, Q ds) Q c) → Q cs) :
    Compositional (fun e => E e ∧ ∀ cs ∈ e.nested, Q cs) (fun t => ∀ cs ∈ t.nested, Q cs) Q where
  term t := ⟨term t, by simp [ExprTree.nested]⟩
  subquery cs inner := ⟨subquery cs inner, by simpa [ExprTree.nested] using inner⟩
  aliased e label inner := ⟨aliased e label inner.1, inner.2⟩
  compare _ _ _ := by simp [CondTree.nested]
  member _ _ _ := by simp [CondTree.nested]
  memberOf _ _ cs inner := by simpa [CondTree.nested] using inner
  between _ _ _ _ := by simp [CondTree.nested]
  nullTest _ _ := by simp [CondTree.nested]
  existence _ e inner := by
    rw [CondTree.nested]
    exact inner.2
  raw _ _ := by simp [CondTree.nested]
  conj a b left right := by
    rw [CondTree.nested]
    exact List.forall_mem_append.mpr ⟨left, right⟩
  disj a b left right := by
    rw [CondTree.nested]
    exact List.forall_mem_append.mpr ⟨left, right⟩
  neg a inner := by
    rw [CondTree.nested]
    exact inner
  case cs branches := by
    rw [CondTree.nested]
    induction cs with
    | nil => simp [branchNested]
    | cons c cs ih =>
      have rest := ih fun t v member => branches t v (List.mem_cons_of_mem c member)
      rw [branchNested]
      cases c with
      | when t v => exact List.forall_mem_append.mpr ⟨branches t v List.mem_cons_self, rest⟩
      | otherwise v => exact rest
  calls := calls

/-- What passes from the clauses of a query to the query, and holds of every failed query that calls
    have made. -/
structure Inherited (E : Expr → Prop) (S : Select → Prop) : Prop where
  term : ∀ t, E (.term t)
  subquery : ∀ s, S s → E (.subquery s)
  aliased : ∀ e label, E e → E (.aliased e label)
  failed : ∀ cs e, (selectOf cs).state = .error e → S (selectOf cs)
  query : ∀ q d, Clausewise E S q → S ⟨.ok q, d⟩

namespace Inherited

variable {E : Expr → Prop} {S : Select → Prop}

abbrev QueryHolds (E : Expr → Prop) (S : Select → Prop) (cs : List QueryCall) : Prop :=
  S (selectOf cs) ∧ ∀ q, (selectOf cs).state = .ok q → Clausewise E S q

abbrev ExprHolds (E : Expr → Prop) (S : Select → Prop) (e : ExprTree) : Prop :=
  E e.expr ∧ ∀ cs ∈ e.nested, QueryHolds E S cs

abbrev CondHolds (E : Expr → Prop) (S : Select → Prop) (t : CondTree) : Prop :=
  ∀ cs ∈ t.nested, QueryHolds E S cs

theorem exprs_hold {es : List ExprTree} (each : ∀ e ∈ es, ExprHolds E S e) :
    ∀ e ∈ exprsOf es, E e := by
  rw [exprsOf_eq_map]
  intro e member
  obtain ⟨tree, inside, rfl⟩ := List.mem_map.mp member
  exact (each tree inside).1

theorem filters_hold {ps : List Predicate} (held : Nested S ps) {t : CondTree}
    (holds : CondHolds E S t) {p : Predicate} (sound : t.condition = .ok p) :
    Nested S (ps ++ [p]) := by
  intro r member s inside
  rcases List.mem_append.mp member with before | last
  · exact held r before s inside
  · cases List.mem_singleton.mp last
    obtain ⟨cs, nested, rfl⟩ := nested_made sound inside
    exact (holds cs nested).1

theorem call_holds {c : QueryCall} (passes : c.Passes (ExprHolds E S) (CondHolds E S)
    (QueryHolds E S)) {q q' : Query} (held : Clausewise E S q) (effect : c.Effect q q') :
    Clausewise E S q' := by
  cases c with
  | columns es =>
    cases effect
    exact { held with columns := List.forall_mem_append.mpr ⟨held.columns, exprs_hold passes⟩ }
  | source e =>
    cases effect
    exact { held with source := by rintro _ ⟨⟩; exact passes.1 }
  | join kind target left right =>
    cases effect
    have last : E (Query.joined kind target.expr left right).target := passes.1
    exact { held with joins := forall_mem_concat held.joins last }
  | filter t =>
    obtain ⟨p, sound, rfl⟩ := effect
    exact { held with filters := filters_hold held.filters passes sound }
  | groupFilter t =>
    obtain ⟨p, sound, rfl⟩ := effect
    exact { held with groupFilters := filters_hold held.groupFilters passes sound }
  | compose other =>
    cases other with
    | none => cases effect; exact held
    | some cs =>
      obtain ⟨r, composed, rfl⟩ := effect
      have inner := (passes cs rfl).2 r composed
      refine ⟨List.forall_mem_append.mpr ⟨held.columns, inner.columns⟩, ?_,
        List.forall_mem_append.mpr ⟨held.joins, inner.joins⟩,
        List.forall_mem_append.mpr ⟨held.filters, inner.filters⟩,
        List.forall_mem_append.mpr ⟨held.groupFilters, inner.groupFilters⟩⟩
      intro e table
      rcases Option.or_eq_some_iff.mp table with own | ⟨-, other⟩
      · exact held.source e own
      · exact inner.source e other
  | groupBy es => obtain ⟨ts, -, rfl⟩ := effect; exact { held with }
  | orderBy e asked => obtain ⟨t, -, rfl⟩ := effect; exact { held with }
  | _ => cases effect; exact { held with }

theorem compositional (h : Inherited E S) :
    Compositional (ExprHolds E S) (CondHolds E S) (QueryHolds E S) := by
  refine compositional_of_nested h.term (fun cs inner => h.subquery _ inner.1)
    (fun e label inner => h.aliased _ label inner) fun cs passes => ?_
  have clauses : ∀ q, (selectOf cs).state = .ok q → Clausewise E S q := by
    intro q state
    -- What every call keeps is about the clauses only; the query as a whole follows at the end.
    refine selectOf_invariant
      (fun c member q held q' effect => call_holds (passes c member) held effect) ?_ state
    exact ⟨by simp [Query.empty], by simp [Query.empty], by simp [Query.empty],
      by simp [Query.empty, Nested], by simp [Query.empty, Nested]⟩
  refine ⟨?_, clauses⟩
  cases made : selectOf cs with
  | mk state d =>
    cases state with
    | error e => rw [← made]; exact h.failed cs e (by rw [made])
    | ok q => exact h.query q d (clauses q (by rw [made]))

theorem select (h : Inherited E S) (cs : List QueryCall) : S (selectOf cs) :=
  (h.compositional.query cs).1

theorem predicate (h : Inherited E S) {t : CondTree} {p : Predicate} (sound : t.condition = .ok p)
    {s : Select} (inside : Part.subquery s ∈ p.parts) : S s := by
  obtain ⟨cs, nested, rfl⟩ := nested_made sound inside
  exact h.select cs

end Inherited

end SqlAssembly
