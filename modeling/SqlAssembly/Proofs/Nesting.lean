import SqlAssembly.Query

/-! Induction over nested queries: what passes from the clauses of a query to the query itself
   holds of every query, however deep the nesting. -/
namespace SqlAssembly

/-- The queries that stand in the conditions of a clause. -/
def Nested (S : Select → Prop) (ps : List Predicate) : Prop :=
  ∀ p ∈ ps, ∀ s, Part.subquery s ∈ p.parts → S s

structure Clausewise (E : Expr → Prop) (S : Select → Prop) (q : Query) : Prop where
  columns : ∀ e ∈ q.columns, E e
  source : ∀ e, q.source = some e → E e
  joins : ∀ j ∈ q.joins, E j.target
  filters : Nested S q.filters
  groupFilters : Nested S q.groupFilters

structure Hereditary (E : Expr → Prop) (S : Select → Prop) : Prop where
  term : ∀ t, E (.term t)
  subquery : ∀ s, S s → E (.subquery s)
  aliased : ∀ e label, E e → E (.aliased e label)
  failed : ∀ e d, S ⟨.error e, d⟩
  query : ∀ q d, Clausewise E S q → S ⟨.ok q, d⟩

namespace Hereditary

variable {E : Expr → Prop} {S : Select → Prop}

mutual

theorem expr (h : Hereditary E S) : ∀ e, E e
  | .term t => h.term t
  | .subquery s => h.subquery s (h.select s)
  | .aliased e label => h.aliased e label (h.expr e)

theorem exprs (h : Hereditary E S) : ∀ es : List Expr, ∀ e ∈ es, E e
  | [] => by simp
  | e :: es => List.forall_mem_cons.mpr ⟨h.expr e, h.exprs es⟩

theorem table (h : Hereditary E S) : ∀ o : Option Expr, ∀ e, o = some e → E e
  | none => by simp
  | some e => by rintro _ ⟨⟩; exact h.expr e

theorem join (h : Hereditary E S) : ∀ j : Join, E j.target
  | ⟨_, target, _⟩ => h.expr target

theorem joins (h : Hereditary E S) : ∀ js : List Join, ∀ j ∈ js, E j.target
  | [] => by simp
  | j :: js => List.forall_mem_cons.mpr ⟨h.join j, h.joins js⟩

theorem part (h : Hereditary E S) : ∀ p : Part, ∀ s, Part.subquery s = p → S s
  | .text _ _ => by simp
  | .subquery s => by rintro _ ⟨⟩; exact h.select s

theorem parts (h : Hereditary E S) : ∀ ps : List Part, ∀ s, Part.subquery s ∈ ps → S s
  | [] => by simp
  | p :: ps => by
    intro s member
    rcases List.mem_cons.mp member with first | later
    · exact h.part p s first
    · exact h.parts ps s later

theorem predicate (h : Hereditary E S) : ∀ p : Predicate, ∀ s, Part.subquery s ∈ p.parts → S s
  | ⟨parts, _⟩ => h.parts parts

theorem predicates (h : Hereditary E S) : ∀ ps : List Predicate, Nested S ps
  | [] => by simp [Nested]
  | p :: ps => List.forall_mem_cons.mpr ⟨h.predicate p, h.predicates ps⟩

theorem clauses (h : Hereditary E S) : ∀ q : Query, Clausewise E S q
  | ⟨_, columns, source, joins, filters, _, groupFilters, _, _, _⟩ =>
    ⟨h.exprs columns, h.table source, h.joins joins, h.predicates filters,
      h.predicates groupFilters⟩

theorem select (h : Hereditary E S) : ∀ s : Select, S s
  | ⟨.error e, d⟩ => h.failed e d
  | ⟨.ok q, d⟩ => h.query q d (h.clauses q)

end

end Hereditary

end SqlAssembly
