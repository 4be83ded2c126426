import SqlAssembly.Query
import SqlAssembly.Script

/-! What queries write. The clauses stand in a fixed order, whatever the order of the calls. -/
namespace SqlAssembly

/-- A predicate's script, and whether it needs parentheses beside others. -/
abbrev Operand := Bool × Script

def Operand.guarded : Operand → Script
  | (true, s) => Script.parenthesized s
  | (false, s) => s

/-- A single predicate needs no parentheses. Among several a disjunction does, since AND
    binds tighter than OR. -/
def filterClause (keyword : String) : List Operand → Script
  | [] => []
  | [(_, s)] => .text (" " ++ keyword ++ " ") :: s
  | many => .text (" " ++ keyword ++ " ") :: Script.separated " AND " (many.map Operand.guarded)

def Term.script : Term → Script
  | .name s => [.qualified s]
  | .raw s => [.text s]
  | .call s => [.text s]

def OrderItem.script (item : OrderItem) : Script :=
  item.key.script ++
    match item.direction with
    | some d => [.text (" " ++ d.keyword)]
    | none => []

def listClause (keyword : String) : List Script → Script
  | [] => []
  | items => .text (" " ++ keyword ++ " ") :: Script.separated ", " items

def countClause (keyword : String) : Option Nat → Script
  | none => []
  | some n => [.text (" " ++ keyword ++ " " ++ String.ofList (digits n))]

def projection : List Script → Script
  | [] => [.text "*"]
  | columns => Script.separated ", " columns

def onClause : Option (String × String) → Script
  | none => []
  | some (left, right) => [.text " ON ", .qualified left, .text " = ", .qualified right]

mutual

def Expr.script : Expr → Script
  | .term t => t.script
  | .subquery s => Script.nested (selectScript s)
  | .aliased e label => e.script ++ [.text (" AS " ++ label)]

def Part.script : Part → Script
  | .text sql values => [.fragment sql values]
  | .subquery s => Script.nested (selectScript s)

def partScripts : List Part → List Script
  | [] => []
  | p :: ps => p.script :: partScripts ps

def Predicate.operand : Predicate → Operand
  | ⟨parts, disjunction⟩ => (disjunction, (partScripts parts).flatten)

def Join.script : Join → Script
  | ⟨kind, target, on⟩ => .text (" " ++ kind.keyword ++ " ") :: target.script ++ onClause on

def exprScripts : List Expr → List Script
  | [] => []
  | e :: es => e.script :: exprScripts es

def operands : List Predicate → List Operand
  | [] => []
  | p :: ps => p.operand :: operands ps

def joinScripts : List Join → List Script
  | [] => []
  | j :: js => j.script :: joinScripts js

def sourceScript : Option Expr → Script
  | none => []
  | some e => .text " FROM " :: e.script

def Query.script : Query → Script
  | ⟨distinct, columns, source, joins, filters, groups, groupFilters, order, limit, offset⟩ =>
    .text (if distinct then "SELECT DISTINCT " else "SELECT ") ::
      (projection (exprScripts columns) ++ sourceScript source ++ (joinScripts joins).flatten ++
        filterClause "WHERE" (operands filters) ++
        listClause "GROUP BY" (groups.map Term.script) ++
        filterClause "HAVING" (operands groupFilters) ++
        listClause "ORDER BY" (order.map OrderItem.script) ++
        countClause "LIMIT" limit ++ countClause "OFFSET" offset)

def selectScript : Builder Query → Script
  | ⟨.ok q, _⟩ => q.script
  | ⟨.error e, _⟩ => [.fail e]

end

def Select.script (s : Select) : Script := selectScript s

def Predicate.script (p : Predicate) : Script := p.operand.2

def Condition.script : Condition → Script
  | .ok p => p.script
  | .error e => [.fail e]

theorem partScripts_eq_map (ps : List Part) : partScripts ps = ps.map Part.script := by
  induction ps with
  | nil => rfl
  | cons p ps ih => simp [partScripts, ih]

theorem exprScripts_eq_map (es : List Expr) : exprScripts es = es.map Expr.script := by
  induction es with
  | nil => rfl
  | cons e es ih => simp [exprScripts, ih]

theorem joinScripts_eq_map (js : List Join) : joinScripts js = js.map Join.script := by
  induction js with
  | nil => rfl
  | cons j js ih => simp [joinScripts, ih]

theorem Predicate.script_eq (p : Predicate) : p.script = p.parts.flatMap Part.script := by
  cases p
  simp only [Predicate.script, Predicate.operand, partScripts_eq_map, List.flatMap]

theorem operands_eq_map (ps : List Predicate) : operands ps = ps.map Predicate.operand := by
  induction ps with
  | nil => rfl
  | cons p ps ih => simp [operands, ih]

theorem Query.script_eq (q : Query) :
    q.script =
      .text (if q.distinct then "SELECT DISTINCT " else "SELECT ") ::
        (projection (q.columns.map Expr.script) ++ sourceScript q.source ++
          q.joins.flatMap Join.script ++
          filterClause "WHERE" (q.filters.map Predicate.operand) ++
          listClause "GROUP BY" (q.groups.map Term.script) ++
          filterClause "HAVING" (q.groupFilters.map Predicate.operand) ++
          listClause "ORDER BY" (q.order.map OrderItem.script) ++
          countClause "LIMIT" q.limit ++ countClause "OFFSET" q.offset) := by
  cases q
  simp only [Query.script, exprScripts_eq_map, joinScripts_eq_map, operands_eq_map, List.flatMap]

end SqlAssembly
