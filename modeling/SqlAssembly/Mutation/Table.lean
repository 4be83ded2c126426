import SqlAssembly.Query.Script

/-! What INSERT, UPDATE and DELETE share: their table and their filters. -/
namespace SqlAssembly

/-- The table of a mutation is a name or a raw text, and not blank. -/
def mutationTable (clause : StrictClause) : Expr → Except BuildError Term
  | .term (.call s) => .error (.unsupportedExpression clause (Term.call s).kind)
  | .term t => if blankText t.text then .error .emptyTable else .ok t
  | e => .error (.unsupportedExpression clause e.kind)

def whereClause (filters : List Predicate) : Script := filterClause "WHERE" (operands filters)

end SqlAssembly
