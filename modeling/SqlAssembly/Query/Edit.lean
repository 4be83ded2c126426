import SqlAssembly.Query.Merge

/-! Building queries, call by call. -/
namespace SqlAssembly

namespace Query

inductive Edit where
  | columns : List Expr → Edit
  | distinct : Edit
  | source : Expr → Edit
  | join (kind : JoinKind) (target : Expr) (left right : String) : Edit
  | filter : Condition → Edit
  | groupBy : List Expr → Edit
  | groupFilter : Condition → Edit
  | orderBy : Expr → Option Direction → Edit
  | limit : Nat → Edit
  | offset : Nat → Edit
  | compose : Option Select → Edit

def term (clause : StrictClause) : Expr → Except BuildError Term
  | .term t => .ok t
  | e => .error (.unsupportedExpression clause e.kind)

def table (e : Expr) : Except BuildError Expr := if e.isBlank then .error .emptyTable else .ok e

/-- A cross join has nothing to compare, so the two columns are dropped. -/
def joined (kind : JoinKind) (target : Expr) (left right : String) : Join :=
  ⟨kind, target, if kind = .cross then none else some (left, right)⟩

/-- A direction asked for by the call wins over one found in the text. -/
def orderItem (t : Term) (asked : Option Direction) : OrderItem :=
  let item := OrderItem.ofTerm t
  { item with direction := asked.or item.direction }

def edit (e : Edit) (q : Query) : Except BuildError Query :=
  match e with
  | .columns es => .ok { q with columns := q.columns ++ es }
  | .distinct => .ok { q with distinct := true }
  | .source e => do return { q with source := some (← table e) }
  | .join kind target left right => do
    return { q with joins := q.joins ++ [joined kind (← table target) left right] }
  | .filter c => do return { q with filters := q.filters ++ [← c] }
  | .groupBy es => do return { q with groups := q.groups ++ (← es.mapM (term .groupBy)) }
  | .groupFilter c => do return { q with groupFilters := q.groupFilters ++ [← c] }
  | .orderBy e asked => do
    return { q with order := q.order ++ [orderItem (← term .orderBy e) asked] }
  | .limit n => .ok { q with limit := some n }
  | .offset n => .ok { q with offset := some n }
  | .compose none => .ok q
  | .compose (some other) => do return q.merge (← other.state)

end Query

namespace Select

def empty : Select := { state := .ok .empty }

def edit (s : Select) (e : Query.Edit) : Select := Builder.edit Query.edit s e

/-- The other query's dialect is not taken over. -/
def compose (s : Select) (other : Option Select) : Select := s.edit (.compose other)

def ofColumns (es : List Expr) : Select := empty.edit (.columns es)

end Select

end SqlAssembly
