import SqlAssembly.Dialect

/-! Everything that can be wrong with a statement, as causes; the wording is one function. -/
namespace SqlAssembly

inductive Comparison where
  | eq : Comparison
  | ne : Comparison
  | gt : Comparison
  | ge : Comparison
  | lt : Comparison
  | le : Comparison
  | like : Comparison
  | notLike : Comparison
  deriving DecidableEq, Repr

def Comparison.keyword : Comparison → String
  | .eq => "="
  | .ne => "!="
  | .gt => ">"
  | .ge => ">="
  | .lt => "<"
  | .le => "<="
  | .like => "LIKE"
  | .notLike => "NOT LIKE"

/-- A test comes as it is or negated. -/
inductive Polarity where
  | plain : Polarity
  | negated : Polarity
  deriving DecidableEq, Repr

def Polarity.keyword (p : Polarity) (word : String) : String :=
  match p with
  | .plain => word
  | .negated => "NOT " ++ word

inductive Operator where
  | compare : Comparison → Operator
  | member : Polarity → Operator
  | between : Polarity → Operator
  deriving DecidableEq, Repr

def Operator.keyword : Operator → String
  | .compare op => op.keyword
  | .member p => p.keyword "IN"
  | .between p => p.keyword "BETWEEN"

/-- The clauses that take only some kinds of expression. -/
inductive StrictClause where
  | exists : Polarity → StrictClause
  | groupBy : StrictClause
  | orderBy : StrictClause
  | insert : StrictClause
  | update : StrictClause
  | delete : StrictClause
  deriving DecidableEq, Repr

def StrictClause.keyword : StrictClause → String
  | .exists p => p.keyword "EXISTS"
  | .groupBy => "GROUP BY"
  | .orderBy => "ORDER BY"
  | .insert => "INSERT"
  | .update => "UPDATE"
  | .delete => "DELETE"

inductive ExprKind where
  | identifier : ExprKind
  | raw : ExprKind
  | function : ExprKind
  | subquery : ExprKind
  | aliased : ExprKind
  deriving DecidableEq, Repr

def ExprKind.name : ExprKind → String
  | .identifier => "identifier"
  | .raw => "raw"
  | .function => "function"
  | .subquery => "subquery"
  | .aliased => "aliased"

/-- Causes carry what their message tells about the call. -/
inductive BuildError where
  | emptyTable : BuildError
  | nullValue (operator : Operator) (column : String) : BuildError
  | emptyList (operator : Operator) (column : String) : BuildError
  | emptyCase : BuildError
  | placeholderCount (sql : String) (placeholders values : Nat) : BuildError
  | missingColumns : BuildError
  | missingValues : BuildError
  | missingAssignments : BuildError
  | rowLength (row expected actual : Nat) : BuildError
  | emptyConflictTarget : BuildError
  | unsupportedExpression (clause : StrictClause) (kind : ExprKind) : BuildError
  | subquery (cause : BuildError) : BuildError
  | unsupported (dialect : String) (feature : Feature) : BuildError
  deriving DecidableEq, Repr

inductive ErrorKind where
  | configuration : ErrorKind
  | type : ErrorKind
  | composition : ErrorKind
  deriving DecidableEq, Repr

def ErrorKind.name : ErrorKind → String
  | .configuration => "configuration"
  | .type => "type"
  | .composition => "composition"

namespace BuildError

/-- Backticks set off what the caller wrote. -/
def ticked (s : String) : String := "\x60" ++ s ++ "\x60"

def count (n : Nat) : String := String.ofList (digits n)

def message : BuildError → String
  | .emptyTable => "table name must not be empty"
  | .nullValue op column =>
    "operator " ++ ticked op.keyword ++ " on " ++ ticked column ++ " requires a non-null value"
  | .emptyList op column =>
    ticked op.keyword ++ " on " ++ ticked column ++ " requires at least one value"
  | .emptyCase => "CASE requires at least one WHEN branch"
  | .placeholderCount sql placeholders values =>
    "raw fragment " ++ ticked sql ++ " has " ++ count placeholders ++ " placeholders but " ++
      count values ++ " values"
  | .missingColumns => "INSERT requires at least one column"
  | .missingValues => "INSERT requires at least one row of values"
  | .missingAssignments => "UPDATE requires at least one assignment"
  | .rowLength row expected actual =>
    "INSERT row " ++ count row ++ " has " ++ count actual ++ " values but " ++ count expected ++
      " columns were given"
  | .emptyConflictTarget => "ON CONFLICT requires at least one target column"
  | .unsupportedExpression clause kind =>
    clause.keyword ++ " does not accept " ++ kind.name ++ " expressions"
  | .subquery cause => "nested statement failed: " ++ cause.message
  | .unsupported dialect feature =>
    "dialect " ++ ticked dialect ++ " does not support " ++ feature.keyword

/-- What is wrong: a missing or inconsistent piece, an expression of the wrong kind, or a nested
    statement. -/
def kind : BuildError → ErrorKind
  | .unsupportedExpression _ _ => .type
  | .subquery _ => .composition
  | _ => .configuration

theorem kind_composition_iff (e : BuildError) : e.kind = .composition ↔ ∃ c, e = .subquery c := by
  cases e <;> simp [kind]

end BuildError

end SqlAssembly
