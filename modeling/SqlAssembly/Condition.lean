import SqlAssembly.Query

/-! Conditions: tests on a column, raw tests, and their combinations. Column texts and raw
   texts are written as they are given. -/
namespace SqlAssembly

namespace Part

/-- Text that meets text becomes one part, so no two texts stand side by side. -/
def glue : List Part → List Part → List Part
  | [], qs => qs
  | [.text s vs], .text t ws :: qs => .text (s ++ t) (vs ++ ws) :: qs
  | p :: ps, qs => p :: glue ps qs

def glueAll (pss : List (List Part)) : List Part := pss.foldr glue []

def plain (sql : String) : List Part := [.text sql []]

theorem glue_nil (ps : List Part) : glue ps [] = ps := by
  induction ps with
  | nil => rfl
  | cons p ps ih => cases p <;> cases ps <;> simp_all [glue]

theorem glue_subquery (s : Select) (ps qs : List Part) :
    glue (.subquery s :: ps) qs = .subquery s :: glue ps qs := by cases qs <;> rfl

theorem glue_cons_cons (p q : Part) (ps qs : List Part) :
    glue (p :: q :: ps) qs = p :: glue (q :: ps) qs := by cases p <;> rfl

theorem glue_cons_ne_nil (p : Part) (ps qs : List Part) : glue (p :: ps) qs ≠ [] := by
  cases ps with
  | cons q ps => rw [glue_cons_cons]; simp
  | nil =>
    cases p with
    | subquery s => rw [glue_subquery]; simp
    | text sql values =>
      cases qs with
      | nil => simp [glue]
      | cons q qs => cases q <;> simp [glue]

theorem glue_assoc (ps qs rs : List Part) : glue (glue ps qs) rs = glue ps (glue qs rs) := by
  induction ps with
  | nil => rfl
  | cons p ps ih =>
    cases ps with
    | cons q ps =>
      rw [glue_cons_cons, glue_cons_cons]
      cases joined : glue (q :: ps) qs with
      | nil => exact absurd joined (glue_cons_ne_nil q ps qs)
      | cons r rest => rw [glue_cons_cons, ← joined, ih]
    | nil =>
      cases p with
      | subquery s => simp only [glue_subquery]; rfl
      | text sql values =>
        cases qs with
        | nil => rfl
        | cons q qs =>
          cases q with
          | subquery s => simp only [glue, glue_cons_cons]
          | text more extra =>
            cases qs with
            | cons r qs => simp only [glue, glue_cons_cons]
            | nil =>
              cases rs with
              | nil => simp [glue]
              | cons r rs => cases r <;> simp [glue, String.append_assoc]

end Part

namespace Predicate

def leaf (parts : List Part) : Predicate := ⟨parts, false⟩

def wrapped (p : Predicate) : List Part :=
  Part.glueAll [Part.plain "(", p.parts, Part.plain ")"]

/-- An operand of AND needs parentheses only when it is a disjunction. -/
def guarded (p : Predicate) : List Part := if p.disjunction then p.wrapped else p.parts

def conj (a b : Predicate) : Predicate :=
  ⟨Part.glueAll [a.guarded, Part.plain " AND ", b.guarded], false⟩

def disj (a b : Predicate) : Predicate :=
  ⟨Part.glueAll [a.wrapped, Part.plain " OR ", b.wrapped], true⟩

def neg (a : Predicate) : Predicate := leaf (Part.glueAll [Part.plain "NOT ", a.wrapped])

end Predicate

namespace Condition

def leaf (sql : String) (values : List Value) : Condition := .ok (.leaf [.text sql values])

def nullTest (column : String) (polarity : Polarity) : Condition :=
  leaf (column ++ " IS " ++ polarity.keyword "NULL") []

/-- Nothing equals NULL, so an equality with NULL tests for NULL instead; no other comparison
    with it can hold. -/
def compare (column : String) (op : Comparison) (value : Value) : Condition :=
  if value.isNull then
    match op with
    | .eq => nullTest column .plain
    | .ne => nullTest column .negated
    | _ => .error (.nullValue (.compare op) column)
  else leaf (column ++ " " ++ op.keyword ++ " ?") [value]

def marks (n : Nat) : String := ", ".intercalate (List.replicate n "?")

theorem count_marks (n : Nat) : (marks n).toList.count '?' = n := by
  rw [marks, String.toList_intercalate, List.map_replicate]
  induction n with
  | zero => rfl
  | succ n ih =>
    cases n with
    | zero => rfl
    | succ n =>
      rw [List.replicate_succ, List.replicate_succ, List.intercalate_cons_cons, List.count_append,
        List.count_append, ← List.replicate_succ, ih]
      have first : List.count '?' "?".toList = 1 := rfl
      have between : List.count '?' ", ".toList = 0 := rfl
      omega

/-- A NULL in the list would leave the test undecided. -/
def member (column : String) (polarity : Polarity) (values : List Value) : Condition :=
  if values.isEmpty then .error (.emptyList (.member polarity) column)
  else if values.any Value.isNull then .error (.nullValue (.member polarity) column)
  else
    leaf (column ++ " " ++ (Operator.member polarity).keyword ++ " (" ++ marks values.length ++ ")")
      values

def memberOf (column : String) (polarity : Polarity) (query : Select) : Condition :=
  .ok (.leaf [.text (column ++ " " ++ (Operator.member polarity).keyword ++ " ") [],
    .subquery query])

def between (column : String) (polarity : Polarity) (low high : Value) : Condition :=
  if low.isNull || high.isNull then .error (.nullValue (.between polarity) column)
  else leaf (column ++ " " ++ (Operator.between polarity).keyword ++ " ? AND ?") [low, high]

def existence (polarity : Polarity) : Expr → Condition
  | .subquery query =>
    .ok (.leaf [.text ((StrictClause.exists polarity).keyword ++ " ") [], .subquery query])
  | .term (.raw sql) => leaf ((StrictClause.exists polarity).keyword ++ " (" ++ sql ++ ")") []
  | e => .error (.unsupportedExpression (.exists polarity) e.kind)

/-- Every question mark counts as a placeholder, also one inside a literal. -/
def raw (sql : String) (values : List Value) : Condition :=
  let placeholders := sql.toList.count '?'
  if placeholders = values.length then leaf sql values
  else .error (.placeholderCount sql placeholders values.length)

def conj (a b : Condition) : Condition := do return (← a).conj (← b)

def disj (a b : Condition) : Condition := do return (← a).disj (← b)

def neg (a : Condition) : Condition := do return (← a).neg

end Condition

/-- A CASE expression: the value of the first branch whose condition holds, or the fallback. -/
structure CaseExpr where
  branches : List (Condition × Value) := []
  fallback : Option Value := none

namespace CaseExpr

def when (c : CaseExpr) (condition : Condition) (value : Value) : CaseExpr :=
  { c with branches := c.branches ++ [(condition, value)] }

def otherwise (c : CaseExpr) (value : Value) : CaseExpr := { c with fallback := some value }

def branchParts : List (Condition × Value) → Except BuildError (List Part)
  | [] => .ok []
  | (condition, value) :: rest => do
    let p ← condition
    let parts ← branchParts rest
    return Part.glueAll
      [Part.plain " WHEN ", p.parts, Part.plain " THEN ", [.text "?" [value]], parts]

def fallbackParts : Option Value → List Part
  | none => []
  | some value => [.text " ELSE ?" [value]]

def condition (c : CaseExpr) : Condition :=
  if c.branches.isEmpty then .error .emptyCase
  else do
    let parts ← branchParts c.branches
    return .leaf (Part.glueAll
      [Part.plain "CASE", parts, fallbackParts c.fallback, Part.plain " END"])

end CaseExpr

end SqlAssembly
