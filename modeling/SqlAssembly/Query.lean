import SqlAssembly.Builder
import SqlAssembly.Text.Blank
import SqlAssembly.Value

/-! Queries and the expressions and predicates in them. A nested query is a builder of its own,
   so it may have failed, and it may name a dialect that nothing here looks at. -/
namespace SqlAssembly

/-- Expressions that hold no other expression. -/
inductive Term where
  | name : String → Term
  | raw : String → Term
  | call : String → Term
  deriving DecidableEq, Repr

inductive JoinKind where
  | inner : JoinKind
  | left : JoinKind
  | right : JoinKind
  | full : JoinKind
  | cross : JoinKind
  deriving DecidableEq, Repr

inductive Direction where
  | ascending : Direction
  | descending : Direction
  deriving DecidableEq, Repr

structure OrderItem where
  key : Term
  direction : Option Direction
  deriving DecidableEq, Repr

mutual

/-- What can stand in a projection or as a table. -/
inductive Expr where
  | term : Term → Expr
  | subquery : Builder Query → Expr
  | aliased : Expr → String → Expr

/-- A predicate is text with its arguments, cut where a query is nested. -/
inductive Part where
  | text : String → List Value → Part
  | subquery : Builder Query → Part

/-- The text of a disjunction has an OR outside all parentheses. -/
structure Predicate where
  parts : List Part
  disjunction : Bool

structure Join where
  kind : JoinKind
  target : Expr
  on : Option (String × String)

structure Query where
  distinct : Bool
  columns : List Expr
  source : Option Expr
  joins : List Join
  filters : List Predicate
  groups : List Term
  groupFilters : List Predicate
  order : List OrderItem
  limit : Option Nat
  offset : Option Nat

end

abbrev Select := Builder Query

/-- A condition is a predicate, or the first error made in writing it. -/
abbrev Condition := Except BuildError Predicate

def Term.text : Term → String
  | .name s => s
  | .raw s => s
  | .call s => s

def Term.kind : Term → ExprKind
  | .name _ => .identifier
  | .raw _ => .raw
  | .call _ => .function

def Expr.kind : Expr → ExprKind
  | .term t => t.kind
  | .subquery _ => .subquery
  | .aliased _ _ => .aliased

def Expr.isBlank : Expr → Bool
  | .term t => blankText t.text
  | .subquery _ => false
  | .aliased e _ => e.isBlank

def JoinKind.keyword : JoinKind → String
  | .inner => "INNER JOIN"
  | .left => "LEFT JOIN"
  | .right => "RIGHT JOIN"
  | .full => "FULL JOIN"
  | .cross => "CROSS JOIN"

def Direction.keyword : Direction → String
  | .ascending => "ASC"
  | .descending => "DESC"

def Direction.ofWord? (word : List Char) : Option Direction :=
  if sameLetters word "ASC".toList then some .ascending
  else if sameLetters word "DESC".toList then some .descending
  else none

/-- A direction at the end of a text, after a blank, is split off it. The text in front keeps
    no blanks at its ends; without a direction the text stays as it was. -/
def splitDirection (text : String) : String × Option Direction :=
  match splitLastBlank? (trim text.toList) with
  | none => (text, none)
  | some (head, word) =>
    match Direction.ofWord? word with
    | some d => (String.ofList (trimEnd head), some d)
    | none => (text, none)

def OrderItem.ofTerm : Term → OrderItem
  | .name s => ⟨.name (splitDirection s).1, (splitDirection s).2⟩
  | .raw s => ⟨.raw (splitDirection s).1, (splitDirection s).2⟩
  | .call s => ⟨.call s, none⟩

end SqlAssembly
