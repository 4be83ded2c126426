import SqlAssembly.Condition
import SqlAssembly.Statement

/-! How a caller makes a statement, as data: every call with all that is passed to it. The trees
   are evaluated by the calls of the library, so a statement is what its calls make of it. -/
namespace SqlAssembly

mutual

inductive ExprTree where
  | term : Term → ExprTree
  | subquery : List QueryCall → ExprTree
  | aliased : ExprTree → String → ExprTree

inductive CondTree where
  | compare (column : String) (op : Comparison) (value : Value) : CondTree
  | member (column : String) (polarity : Polarity) (values : List Value) : CondTree
  | memberOf (column : String) (polarity : Polarity) (query : List QueryCall) : CondTree
  | between (column : String) (polarity : Polarity) (low high : Value) : CondTree
  | nullTest (column : String) (polarity : Polarity) : CondTree
  | existence (polarity : Polarity) (target : ExprTree) : CondTree
  | raw (sql : String) (values : List Value) : CondTree
  | conj : CondTree → CondTree → CondTree
  | disj : CondTree → CondTree → CondTree
  | neg : CondTree → CondTree
  | case : List CaseCall → CondTree

inductive CaseCall where
  | when : CondTree → Value → CaseCall
  | otherwise : Value → CaseCall

/-- A query is the list of its calls on the empty one. -/
inductive QueryCall where
  | columns : List ExprTree → QueryCall
  | distinct : QueryCall
  | source : ExprTree → QueryCall
  | join (kind : JoinKind) (target : ExprTree) (left right : String) : QueryCall
  | filter : CondTree → QueryCall
  | groupBy : List ExprTree → QueryCall
  | groupFilter : CondTree → QueryCall
  | orderBy : ExprTree → Option Direction → QueryCall
  | limit : Nat → QueryCall
  | offset : Nat → QueryCall
  | compose : Option (List QueryCall) → QueryCall
  | dialect : Dialect → QueryCall

end

mutual

def ExprTree.expr : ExprTree → Expr
  | .term t => .term t
  | .subquery cs => .subquery (Builder.calls Query.edit Select.empty (queryCalls cs))
  | .aliased e label => .aliased e.expr label

def exprsOf : List ExprTree → List Expr
  | [] => []
  | e :: es => e.expr :: exprsOf es

def CondTree.condition : CondTree → Condition
  | .compare column op value => Condition.compare column op value
  | .member column polarity values => Condition.member column polarity values
  | .memberOf column polarity cs =>
    Condition.memberOf column polarity (Builder.calls Query.edit Select.empty (queryCalls cs))
  | .between column polarity low high => Condition.between column polarity low high
  | .nullTest column polarity => Condition.nullTest column polarity
  | .existence polarity target => Condition.existence polarity target.expr
  | .raw sql values => Condition.raw sql values
  | .conj a b => a.condition.conj b.condition
  | .disj a b => a.condition.disj b.condition
  | .neg a => a.condition.neg
  | .case cs => (caseExpr {} cs).condition

def caseExpr (c : CaseExpr) : List CaseCall → CaseExpr
  | [] => c
  | call :: cs => caseExpr (call.apply c) cs

def CaseCall.apply (c : CaseExpr) : CaseCall → CaseExpr
  | .when t v => c.when t.condition v
  | .otherwise v => c.otherwise v

def QueryCall.call : QueryCall → Builder.Call Query.Edit
  | .columns es => .edit (.columns (exprsOf es))
  | .distinct => .edit .distinct
  | .source e => .edit (.source e.expr)
  | .join kind target left right => .edit (.join kind target.expr left right)
  | .filter t => .edit (.filter t.condition)
  | .groupBy es => .edit (.groupBy (exprsOf es))
  | .groupFilter t => .edit (.groupFilter t.condition)
  | .orderBy e asked => .edit (.orderBy e.expr asked)
  | .limit n => .edit (.limit n)
  | .offset n => .edit (.offset n)
  | .compose other => .edit (.compose (composedOf other))
  | .dialect d => .dialect d

def composedOf : Option (List QueryCall) → Option Select
  | none => none
  | some cs => some (Builder.calls Query.edit Select.empty (queryCalls cs))

def queryCalls : List QueryCall → List (Builder.Call Query.Edit)
  | [] => []
  | c :: cs => c.call :: queryCalls cs

end

def selectOf (cs : List QueryCall) : Select := Builder.calls Query.edit Select.empty (queryCalls cs)

inductive UpdateCall where
  | set : String → Value → UpdateCall
  | setRaw : String → String → UpdateCall
  | filter : CondTree → UpdateCall
  | dialect : Dialect → UpdateCall

def UpdateCall.call : UpdateCall → Builder.Call Changes.Edit
  | .set column v => .edit (.set column v)
  | .setRaw column sql => .edit (.setRaw column sql)
  | .filter t => .edit (.filter t.condition)
  | .dialect d => .dialect d

inductive DeleteCall where
  | filter : CondTree → DeleteCall
  | dialect : Dialect → DeleteCall

def DeleteCall.call : DeleteCall → Builder.Call Removal.Edit
  | .filter t => .edit (.filter t.condition)
  | .dialect d => .dialect d

def upsertCall (u : Upsert) : Builder.Call Conflict.Edit → Upsert
  | .edit e => u.edit e
  | .dialect d => u.withDialect d

def insertOf (table : ExprTree) (cs : List (Builder.Call Rows.Edit)) : Insert :=
  Builder.calls Rows.edit (Insert.into table.expr) cs

def updateOf (table : ExprTree) (cs : List UpdateCall) : Update :=
  Builder.calls Changes.edit (Update.of table.expr) (cs.map UpdateCall.call)

def deleteOf (table : ExprTree) (cs : List DeleteCall) : Delete :=
  Builder.calls Removal.edit (Delete.of table.expr) (cs.map DeleteCall.call)

/-- A wrapper takes calls that choose a dialect and nothing else. -/
inductive StatementTree where
  | select : List QueryCall → StatementTree
  | insert (table : ExprTree) (calls : List (Builder.Call Rows.Edit)) : StatementTree
  | update (table : ExprTree) (calls : List UpdateCall) : StatementTree
  | delete (table : ExprTree) (calls : List DeleteCall) : StatementTree
  | upsert (table : ExprTree) (calls : List (Builder.Call Rows.Edit))
      (conflicts : List (Builder.Call Conflict.Edit)) : StatementTree
  | returning (inner : StatementTree) (columns : List String) (dialects : List Dialect) :
      StatementTree

def StatementTree.statement : StatementTree → Statement
  | .select cs => .select (selectOf cs)
  | .insert table cs => .insert (insertOf table cs)
  | .update table cs => .update (updateOf table cs)
  | .delete table cs => .delete (deleteOf table cs)
  | .upsert table cs conflicts =>
    .upsert (conflicts.foldl upsertCall { insert := insertOf table cs })
  | .returning inner columns dialects =>
    dialects.foldl (fun s d => s.withDialect d) (.returning inner.statement columns none)

/-! Choosing dialects for a statement changes its override and nothing else. -/

theorem script_withDialects (st : Statement) (ds : List Dialect) :
    (ds.foldl (fun st d => st.withDialect d) st).script = st.script := by
  induction ds generalizing st with
  | nil => rfl
  | cons d ds ih => rw [List.foldl_cons, ih, Statement.script_withDialect]

theorem recorded_withDialects (st : Statement) (ds : List Dialect) :
    (ds.foldl (fun s d => s.withDialect d) st).recorded? = st.recorded? := by
  induction ds generalizing st with
  | nil => rfl
  | cons d ds ih =>
    have first : (st.withDialect d).recorded? = st.recorded? := by cases st <;> rfl
    rw [List.foldl_cons, ih, first]

theorem dialect_withDialects (st : Statement) (ds : List Dialect) :
    (ds.foldl (fun s d => s.withDialect d) st).dialect? = ds.getLast?.or st.dialect? := by
  induction ds generalizing st with
  | nil => rfl
  | cons d ds ih =>
    rw [List.foldl_cons, ih, Statement.dialect_withDialect, List.getLast?_cons]
    cases ds.getLast? <;> rfl

section Induction

variable (E : ExprTree → Prop) (C : CondTree → Prop) (Q : List QueryCall → Prop)

/-- What the trees that are passed to a call satisfy. -/
def QueryCall.Passes : QueryCall → Prop
  | .columns es => ∀ e ∈ es, E e
  | .source e => E e
  | .join _ target _ _ => E target
  | .filter t => C t
  | .groupBy es => ∀ e ∈ es, E e
  | .groupFilter t => C t
  | .orderBy e _ => E e
  | .compose other => ∀ cs, other = some cs → Q cs
  | _ => True

structure Compositional : Prop where
  term : ∀ t, E (.term t)
  subquery : ∀ cs, Q cs → E (.subquery cs)
  aliased : ∀ e label, E e → E (.aliased e label)
  compare : ∀ column op value, C (.compare column op value)
  member : ∀ column polarity values, C (.member column polarity values)
  memberOf : ∀ column polarity cs, Q cs → C (.memberOf column polarity cs)
  between : ∀ column polarity low high, C (.between column polarity low high)
  nullTest : ∀ column polarity, C (.nullTest column polarity)
  existence : ∀ polarity e, E e → C (.existence polarity e)
  raw : ∀ sql values, C (.raw sql values)
  conj : ∀ a b, C a → C b → C (.conj a b)
  disj : ∀ a b, C a → C b → C (.disj a b)
  neg : ∀ a, C a → C (.neg a)
  case : ∀ cs, (∀ t v, CaseCall.when t v ∈ cs → C t) → C (.case cs)
  calls : ∀ cs, (∀ c ∈ cs, QueryCall.Passes E C Q c) → Q cs

end Induction

namespace Compositional

variable {E : ExprTree → Prop} {C : CondTree → Prop} {Q : List QueryCall → Prop}

mutual

theorem expr (h : Compositional E C Q) : ∀ e, E e
  | .term t => h.term t
  | .subquery cs => h.subquery cs (h.query cs)
  | .aliased e label => h.aliased e label (h.expr e)

theorem exprs (h : Compositional E C Q) : ∀ es : List ExprTree, ∀ e ∈ es, E e
  | [] => by simp
  | e :: es => List.forall_mem_cons.mpr ⟨h.expr e, h.exprs es⟩

theorem cond (h : Compositional E C Q) : ∀ t, C t
  | .compare column op value => h.compare column op value
  | .member column polarity values => h.member column polarity values
  | .memberOf column polarity cs => h.memberOf column polarity cs (h.query cs)
  | .between column polarity low high => h.between column polarity low high
  | .nullTest column polarity => h.nullTest column polarity
  | .existence polarity e => h.existence polarity e (h.expr e)
  | .raw sql values => h.raw sql values
  | .conj a b => h.conj a b (h.cond a) (h.cond b)
  | .disj a b => h.disj a b (h.cond a) (h.cond b)
  | .neg a => h.neg a (h.cond a)
  | .case cs => h.case cs (h.caseCalls cs)

theorem caseCall (h : Compositional E C Q) : ∀ c : CaseCall, ∀ t v, CaseCall.when t v = c → C t
  | .when t v => by rintro _ _ ⟨⟩; exact h.cond t
  | .otherwise v => by simp

theorem caseCalls (h : Compositional E C Q) :
    ∀ cs : List CaseCall, ∀ t v, CaseCall.when t v ∈ cs → C t
  | [] => by simp
  | c :: cs => by
    intro t v member
    rcases List.mem_cons.mp member with first | later
    · exact h.caseCall c t v first
    · exact h.caseCalls cs t v later

theorem passed (h : Compositional E C Q) : ∀ c : QueryCall, c.Passes E C Q
  | .columns es => h.exprs es
  | .distinct => trivial
  | .source e => h.expr e
  | .join _ target _ _ => h.expr target
  | .filter t => h.cond t
  | .groupBy es => h.exprs es
  | .groupFilter t => h.cond t
  | .orderBy e _ => h.expr e
  | .limit _ => trivial
  | .offset _ => trivial
  | .compose other => h.composed other
  | .dialect _ => trivial

theorem composed (h : Compositional E C Q) :
    ∀ other : Option (List QueryCall), ∀ cs, other = some cs → Q cs
  | none => by simp
  | some cs => by rintro _ ⟨⟩; exact h.query cs

theorem allPassed (h : Compositional E C Q) : ∀ cs : List QueryCall, ∀ c ∈ cs, c.Passes E C Q
  | [] => by simp
  | c :: cs => List.forall_mem_cons.mpr ⟨h.passed c, h.allPassed cs⟩

theorem query (h : Compositional E C Q) : ∀ cs, Q cs
  | [] => h.calls [] (by simp)
  | c :: cs => h.calls (c :: cs) (List.forall_mem_cons.mpr ⟨h.passed c, h.allPassed cs⟩)

end

end Compositional

/-- Induction over queries that looks at nothing but the queries composed into them. -/
theorem composed_induction {Q : List QueryCall → Prop}
    (calls : ∀ cs, (∀ c ∈ cs, QueryCall.Passes (fun _ => True) (fun _ => True) Q c) → Q cs)
    (cs : List QueryCall) : Q cs := by
  have all : Compositional (fun _ => True) (fun _ => True) Q := {
    term := fun _ => trivial
    subquery := fun _ _ => trivial
    aliased := fun _ _ _ => trivial
    compare := fun _ _ _ => trivial
    member := fun _ _ _ => trivial
    memberOf := fun _ _ _ _ => trivial
    between := fun _ _ _ _ => trivial
    nullTest := fun _ _ => trivial
    existence := fun _ _ _ => trivial
    raw := fun _ _ => trivial
    conj := fun _ _ _ _ => trivial
    disj := fun _ _ _ _ => trivial
    neg := fun _ _ => trivial
    case := fun _ _ => trivial
    calls := calls }
  exact all.query cs

theorem exprsOf_eq_map (es : List ExprTree) : exprsOf es = es.map ExprTree.expr := by
  induction es with
  | nil => rfl
  | cons e es ih => simp [exprsOf, ih]

theorem queryCalls_eq_map (cs : List QueryCall) : queryCalls cs = cs.map QueryCall.call := by
  induction cs with
  | nil => rfl
  | cons c cs ih => simp [queryCalls, ih]

end SqlAssembly
