import SqlAssembly.Script

/-! Where scripts are written: the text so far, its arguments, and the number of the next
   placeholder. One counter serves the whole statement, so the numbers follow the arguments. -/
namespace SqlAssembly

structure Context where
  dialect : Dialect
  sql : String := ""
  arguments : List Value := []
  next : Nat := 1
  deriving DecidableEq, Repr

/-- What a statement comes to: its text and the arguments in the order of their placeholders. -/
structure Built where
  sql : String
  arguments : List Value
  deriving DecidableEq, Repr

namespace Context

def append (ctx : Context) (sql : String) : Context := { ctx with sql := ctx.sql ++ sql }

/-- The marks of a fragment and its values need not be equally many: the counter follows the
    marks, the arguments follow the values. -/
def fragment (ctx : Context) (sql : String) (values : List Value) : Context :=
  let p := ctx.dialect.placeholder
  { ctx with
    sql := ctx.sql ++ String.ofList (p.fill ctx.next sql.toList)
    arguments := ctx.arguments ++ values
    next := p.after ctx.next (sql.toList.count '?') }

def write (ctx : Context) : Piece → Except BuildError Context
  | .text sql => .ok (ctx.append sql)
  | .qualified name => .ok (ctx.append (ctx.dialect.quoteQualified name))
  | .column name => .ok (ctx.append (ctx.dialect.quoteName name))
  | .fragment sql values => .ok (ctx.fragment sql values)
  | .need feature =>
    if ctx.dialect.supports feature then .ok ctx
    else .error (.unsupported ctx.dialect.name feature)
  | .fail e => .error e

/-- Writing stops at the first failure and keeps everything written before it, so a context
    stays usable. -/
def run (ctx : Context) : Script → Context × Option BuildError
  | [] => (ctx, none)
  | p :: ps =>
    match ctx.write p with
    | .ok ctx' => ctx'.run ps
    | .error e => (ctx, some e)

def outcome : Context × Option BuildError → Except BuildError Built
  | (ctx, none) => .ok ⟨ctx.sql, ctx.arguments⟩
  | (_, some e) => .error e

theorem run_append (ctx : Context) (a b : Script) :
    ctx.run (a ++ b) =
      match ctx.run a with
      | (ctx', none) => ctx'.run b
      | (ctx', some e) => (ctx', some e) := by
  induction a generalizing ctx with
  | nil => rfl
  | cons p a ih =>
    simp only [List.cons_append, run]
    cases ctx.write p with
    | ok ctx' => exact ih ctx'
    | error e => rfl

/-- Two fragments in a row are one fragment. -/
theorem fragment_fragment (ctx : Context) (s t : String) (vs ws : List Value) :
    (ctx.fragment s vs).fragment t ws = ctx.fragment (s ++ t) (vs ++ ws) := by
  simp [fragment, fill_append, after_after, String.append_assoc]

theorem write_dialect (ctx ctx' : Context) (p : Piece) (h : ctx.write p = .ok ctx') :
    ctx'.dialect = ctx.dialect := by
  cases p with
  | need feature =>
    by_cases known : ctx.dialect.supports feature <;> simp_all [write]
  | fail e => cases h
  | _ => cases h; rfl

end Context

/-- A build starts in an empty context, with the first placeholder. -/
def Script.build (s : Script) (d : Dialect) : Except BuildError Built :=
  Context.outcome (Context.run { dialect := d } s)

end SqlAssembly
