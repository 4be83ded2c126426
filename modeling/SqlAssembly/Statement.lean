import SqlAssembly.Context
import SqlAssembly.Interpolation
import SqlAssembly.Mutation.Delete
import SqlAssembly.Mutation.Update
import SqlAssembly.Mutation.Upsert
import SqlAssembly.Query.Edit

/-! Statements of every kind, what they write, and the calls that change them. -/
namespace SqlAssembly

inductive Statement where
  | select : Select → Statement
  | insert : Insert → Statement
  | update : Update → Statement
  | delete : Delete → Statement
  | upsert : Upsert → Statement
  | returning (inner : Statement) (columns : List String) (dialect : Option Dialect) : Statement

namespace Statement

def returningScript (columns : List String) : Script :=
  .need .returning :: .text " RETURNING " ::
    if columns.isEmpty then [.text "*"] else Script.names columns

def script : Statement → Script
  | .select s => s.script
  | .insert s => s.script
  | .update s => s.script
  | .delete s => s.script
  | .upsert s => s.script
  | .returning inner columns _ => inner.script ++ returningScript columns

/-- A wrapper's own dialect counts before that of the statement inside. -/
def dialect? : Statement → Option Dialect
  | .select s => s.dialect
  | .insert s => s.dialect
  | .update s => s.dialect
  | .delete s => s.dialect
  | .upsert s => s.insert.dialect
  | .returning inner _ own => own.or inner.dialect?

/-- The error that a call has left behind. Upserts and wrappers tell theirs only when they
    are built. -/
def recorded? : Statement → Option BuildError
  | .select s => s.error?
  | .insert s => s.error?
  | .update s => s.error?
  | .delete s => s.error?
  | .upsert _ => none
  | .returning _ _ _ => none

def inner? : Statement → Option Statement
  | .returning inner _ _ => some inner
  | _ => none

def withDialect (d : Dialect) : Statement → Statement
  | .select s => .select (s.withDialect d)
  | .insert s => .insert (s.withDialect d)
  | .update s => .update (s.withDialect d)
  | .delete s => .delete (s.withDialect d)
  | .upsert s => .upsert (s.withDialect d)
  | .returning inner columns _ => .returning inner columns (some d)

inductive Call where
  | query : Query.Edit → Call
  | rows : Rows.Edit → Call
  | changes : Changes.Edit → Call
  | removal : Removal.Edit → Call
  | conflict : Conflict.Edit → Call
  | upsert : Call
  | returning : List String → Call
  | dialect : Dialect → Call

/-- A call that the kind of the statement does not have is refused. A conflict edit turns an
    insert into an upsert. -/
def call? (s : Statement) (c : Call) : Option Statement :=
  match c, s with
  | .dialect d, s => some (s.withDialect d)
  | .returning columns, s => some (.returning s columns none)
  | .query e, .select s => some (.select (s.edit e))
  | .rows e, .insert s => some (.insert (s.edit e))
  | .changes e, .update s => some (.update (s.edit e))
  | .removal e, .delete s => some (.delete (s.edit e))
  | .conflict e, .upsert s => some (.upsert (s.edit e))
  | .conflict e, .insert s => some (.upsert (Upsert.edit { insert := s } e))
  | .upsert, .insert s => some (.upsert { insert := s })
  | _, _ => none

def compose? : Statement → Statement → Option Statement
  | .select a, .select b => some (.select (a.compose (some b)))
  | _, _ => none

def dialectFor (s : Statement) (preset : Dialect) : Dialect := s.dialect?.getD preset

def buildWith (s : Statement) (d : Dialect) : Except BuildError Built := s.script.build d

def build (s : Statement) (preset : Dialect) : Except BuildError Built :=
  s.buildWith (s.dialectFor preset)

/-- The text with its arguments written in. It is for reading: running it would trust the
    values. -/
def preview (s : Statement) (preset : Dialect) : Except BuildError String :=
  (s.build preset).map fun b => interpolate b.sql b.arguments

theorem dialect_withDialect (s : Statement) (d : Dialect) :
    (s.withDialect d).dialect? = some d := by
  cases s <;> rfl

theorem script_withDialect (s : Statement) (d : Dialect) : (s.withDialect d).script = s.script := by
  cases s with
  | select s =>
    rcases s with ⟨state, dialect⟩
    cases state <;> rfl
  | _ => rfl

end Statement

end SqlAssembly
