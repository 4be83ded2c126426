import SqlAssembly.Mutation.Insert

/-! An INSERT that says what becomes of rows that are already there. -/
namespace SqlAssembly

inductive ConflictAction where
  | keep : ConflictAction
  | overwrite : List String → ConflictAction
  deriving DecidableEq, Repr

structure Conflict where
  target : List String := []
  action : ConflictAction := .keep
  deriving DecidableEq, Repr

namespace Conflict

inductive Edit where
  | target : List String → Edit
  | keep : Edit
  | overwrite : List String → Edit

/-- An empty list of columns is an error: there would be no conflict to look for, or nothing to
    overwrite. -/
def edit (e : Edit) (c : Conflict) : Except BuildError Conflict :=
  match e with
  | .target [] => .error .emptyConflictTarget
  | .target names => .ok { c with target := names }
  | .keep => .ok { c with action := .keep }
  | .overwrite [] => .error .missingAssignments
  | .overwrite names => .ok { c with action := .overwrite names }

/-- The new value of a column is found under the table name excluded. -/
def overwriteScript (name : String) : Script :=
  [.column name, .text " = excluded.", .column name]

def actionScript : ConflictAction → Script
  | .keep => [.text " DO NOTHING"]
  | .overwrite names =>
    .text " DO UPDATE SET " :: Script.separated ", " (names.map overwriteScript)

def script (c : Conflict) : Script :=
  if c.target.isEmpty then [.fail .emptyConflictTarget]
  else
    .need .onConflict :: .text " ON CONFLICT (" :: Script.names c.target ++
      .text ")" :: actionScript c.action

end Conflict

structure Upsert where
  insert : Insert
  conflict : Except BuildError Conflict := .ok {}

namespace Upsert

def edit (u : Upsert) (e : Conflict.Edit) : Upsert :=
  { u with conflict := u.conflict.bind (Conflict.edit e) }

/-- The dialect of an upsert is that of its insert. -/
def withDialect (u : Upsert) (d : Dialect) : Upsert :=
  { u with insert := u.insert.withDialect d }

/-- The insert comes first, and so do its errors. -/
def script (u : Upsert) : Script :=
  u.insert.script ++
    match u.conflict with
    | .ok c => c.script
    | .error e => [.fail e]

end Upsert

end SqlAssembly
