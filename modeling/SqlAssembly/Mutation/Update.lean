import SqlAssembly.Mutation.Table

/-! UPDATE statements. The assignments stand before the filters, and so do their arguments. -/
namespace SqlAssembly

inductive Assigned where
  | value : Value → Assigned
  | raw : String → Assigned
  deriving DecidableEq, Repr

/-- The content of an UPDATE. -/
structure Changes where
  table : Term
  assignments : List (String × Assigned) := []
  filters : List Predicate := []

abbrev Update := Builder Changes

namespace Changes

inductive Edit where
  | set : String → Value → Edit
  | setRaw : String → String → Edit
  | filter : Condition → Edit

def edit (e : Edit) (c : Changes) : Except BuildError Changes :=
  match e with
  | .set column v => .ok { c with assignments := c.assignments ++ [(column, .value v)] }
  | .setRaw column sql => .ok { c with assignments := c.assignments ++ [(column, .raw sql)] }
  | .filter p => do return { c with filters := c.filters ++ [← p] }

def assignedScript : Assigned → Script
  | .value v => Script.argument v
  | .raw sql => [.text sql]

def assignmentScript (a : String × Assigned) : Script :=
  .qualified a.1 :: .text " = " :: assignedScript a.2

def script (c : Changes) : Script :=
  if c.assignments.isEmpty then [.fail .missingAssignments]
  else
    .text "UPDATE " :: c.table.script ++
      .text " SET " :: Script.separated ", " (c.assignments.map assignmentScript) ++
      whereClause c.filters

end Changes

namespace Update

def of (table : Expr) : Update :=
  { state := (mutationTable .update table).map fun t => { table := t } }

def edit (s : Update) (e : Changes.Edit) : Update := Builder.edit Changes.edit s e

def script (s : Update) : Script :=
  match s.state with
  | .ok changes => changes.script
  | .error e => [.fail e]

end Update

end SqlAssembly
