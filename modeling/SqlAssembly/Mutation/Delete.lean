import SqlAssembly.Mutation.Table

/-! DELETE statements. Without a filter every row goes, and nothing prevents it. -/
namespace SqlAssembly

/-- The content of a DELETE. -/
structure Removal where
  table : Term
  filters : List Predicate := []

abbrev Delete := Builder Removal

namespace Removal

inductive Edit where
  | filter : Condition → Edit

def edit (e : Edit) (r : Removal) : Except BuildError Removal :=
  match e with
  | .filter p => do return { r with filters := r.filters ++ [← p] }

def script (r : Removal) : Script :=
  .text "DELETE FROM " :: r.table.script ++ whereClause r.filters

end Removal

namespace Delete

def of (table : Expr) : Delete :=
  { state := (mutationTable .delete table).map fun t => { table := t } }

def edit (s : Delete) (e : Removal.Edit) : Delete := Builder.edit Removal.edit s e

def script (s : Delete) : Script :=
  match s.state with
  | .ok removal => removal.script
  | .error e => [.fail e]

end Delete

end SqlAssembly
