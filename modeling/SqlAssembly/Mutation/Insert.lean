import SqlAssembly.Mutation.Table

/-! INSERT statements. Rows and columns may come in any order, so whether they fit together is
   only asked when the statement is written. -/
namespace SqlAssembly

/-- The content of an INSERT. -/
structure Rows where
  table : Term
  columns : List String := []
  rows : List (List Value) := []

abbrev Insert := Builder Rows

namespace Rows

inductive Edit where
  | columns : List String → Edit
  | values : List Value → Edit
  | valuesMany : List (List Value) → Edit

def edit (e : Edit) (r : Rows) : Except BuildError Rows :=
  match e with
  | .columns names => .ok { r with columns := names }
  | .values row => .ok { r with rows := r.rows ++ [row] }
  | .valuesMany rows => .ok { r with rows := r.rows ++ rows }

/-- The first row whose length is not the number of columns. -/
def misfit? (expected : Nat) : Nat → List (List Value) → Option BuildError
  | _, [] => none
  | i, row :: rows =>
    if row.length = expected then misfit? expected (i + 1) rows
    else some (.rowLength i expected row.length)

def fault? (r : Rows) : Option BuildError :=
  if r.columns.isEmpty then some .missingColumns
  else if r.rows.isEmpty then some .missingValues
  else misfit? r.columns.length 0 r.rows

def rowScript (row : List Value) : Script :=
  Script.parenthesized (Script.separated ", " (row.map Script.argument))

def script (r : Rows) : Script :=
  match r.fault? with
  | some e => [.fail e]
  | none =>
    .text "INSERT INTO " :: r.table.script ++ .text " (" :: Script.names r.columns ++
      .text ") VALUES " :: Script.separated ", " (r.rows.map rowScript)

theorem misfit_eq_none_iff (expected i : Nat) (rows : List (List Value)) :
    misfit? expected i rows = none ↔ ∀ row ∈ rows, row.length = expected := by
  induction rows generalizing i with
  | nil => simp [misfit?]
  | cons row rows ih => by_cases h : row.length = expected <;> simp [misfit?, h, ih]

end Rows

namespace Insert

def into (table : Expr) : Insert :=
  { state := (mutationTable .insert table).map fun t => { table := t } }

def edit (s : Insert) (e : Rows.Edit) : Insert := Builder.edit Rows.edit s e

def script (s : Insert) : Script :=
  match s.state with
  | .ok rows => rows.script
  | .error e => [.fail e]

end Insert

end SqlAssembly
