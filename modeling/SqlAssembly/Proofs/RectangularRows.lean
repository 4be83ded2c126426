import SqlAssembly.Proofs.NestedFailures
import SqlAssembly.Proofs.Suffixes

/-! Insertions of rows. Columns and rows come in any order and the column list may be replaced, so
   the rows are held against the last list when the statement is built. What is built is a grid of
   placeholders, numbered row by row. -/
namespace SqlAssembly

namespace Dialect

def termText (d : Dialect) : Term → String
  | .name s => d.quoteQualified s
  | .raw s => s
  | .call s => s

/-- A tuple of placeholders, the first of which has the number n. -/
def tupleText (d : Dialect) (width n : Nat) : String :=
  "(" ++ ", ".intercalate ((List.range width).map fun j => d.placeholderText (n + j)) ++ ")"

/-- One tuple for every row, each going on from the number where the one before it ends. -/
def gridText (d : Dialect) (height width : Nat) : String :=
  ", ".intercalate ((List.range height).map fun i => d.tupleText width (i * width + 1))

end Dialect

/-! Which rows are refused. -/

theorem misfit_first {expected i k : Nat} {rows : List (List Value)} {row : List Value}
    (here : rows[k]? = some row) (misfit : row.length ≠ expected)
    (before : ∀ r ∈ rows.take k, r.length = expected) :
    Rows.misfit? expected i rows = some (.rowLength (i + k) expected row.length) := by
  induction rows generalizing i k with
  | nil => cases here
  | cons first rows ih =>
    cases k with
    | zero =>
      cases here
      rw [Rows.misfit?, if_neg misfit, Nat.add_zero]
    | succ k =>
      have fits : first.length = expected := before first List.mem_cons_self
      have later := ih (i := i + 1) here fun r member =>
        before r (List.mem_cons_of_mem first member)
      rw [Rows.misfit?, if_pos fits, later, Nat.add_right_comm, Nat.add_assoc]

theorem fault_eq_none_iff (r : Rows) :
    r.fault? = none ↔
      r.columns ≠ [] ∧ r.rows ≠ [] ∧ ∀ row ∈ r.rows, row.length = r.columns.length := by
  simp only [Rows.fault?, List.isEmpty_iff]
  split
  · simp [*]
  · split
    · simp [*]
    · simp [*, Rows.misfit_eq_none_iff]

theorem rows_failure (r : Rows) : r.script.failure? = r.fault? := by
  rw [← failure_payload, payload_rows]
  cases r.fault? with
  | some e => rfl
  | none =>
    rw [Script.failure?, List.findSome?_eq_none_iff]
    intro p member
    obtain ⟨row, -, inside⟩ := List.mem_flatMap.mp member
    obtain ⟨v, -, last⟩ := List.mem_flatMap.mp inside
    rw [List.mem_singleton.mp last]
    rfl

/-! What is written, and with which numbers. -/

theorem mapIdx_range {α β : Type} (xs : List α) (h : Nat → β) :
    (xs.mapIdx fun i _ => h i) = (List.range xs.length).map h := by
  apply List.ext_getElem <;> simp

/-- The script has k markers, and from the number n on it comes to the text for n. -/
structure Script.Spells (s : Script) (d : Dialect) (k : Nat) (text : Nat → String) : Prop where
  markers : s.glyphs.count .marker = k
  spelled : ∀ n, d.spell n s.glyphs = (text n).toList

section Spelling

variable {d : Dialect}

theorem spells_text (sql : String) : Script.Spells [.text sql] d 0 fun _ => sql := by
  constructor
  · simp [Script.glyphs, Piece.glyphs, count_verbatim]
  · simp [Script.glyphs, Piece.glyphs, spell_verbatim]

theorem spells_qualified (name : String) :
    Script.Spells [.qualified name] d 0 fun _ => d.quoteQualified name := by
  constructor
  · simp [Script.glyphs, Piece.glyphs, count_dotted]
  · simp [Script.glyphs, Piece.glyphs, spell_dotted, Dialect.quoteQualified]

theorem spells_argument (v : Value) : (Script.argument v).Spells d 1 d.placeholderText where
  markers := rfl
  spelled n := by
    have one : (Script.argument v).glyphs = [.marker] := rfl
    simp [one, Dialect.spell, Dialect.placeholderText]

theorem spells_term (t : Term) : t.script.Spells d 0 fun _ => d.termText t := by
  cases t with
  | name s => exact spells_qualified s
  | raw s => exact spells_text s
  | call s => exact spells_text s

theorem spells_append {a b : Script} {k l : Nat} {f g : Nat → String} (left : a.Spells d k f)
    (right : b.Spells d l g) : Script.Spells (a ++ b) d (k + l) fun n => f n ++ g (n + k) := by
  constructor
  · rw [glyphs_append, List.count_append, left.markers, right.markers]
  · intro n
    rw [glyphs_append, spell_append, left.markers, left.spelled, right.spelled,
      String.toList_append]

/-- Items of k markers each: the one with index i begins i times k numbers after the first. -/
theorem spells_separated (separator : String) {α : Type} {f : α → Script} {k : Nat}
    {g : α → Nat → String} {xs : List α} (each : ∀ x ∈ xs, (f x).Spells d k (g x)) :
    (Script.separated separator (xs.map f)).Spells d (xs.length * k) fun n =>
      separator.intercalate (xs.mapIdx fun i x => g x (n + i * k)) := by
  induction xs with
  | nil => exact ⟨(Nat.zero_mul k).symm, fun _ => rfl⟩
  | cons x xs ih =>
    obtain ⟨first, later⟩ := List.forall_mem_cons.mp each
    cases xs with
    | nil => simpa [Script.separated] using first
    | cons y xs =>
      have whole := spells_append first (spells_append (spells_text separator) (ih later))
      have marks : k + (0 + (y :: xs).length * k) = (x :: y :: xs).length * k := by
        rw [List.length_cons (a := x), Nat.succ_mul]
        omega
      have shifted (n i : Nat) : n + k + 0 + i * k = n + (i + 1) * k := by
        rw [Nat.succ_mul]
        omega
      simp only [marks, shifted, List.mapIdx_cons] at whole
      simp only [List.mapIdx_cons, String.intercalate_cons_cons, Nat.zero_mul, Nat.add_zero,
        String.append_assoc]
      exact whole

theorem spells_names (names : List String) :
    (Script.names names).Spells d 0 fun _ => d.nameList names := by
  have each : ∀ name ∈ names, Script.Spells [.qualified name] d 0 fun _ => d.quoteQualified name :=
    fun name _ => spells_qualified name
  have whole := spells_separated ", " each
  have plain : (names.mapIdx fun _ name => d.quoteQualified name) = names.map d.quoteQualified := by
    apply List.ext_getElem <;> simp
  simp only [plain, Nat.mul_zero] at whole
  exact whole

theorem spells_row (row : List Value) :
    (Rows.rowScript row).Spells d row.length (d.tupleText row.length) := by
  have each : ∀ v ∈ row, (Script.argument v).Spells d 1 d.placeholderText :=
    fun v _ => spells_argument v
  have inside := spells_separated ", " each
  have whole := spells_append (spells_append (spells_text "(") inside) (spells_text ")")
  simp only [mapIdx_range row, Nat.mul_one, Nat.zero_add, Nat.add_zero] at whole
  exact whole

theorem spells_grid {rows : List (List Value)} {width : Nat}
    (even : ∀ row ∈ rows, row.length = width) :
    (Script.separated ", " (rows.map Rows.rowScript)).Spells d (rows.length * width) fun n =>
      ", ".intercalate
        ((List.range rows.length).map fun i => d.tupleText width (n + i * width)) := by
  have each : ∀ row ∈ rows, (Rows.rowScript row).Spells d width (d.tupleText width) := by
    intro row member
    rw [← even row member]
    exact spells_row row
  have whole := spells_separated ", " each
  simp only [mapIdx_range rows] at whole
  exact whole

/-- The only numbers in the text of an insertion are those of its grid. -/
theorem spell_rows (r : Rows) (sound : r.fault? = none) :
    d.spell 1 r.script.glyphs = ("INSERT INTO " ++ d.termText r.table ++ " (" ++
      d.nameList r.columns ++ ") VALUES " ++ d.gridText r.rows.length r.columns.length).toList := by
  obtain ⟨-, -, even⟩ := (fault_eq_none_iff r).mp sound
  have start := spells_append (spells_text (d := d) "INSERT INTO ") (spells_term r.table)
  have opened := spells_append start (spells_append (spells_text " (") (spells_names r.columns))
  have whole := spells_append opened (spells_append (spells_text ") VALUES ") (spells_grid even))
  have written : r.script = ([.text "INSERT INTO "] ++ r.table.script) ++
      ([.text " ("] ++ Script.names r.columns) ++
      ([.text ") VALUES "] ++ Script.separated ", " (r.rows.map Rows.rowScript)) := by
    rw [Rows.script, sound]
    rfl
  rw [written, whole.spelled]
  simp only [Dialect.gridText, Nat.add_zero, Nat.add_comm 1, String.append_assoc]

end Spelling

theorem built_insert {table : ExprTree} {cs : List (Builder.Call Rows.Edit)} {d : Dialect}
    {b : Built} (built : (Statement.insert (insertOf table cs)).buildWith d = .ok b) :
    b.arguments = (cs.flatMap givenRows).flatten ∧
      b.arguments.length = (cs.flatMap givenRows).length * (lastColumns cs).length ∧
      ∃ t, table.expr = .term t ∧ b.sql = "INSERT INTO " ++ d.termText t ++ " (" ++
        d.nameList (lastColumns cs) ++ ") VALUES " ++
          d.gridText (cs.flatMap givenRows).length (lastColumns cs).length := by
  obtain ⟨whole, arguments, spelled⟩ := built_spelled built
  rw [Statement.script, Insert.script] at whole arguments spelled
  cases state : (insertOf table cs).state with
  | error e =>
    rw [state] at whole
    cases whole
  | ok r =>
    rw [state] at whole arguments spelled
    obtain ⟨term, sameColumns, sameRows⟩ := insertOf_content state
    have fault : r.fault? = none := (rows_failure r).symm.trans whole
    obtain ⟨-, -, even⟩ := (fault_eq_none_iff r).mp fault
    have inOrder : b.arguments = (cs.flatMap givenRows).flatten := by
      rw [arguments, rows_carry r whole, sameRows]
    change b.sql.toList = d.spell 1 r.script.glyphs at spelled
    rw [spell_rows r fault, sameColumns, sameRows] at spelled
    rw [sameColumns, sameRows] at even
    refine ⟨inOrder, ?_, r.table, term, String.toList_inj.mp spelled⟩
    rw [inOrder, List.length_flatten, List.map_congr_left even, List.map_const',
      List.sum_replicate_nat]

/-- An insertion is built exactly when its rows fit the last column list. Otherwise it tells what is
    missing, or the first row that does not fit. -/
theorem inserts_accept_rectangles {table : ExprTree} {cs : List (Builder.Call Rows.Edit)}
    (sound : (insertOf table cs).error? = none) (d : Dialect) :
    let columns := lastColumns cs
    let rows := cs.flatMap givenRows
    let build := (Statement.insert (insertOf table cs)).buildWith d
    ((∃ b, build = .ok b) ↔
      columns ≠ [] ∧ rows ≠ [] ∧ ∀ row ∈ rows, row.length = columns.length) ∧
    (columns = [] → build = .error .missingColumns) ∧
    (columns ≠ [] → rows = [] → build = .error .missingValues) ∧
    (columns ≠ [] → ∀ i row, rows[i]? = some row → row.length ≠ columns.length →
      (∀ earlier ∈ rows.take i, earlier.length = columns.length) →
        build = .error (.rowLength i columns.length row.length)) ∧
    ∀ b, build = .ok b →
      b.arguments = rows.flatten ∧ b.arguments.length = rows.length * columns.length ∧
      ∃ t, table.expr = .term t ∧ b.sql = "INSERT INTO " ++ d.termText t ++ " (" ++
        d.nameList columns ++ ") VALUES " ++ d.gridText rows.length columns.length := by
  intro columns rows build
  obtain ⟨r, state⟩ : ∃ r, (insertOf table cs).state = .ok r := by
    cases state : (insertOf table cs).state with
    | ok r => exact ⟨r, rfl⟩
    | error e =>
      rw [(Builder.error_eq_some_iff _ e).mpr state] at sound
      cases sound
  obtain ⟨term, sameColumns, sameRows⟩ := insertOf_content state
  have written : (Statement.insert (insertOf table cs)).script = r.script := by
    rw [Statement.script, Insert.script, state]
  have told : errorOf build = r.fault? := by
    rw [← rows_failure, ← written]
    exact build_error (plain_insert _) d
  have fails {e : BuildError} (fault : r.fault? = some e) : build = .error e :=
    errorOf_eq_some.mp (told.trans fault)
  rw [Rows.fault?, sameColumns, sameRows] at fails
  refine ⟨?_, ?_, ?_, ?_, ?_⟩
  · rw [← errorOf_eq_none, told, fault_eq_none_iff, sameColumns, sameRows]
  · intro noColumns
    apply fails
    rw [if_pos (List.isEmpty_iff.mpr noColumns)]
  · intro someColumns noRows
    apply fails
    rw [if_neg (mt List.isEmpty_iff.mp someColumns), if_pos (List.isEmpty_iff.mpr noRows)]
  · intro someColumns i row here misfit fit
    have someRows : cs.flatMap givenRows ≠ [] := List.ne_nil_of_mem (List.mem_of_getElem? here)
    apply fails
    rw [if_neg (mt List.isEmpty_iff.mp someColumns), if_neg (mt List.isEmpty_iff.mp someRows),
      misfit_first here misfit fit, Nat.zero_add]
  · exact fun b built => built_insert built

def lateColumns : List (Builder.Call Rows.Edit) := [
  .edit (.values [.int 1, .null]), .edit (.columns ["a"]), .dialect .mysql,
  .edit (.valuesMany [[.text "?", .bool true]]), .edit (.columns ["a", "s.b"])]

theorem last_columns_decide :
    (Statement.insert (insertOf (.term (.name "t")) lateColumns)).buildWith .postgres = .ok
      ⟨"INSERT INTO \"t\" (\"a\", \"s\".\"b\") VALUES ($1, $2), ($3, $4)",
        [.int 1, .null, .text "?", .bool true]⟩ ∧
    (Statement.insert (insertOf (.term (.name "t"))
      (lateColumns ++ [.edit (.values []), .edit (.values [.int 7])]))).buildWith .postgres =
        .error (.rowLength 2 2 0) := by
  have sound : (insertOf (.term (.name "t")) lateColumns).error? = none := rfl
  have ragged : (insertOf (.term (.name "t"))
      (lateColumns ++ [.edit (.values []), .edit (.values [.int 7])])).error? = none := rfl
  constructor
  · obtain ⟨accepted, -, -, -, comesTo⟩ := inserts_accept_rectangles sound .postgres
    obtain ⟨b, built⟩ := accepted.mpr (by decide)
    obtain ⟨arguments, -, t, term, sql⟩ := comesTo b built
    cases term
    have text : b.sql = "INSERT INTO \"t\" (\"a\", \"s\".\"b\") VALUES ($1, $2), ($3, $4)" :=
      sql.trans (by decide)
    rw [built, ← text]
    exact congrArg (fun values => Except.ok (Built.mk b.sql values)) arguments
  · obtain ⟨-, -, -, misfit, -⟩ := inserts_accept_rectangles ragged .postgres
    exact misfit (by decide) 2 [] rfl (by decide) (by decide)

end SqlAssembly
