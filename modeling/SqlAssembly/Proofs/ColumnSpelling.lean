import SqlAssembly.Proofs.QuotedNames
import SqlAssembly.Proofs.RectangularRows

/-! Columns in an upsert. The column list and the conflict target spell a name segment by segment,
   the assignments behind them quote it as a whole. Both spellings of a name are the same when it
   has no dots and is not a star, and in a dialect without quotes. -/
namespace SqlAssembly

variable {d : Dialect} {q : Char} {s : List Char}

theorem segments_dotless (dotless : '.' ∉ s) : segments s = [s] := by
  induction s with
  | nil => rfl
  | cons c s ih =>
    rw [List.mem_cons, not_or] at dotless
    rw [segments, if_neg (Ne.symm dotless.1), ih dotless.2]

theorem segments_dot (dotless : '.' ∉ s) (rest : List Char) :
    segments (s ++ '.' :: rest) = s :: segments rest := by
  induction s with
  | nil => rfl
  | cons c s ih =>
    rw [List.mem_cons, not_or] at dotless
    rw [List.cons_append, segments, if_neg (Ne.symm dotless.1), ih dotless.2]

theorem qualified_dot (dotless : '.' ∉ s) (rest : List Char) :
    d.qualified (s ++ '.' :: rest) = d.segment s ++ '.' :: d.qualified rest := by
  rw [Dialect.qualified, Dialect.qualified, segments_dot dotless]
  cases parts : segments rest with
  | nil => exact absurd parts (segments_ne_nil rest)
  | cons t ts =>
    rw [List.map_cons, List.map_cons, List.intercalate_cons_cons, List.append_assoc]
    rfl

theorem quoted_dot (quote : d.nameQuote = some q) (dot : q ≠ '.') (s rest : List Char) :
    d.quoted (s ++ '.' :: rest) = q :: (doubled q s ++ '.' :: (doubled q rest ++ [q])) := by
  simp [quoted_enclosed quote, enclosed, doubled_append, doubled, Ne.symm dot]

/-- At the first dot the one spelling closes the quotes and the other one does not. -/
theorem spelled_apart (quote : d.nameQuote = some q) (dot : q ≠ '.') (dotless : '.' ∉ s)
    (rest : List Char) : d.quoted (s ++ '.' :: rest) ≠ d.qualified (s ++ '.' :: rest) := by
  rw [quoted_dot quote dot, qualified_dot dotless]
  intro same
  -- A star in front of the dot is not quoted, so there the texts differ at once.
  by_cases star : s = ['*']
  · rw [Dialect.segment, if_pos star, star] at same
    obtain ⟨first, later⟩ := List.cons.inj same
    rw [first] at later
    exact absurd (List.cons.inj later).1 (by decide)
  · rw [Dialect.segment, if_neg star, quoted_enclosed quote, enclosed, List.cons_append,
      List.append_assoc] at same
    have behind := List.append_cancel_left (List.cons.inj same).2
    exact dot (List.cons.inj behind).1.symm

theorem quoted_star (quote : d.nameQuote = some q) : d.quoted ['*'] ≠ ['*'] := by
  rw [quoted_enclosed quote]
  intro same
  have lengths := congrArg List.length same
  simp [enclosed] at lengths

theorem qualified_star : d.qualified ['*'] = ['*'] := by
  simp [Dialect.qualified, segments, Dialect.segment]

theorem quoted_of_dotless {cs : List Char} (dotless : '.' ∉ cs) (star : cs ≠ ['*']) :
    d.quoted cs = d.qualified cs := by
  rw [Dialect.qualified, segments_dotless dotless, List.map_singleton, List.intercalate_singleton,
    Dialect.segment, if_neg star]

theorem quoteName_of_plain {name : String}
    (plain : d.nameQuote = none ∨ '.' ∉ name.toList ∧ name ≠ "*") :
    d.quoteName name = d.quoteQualified name := by
  rw [Dialect.quoteName, Dialect.quoteQualified]
  rcases plain with unquoted | ⟨dotless, other⟩
  · rw [qualified_unquoted unquoted, Dialect.quoted, unquoted]
  · have star : name.toList ≠ ['*'] := fun same => other (String.toList_inj.mp same)
    rw [quoted_of_dotless dotless star]

/-- With a dot as the quote some other names are spelled alike by chance. -/
theorem quoteName_eq_iff (dot : d.nameQuote ≠ some '.') (name : String) :
    d.quoteName name = d.quoteQualified name ↔
      d.nameQuote = none ∨ '.' ∉ name.toList ∧ name ≠ "*" := by
  constructor
  · intro same
    have letters : d.quoted name.toList = d.qualified name.toList := String.ofList_injective same
    cases quote : d.nameQuote with
    | none => exact .inl rfl
    | some q =>
      have other : q ≠ '.' := fun same => dot (same ▸ quote)
      refine .inr ⟨?_, ?_⟩
      · intro dotted
        obtain ⟨s, rest, split, dotless⟩ := List.eq_append_cons_of_mem dotted
        rw [split] at letters
        exact spelled_apart quote other dotless rest letters
      · rintro rfl
        exact quoted_star quote (letters.trans qualified_star)
  · exact quoteName_of_plain

theorem conflictText_overwrite {c : Conflict} {names : List String}
    (overwrites : c.action = .overwrite names) :
    d.conflictText c = " ON CONFLICT (" ++ d.nameList c.target ++ ")" ++ (" DO UPDATE SET " ++
      ", ".intercalate (names.map fun n => d.quoteName n ++ " = excluded." ++ d.quoteName n)) :=
  congrArg (fun action => " ON CONFLICT (" ++ d.nameList c.target ++ ")" ++ d.actionText action)
    overwrites

/-- What is written for a conflict that overwrites columns. The names in the column list, in the
    conflict target and in the assignments can differ, so the spelling of each is stated. -/
theorem assignments_quote_whole_names {table : ExprTree} {cs : List (Builder.Call Rows.Edit)}
    {conflicts : List (Builder.Call Conflict.Edit)} {b : Built} {names : List String}
    (built : (Statement.upsert
      (conflicts.foldl upsertCall { insert := insertOf table cs })).buildWith d = .ok b)
    (overwrites : (Conflict.updated {} conflicts).action = .overwrite names) :
    (∃ t, table.expr = .term t ∧
      b.sql = "INSERT INTO " ++ d.termText t ++ " (" ++ d.nameList (lastColumns cs) ++
        ") VALUES " ++ d.gridText (cs.flatMap givenRows).length (lastColumns cs).length ++
          " ON CONFLICT (" ++ d.nameList (Conflict.updated {} conflicts).target ++ ")" ++
            " DO UPDATE SET " ++ ", ".intercalate
              (names.map fun n => d.quoteName n ++ " = excluded." ++ d.quoteName n)) ∧
    (∀ n : String, d.nameQuote = none ∨ '.' ∉ n.toList ∧ n ≠ "*" →
      d.quoteName n = d.quoteQualified n) ∧
    (d.nameQuote ≠ some '.' → ∀ n : String, d.quoteName n = d.quoteQualified n ↔
      d.nameQuote = none ∨ '.' ∉ n.toList ∧ n ≠ "*") := by
  refine ⟨?_, fun n => quoteName_of_plain, quoteName_eq_iff⟩
  rw [build_upsert] at built
  obtain ⟨inserted, first, rest⟩ := bind_eq_ok built
  obtain ⟨-, -, t, term, text⟩ := built_insert first
  cases refusal : conflictRefusal? d conflicts with
  | some e =>
    rw [refusal] at rest
    cases rest
  | none =>
    rw [refusal] at rest
    cases rest
    have conflict := conflictText_overwrite (d := d) overwrites
    refine ⟨t, term, ?_⟩
    rw [text, conflict]
    simp only [String.append_assoc]

/-! One column in the column list, in the conflict target and in the assignment. -/

def dottedRows : List (Builder.Call Rows.Edit) :=
  [.edit (.columns ["a.b"]), .edit (.values [.int 1])]

def dottedConflict : List (Builder.Call Conflict.Edit) :=
  [.edit (.target ["a.b"]), .edit (.overwrite ["a.b"])]

def dottedUpsert : Statement :=
  .upsert (dottedConflict.foldl upsertCall { insert := insertOf (.term (.name "t")) dottedRows })

theorem dotted_build :
    dottedUpsert.buildWith .sqlite = .ok ⟨"INSERT INTO \"t\" (\"a\".\"b\") VALUES (?)" ++
      " ON CONFLICT (\"a\".\"b\") DO UPDATE SET \"a.b\" = excluded.\"a.b\"", [.int 1]⟩ := by
  decide +kernel

theorem dotted_name_is_spelled_in_two_ways :
    Dialect.sqlite.quoteName "a.b" ≠ Dialect.sqlite.quoteQualified "a.b" ∧
      Dialect.sqlite.quoteName "a" = Dialect.sqlite.quoteQualified "a" := by
  have built : (Statement.upsert (dottedConflict.foldl upsertCall
      { insert := insertOf (.term (.name "t")) dottedRows })).buildWith .sqlite = .ok _ :=
    dotted_build
  have overwrites : (Conflict.updated {} dottedConflict).action = .overwrite ["a.b"] := rfl
  obtain ⟨-, plain, only⟩ := assignments_quote_whole_names built overwrites
  refine ⟨?_, plain "a" (.inr (by decide))⟩
  intro same
  have simple := (only (by decide) "a.b").mp same
  revert simple
  decide

/-- The assignment does not spell the column as the column list does. -/
theorem dotted_assignment_differs :
    ¬ ∀ (table : ExprTree) (cs : List (Builder.Call Rows.Edit))
        (conflicts : List (Builder.Call Conflict.Edit)) (d : Dialect) (b : Built)
        (names : List String),
      (Statement.upsert (conflicts.foldl upsertCall { insert := insertOf table cs })).buildWith d =
          .ok b →
        (Conflict.updated {} conflicts).action = .overwrite names →
          (" DO UPDATE SET " ++ ", ".intercalate (names.map fun n =>
            d.quoteQualified n ++ " = excluded." ++ d.quoteQualified n)).toList <:+
              b.sql.toList := by
  intro every
  have ends := every (.term (.name "t")) dottedRows dottedConflict .sqlite _ ["a.b"] dotted_build
    rfl
  revert ends
  decide +kernel

end SqlAssembly
