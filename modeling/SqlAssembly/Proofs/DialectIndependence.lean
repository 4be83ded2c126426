import SqlAssembly.Proofs.Nesting
import SqlAssembly.Proofs.Payload

/-! A statement is the same in every dialect up to spelling. Queries, insertions, updates and
   deletions ask no dialect for a feature, so each has one rendering, or one error, for all. -/
namespace SqlAssembly

/-- Such a piece exists in every dialect, and its names are spelled segment by segment. -/
def Piece.Plain : Piece → Prop
  | .need _ => False
  | .column _ => False
  | _ => True

def Script.Plain (s : Script) : Prop := ∀ p ∈ s, p.Plain

/-- The context of a rendering that asks for nothing. -/
def Context.spelled (ctx : Context) (r : Rendering) : Context := ctx.extended r.glyphs r.arguments

/-- Whatever the context holds and whatever its dialect, it gets the same pieces or fails with the
    same error. No name is quoted as a whole. -/
def Script.Portable (s : Script) : Prop :=
  (∀ cs, Glyph.name cs ∉ s.glyphs) ∧
    ∀ ctx : Context, Context.finished (ctx.run s) = s.outcome.map ctx.spelled

theorem undemanding_plain : Undemanding Piece.Plain where
  text _ := trivial
  qualified _ := trivial
  failure _ := trivial
  argument _ := trivial

theorem plain_predicate {p : Predicate}
    (h : ∀ s, Part.subquery s ∈ p.parts → (Select.script s).Plain) : p.script.Plain := by
  rw [Predicate.script_eq]
  apply each_flatMap
  intro part inside
  cases part with
  | text sql values => simp [Part.script, Script.Each, Piece.Plain]
  | subquery s => exact undemanding_plain.each_nested (h s inside)

theorem plain_query {q : Query}
    (h : Clausewise (fun e => e.script.Plain) (fun s => (Select.script s).Plain) q) :
    q.script.Plain :=
  undemanding_plain.each_query {
    columns := h.columns
    source := h.source
    joins := h.joins
    filters := fun p inside => plain_predicate (h.filters p inside)
    groupFilters := fun p inside => plain_predicate (h.groupFilters p inside) }

theorem plain_failure (e : BuildError) : Script.Plain [.fail e] := undemanding_plain.each_failure e

theorem plain_hereditary :
    Hereditary (fun e => e.script.Plain) (fun s => (Select.script s).Plain) where
  term t := undemanding_plain.each_of_unloaded (payload_term t)
  subquery _ := undemanding_plain.each_nested
  aliased _ _ h := each_append.mpr ⟨h, undemanding_plain.each_of_unloaded rfl⟩
  failed e _ := plain_failure e
  query _ _ := plain_query

theorem plain_select (s : Select) : s.script.Plain := plain_hereditary.select s

theorem plain_condition (p : Predicate) : p.script.Plain :=
  plain_predicate fun s _ => plain_select s

theorem plain_insert (s : Insert) : s.script.Plain := undemanding_plain.each_insert s

theorem plain_update (s : Update) : s.script.Plain :=
  undemanding_plain.each_update fun _ _ p _ => plain_condition p

theorem plain_delete (s : Delete) : s.script.Plain :=
  undemanding_plain.each_delete fun _ _ p _ => plain_condition p

theorem name_not_mem_dotted (cs : List Char) (name : List Char) :
    Glyph.name name ∉ Glyph.dotted cs := by
  simp only [Glyph.dotted]
  induction segments cs with
  | nil => simp [List.intercalate]
  | cons s rest ih => cases rest <;> simp_all [List.intercalate]

theorem needs_of_plain {s : Script} (h : s.Plain) : s.needs = [] := by
  rw [Script.needs, List.filterMap_eq_nil_iff]
  intro p member
  have plain := h p member
  cases p with
  | need f => exact plain.elim
  | _ => rfl

theorem name_not_mem_of_plain {s : Script} (h : s.Plain) (name : List Char) :
    Glyph.name name ∉ s.glyphs := by
  intro member
  obtain ⟨p, inside, hp⟩ := List.mem_flatMap.mp member
  have plain := h p inside
  cases p with
  | text sql => simp [Piece.glyphs, Glyph.verbatim] at hp
  | qualified n => exact name_not_mem_dotted _ _ hp
  | column n => exact plain
  | fragment sql values =>
    obtain ⟨c, _, same⟩ := List.mem_map.mp hp
    split at same <;> cases same
  | need f => exact plain
  | fail e => simp [Piece.glyphs] at hp

theorem portable_of_plain {s : Script} (h : s.Plain) : s.Portable := by
  constructor
  · exact name_not_mem_of_plain h
  · intro ctx
    have run := Context.finished_run ctx s [] (needs_of_plain h) rfl
    rw [List.append_nil] at run
    rw [run, Script.outcome]
    cases s.failure? with
    | some e => rfl
    | none => simp [Except.bind, Except.map, Context.accept, needs_of_plain h, Context.missing?,
        Context.spelled]

/-- In every statement the failures stand before the demands on the dialect. -/
theorem failures_first (s : Statement) :
    ∃ a b : Script, s.script = a ++ b ∧ a.needs = [] ∧ b.failure? = none := by
  have whole {s : Script} (plain : s.Plain) :
      ∃ a b : Script, s = a ++ b ∧ a.needs = [] ∧ b.failure? = none :=
    ⟨s, [], (List.append_nil s).symm, needs_of_plain plain, rfl⟩
  induction s with
  | select s => exact whole (plain_select s)
  | insert s => exact whole (plain_insert s)
  | update s => exact whole (plain_update s)
  | delete s => exact whole (plain_delete s)
  | upsert u =>
    simp only [Statement.script, Upsert.script]
    have start := plain_insert u.insert
    cases u.conflict with
    | error e => exact whole (each_append.mpr ⟨start, plain_failure e⟩)
    | ok c =>
      by_cases missing : c.target.isEmpty
      · simp only [Conflict.script, missing, ↓reduceIte]
        exact whole (each_append.mpr ⟨start, plain_failure .emptyConflictTarget⟩)
      · refine ⟨_, _, rfl, needs_of_plain start, ?_⟩
        rw [← failure_payload, payload_conflict, if_neg missing]
        cases c.action with
        | keep => rfl
        | overwrite names =>
          change List.findSome? Piece.failure? (names.flatMap _) = none
          rw [List.findSome?_eq_none_iff]
          intro p member
          obtain ⟨name, _, inside⟩ := List.mem_flatMap.mp member
          have named : p = .column name := by simpa using inside
          rw [named]
          rfl
  | returning inner columns own ih =>
    obtain ⟨a, b, same, needless, none⟩ := ih
    refine ⟨a, b ++ Statement.returningScript columns, ?_, needless, ?_⟩
    · rw [Statement.script, same, List.append_assoc]
    · rw [failure_append, none, ← failure_payload, payload_returning]
      rfl

/-- The rendering of a statement is settled before the dialect is known. What a dialect adds is
    how names and markers are spelled, and for upserts and wrapped statements whether it has the
    feature. -/
theorem one_rendering_for_every_dialect :
    (∀ s : Select, s.script.Portable) ∧ (∀ s : Insert, s.script.Portable) ∧
      (∀ s : Update, s.script.Portable) ∧ (∀ s : Delete, s.script.Portable) ∧
      ∀ (s : Statement) (ctx : Context),
        Context.finished (ctx.run s.script) = s.script.outcome.bind ctx.accept := by
  refine ⟨fun s => portable_of_plain (plain_select s), fun s => portable_of_plain (plain_insert s),
    fun s => portable_of_plain (plain_update s), fun s => portable_of_plain (plain_delete s), ?_⟩
  intro s ctx
  obtain ⟨a, b, same, needless, none⟩ := failures_first s
  rw [same]
  exact Context.finished_run ctx a b needless none

end SqlAssembly
