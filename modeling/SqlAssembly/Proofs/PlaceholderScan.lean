import SqlAssembly.Proofs.TidyStatements

/-! Finding the placeholders again in the finished text. A reader who knows nothing of how it was
   made finds one for every argument, and in the order of the arguments. -/
namespace SqlAssembly

/-- What stands behind each dollar sign: the longest run of digits. -/
def dollarRuns : List Char → List (List Char)
  | [] => []
  | c :: cs => if c = '$' then cs.takeWhile Char.isDigit :: dollarRuns cs else dollarRuns cs

theorem dollarRuns_skip {a : List Char} (absent : '$' ∉ a) (b : List Char) :
    dollarRuns (a ++ b) = dollarRuns b := by
  induction a with
  | nil => rfl
  | cons c a ih =>
    rw [List.mem_cons, not_or] at absent
    have other : c ≠ '$' := Ne.symm absent.1
    simp only [List.cons_append, dollarRuns, other, ↓reduceIte]
    exact ih absent.2

theorem takeWhile_run {p : Char → Bool} {run rest : List Char} (inside : ∀ c ∈ run, p c = true)
    (stop : ∀ c ∈ rest.head?, p c = false) : (run ++ rest).takeWhile p = run := by
  rw [List.takeWhile_append_of_pos inside]
  cases rest with
  | nil => exact List.append_nil run
  | cons c rest => simp [stop c rfl]

theorem digits_isDigit (n : Nat) : ∀ c ∈ digits n, c.isDigit = true :=
  fun _ member => Nat.isDigit_of_mem_toDigits (by decide) (by decide) member

theorem dollar_not_mem_digits (n : Nat) : '$' ∉ digits n := by
  intro member
  exact absurd (digits_isDigit n '$' member) (by decide)

theorem mem_enclosed {q c : Char} {cs : List Char} (h : c ∈ enclosed q cs) : c = q ∨ c ∈ cs := by
  have twice : ∀ cs, c ∈ doubled q cs → c = q ∨ c ∈ cs := by
    intro cs
    induction cs with
    | nil => simp [doubled]
    | cons d cs ih =>
      intro member
      by_cases same : d = q
      · simp only [doubled, same, ↓reduceIte, List.mem_cons] at member ⊢
        rcases member with first | second | later
        · exact .inl first
        · exact .inl second
        · exact (ih later).imp_right .inr
      · simp only [doubled, same, ↓reduceIte, List.mem_cons] at member ⊢
        rcases member with first | later
        · exact .inr (.inl first)
        · exact (ih later).imp_right .inr
  rw [enclosed, List.mem_cons, List.mem_append, List.mem_singleton] at h
  rcases h with first | inside | last
  · exact .inl first
  · exact twice cs inside
  · exact .inl last

/-- Quoting brings in the quote and nothing else. -/
theorem not_mem_quoted {d : Dialect} {c : Char} (other : d.nameQuote ≠ some c) {cs : List Char}
    (absent : c ∉ cs) : c ∉ d.quoted cs := by
  intro member
  unfold Dialect.quoted at member
  split at member
  · rename_i q quote
    rcases mem_enclosed member with same | inside
    · rw [same] at other
      exact other quote
    · exact absent inside
  · exact absent member

theorem not_mem_segment {d : Dialect} {c : Char} (other : d.nameQuote ≠ some c) {cs : List Char}
    (absent : c ∉ cs) : c ∉ d.segment cs := by
  unfold Dialect.segment
  split
  · exact absent
  · exact not_mem_quoted other absent

variable {bad : List Char}

/-- The next thing spelled after a marker does not start with a digit. -/
theorem spell_apart {d : Dialect}
    (known : d.placeholder = .question ∨ d.placeholder = .numbered "$") {gs : List Glyph} (n : Nat)
    (next : ∀ g ∈ gs.head?, Glyph.marker.Precedes g) :
    ∀ c ∈ (d.spell n gs).head?, c.isDigit = false := by
  intro c first
  cases gs with
  | nil => cases first
  | cons g gs =>
    have held := next g rfl
    cases g with
    | char d =>
      cases first
      exact held
    | segment cs => exact absurd held id
    | name cs => exact absurd held id
    | marker =>
      rw [Dialect.spell] at first
      rcases known with plain | dollar
      · rw [plain] at first
        cases first
        rfl
      · rw [dollar] at first
        cases first
        rfl

theorem dollarRuns_spell {gs : List Glyph} (dollar : '$' ∈ bad) (clear : ∀ g ∈ gs, g.Clear bad)
    (apart : gs.IsChain Glyph.Precedes) (n : Nat) :
    dollarRuns (Dialect.postgres.spell n gs) =
      (List.range (gs.count .marker)).map fun i => digits (n + i) := by
  induction gs generalizing n with
  | nil => rfl
  | cons g gs ih =>
    have rest := ih (fun h member => clear h (List.mem_cons_of_mem g member)) apart.tail
    have own := clear g List.mem_cons_self
    cases g with
    | char c =>
      have other : '$' ∉ [c] := by
        intro member
        rw [List.mem_singleton] at member
        exact own (member ▸ dollar)
      rw [List.count_cons_of_ne (by simp)]
      exact (dollarRuns_skip other _).trans (rest n)
    | segment cs =>
      have absent : '$' ∉ Dialect.postgres.segment cs :=
        not_mem_segment (by decide) fun inside => own '$' inside dollar
      rw [List.count_cons_of_ne (by simp)]
      exact (dollarRuns_skip absent _).trans (rest n)
    | name cs =>
      have absent : '$' ∉ Dialect.postgres.quoted cs :=
        not_mem_quoted (by decide) fun inside => own '$' inside dollar
      rw [List.count_cons_of_ne (by simp)]
      exact (dollarRuns_skip absent _).trans (rest n)
    | marker =>
      have next := spell_apart (d := .postgres) (.inr rfl) (n + 1) apart.rel_head?
      have spelled : Dialect.postgres.spell n (.marker :: gs) =
          '$' :: (digits n ++ Dialect.postgres.spell (n + 1) gs) := rfl
      rw [spelled, dollarRuns, if_pos rfl, takeWhile_run (digits_isDigit n) next,
        dollarRuns_skip (dollar_not_mem_digits n), rest (n + 1), List.count_cons_self,
        List.range_succ_eq_map, List.map_cons, List.map_map]
      have shifted (i : Nat) : n + 1 + i = n + (i + 1) := by omega
      simp only [Nat.add_zero, Function.comp_def, shifted]

/-- With plain marks every mark in the text is a marker. -/
theorem count_spell {d : Dialect} (plain : d.placeholder = .question)
    (other : d.nameQuote ≠ some '?') {gs : List Glyph} (question : '?' ∈ bad)
    (clear : ∀ g ∈ gs, g.Clear bad) (n : Nat) :
    (d.spell n gs).count '?' = gs.count .marker := by
  induction gs generalizing n with
  | nil => rfl
  | cons g gs ih =>
    have rest := ih fun h member => clear h (List.mem_cons_of_mem g member)
    have own := clear g List.mem_cons_self
    cases g with
    | char c =>
      have unlike : c ≠ '?' := by
        rintro rfl
        exact own question
      rw [Dialect.spell, List.count_cons_of_ne unlike, List.count_cons_of_ne (by simp), rest]
    | segment cs =>
      have absent : '?' ∉ d.segment cs :=
        not_mem_segment other fun inside => own '?' inside question
      rw [Dialect.spell, List.count_append, List.count_eq_zero.mpr absent,
        List.count_cons_of_ne (by simp), rest, Nat.zero_add]
    | name cs =>
      have absent : '?' ∉ d.quoted cs :=
        not_mem_quoted other fun inside => own '?' inside question
      rw [Dialect.spell, List.count_append, List.count_eq_zero.mpr absent,
        List.count_cons_of_ne (by simp), rest, Nat.zero_add]
    | marker =>
      rw [Dialect.spell, plain, List.count_append, rest, List.count_cons_self]
      exact Nat.add_comm _ _

theorem reserved_placeholders : Reserved ['?', '$'] := ⟨by decide, by simp [special]⟩

/-- A statement that builds returns its values in document order. Where the texts of the caller
    have no marks but those of raw tests, none of them before a digit, the finished text has
    exactly one placeholder for each value: numbered from one on, or as many plain marks. -/
theorem placeholders_match_arguments (t : StatementTree) (d : Dialect) (b : Built)
    (h : t.statement.buildWith d = .ok b) :
    b.arguments = t.values ∧
      (AllClear ['?', '$'] t.texts →
        (d = .postgres →
          dollarRuns b.sql.toList =
            (List.range b.arguments.length).map fun i => digits (i + 1)) ∧
        (d.placeholder = .question → d.nameQuote ≠ some '?' →
          b.sql.toList.count '?' = b.arguments.length)) := by
  constructor
  · exact built_arguments h
  · intro clear
    have tidy := statement_tidy reserved_placeholders clear
    obtain ⟨-, arguments, text⟩ := built_spelled h
    have markers : t.statement.script.glyphs.count .marker = b.arguments.length := by
      rw [arguments]
      exact tidy.balanced
    rw [text, ← markers]
    constructor
    · rintro rfl
      rw [dollarRuns_spell (List.mem_cons_of_mem '?' List.mem_cons_self) tidy.clear tidy.apart 1]
      simp only [Nat.add_comm 1]
    · intro plain other
      exact count_spell plain other List.mem_cons_self tidy.clear 1

/-- A query in the projection, one in a test, a CASE and a raw test, in the order of the text. -/
theorem nested_placeholders_in_order :
    ∃ b : Built, (StatementTree.statement (.select
        [.filter (.case [.otherwise (.int 5),
            .when (.raw "a < ? OR b > ?" [.int 2, .int 3]) (.int 4)]),
          .filter (.memberOf "id" .plain
            [.columns [.term (.name "id")], .filter (.compare "x" .eq (.int 6))]),
          .source (.term (.name "t")),
          .columns [.aliased (.subquery [.filter (.compare "y" .eq (.int 1))]) "n"]])).buildWith
        .postgres = .ok b ∧
      b.arguments = [.int 1, .int 2, .int 3, .int 4, .int 5, .int 6] ∧
      dollarRuns b.sql.toList = [['1'], ['2'], ['3'], ['4'], ['5'], ['6']] := by
  refine ⟨_, rfl, ?_⟩
  obtain ⟨arguments, scan⟩ := placeholders_match_arguments (.select
    [.filter (.case [.otherwise (.int 5),
        .when (.raw "a < ? OR b > ?" [.int 2, .int 3]) (.int 4)]),
      .filter (.memberOf "id" .plain
        [.columns [.term (.name "id")], .filter (.compare "x" .eq (.int 6))]),
      .source (.term (.name "t")),
      .columns [.aliased (.subquery [.filter (.compare "y" .eq (.int 1))]) "n"]]) .postgres _ rfl
  exact ⟨arguments, (scan (by decide)).1 rfl⟩

end SqlAssembly
