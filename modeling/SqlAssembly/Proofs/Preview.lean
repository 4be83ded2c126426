import SqlAssembly.Proofs.PlaceholderScan

/-! Previews. The placeholders that were spelled for the arguments are found again in the finished
   text, each in its turn, and nothing else is taken for one. -/
namespace SqlAssembly

/-- A preview knows the placeholders, and no quoted name looks like one or opens a literal. -/
structure Dialect.Legible (d : Dialect) : Prop where
  known : d.placeholder = .question ∨ d.placeholder = .numbered "$"
  apart : ∀ c ∈ special, d.nameQuote ≠ some c

/-- The glyphs spelled with the given texts for the markers, one after the other. -/
def Dialect.filled (d : Dialect) : List (List Char) → List Glyph → List Char
  | _, [] => []
  | texts, .char c :: gs => c :: d.filled texts gs
  | texts, .segment cs :: gs => d.segment cs ++ d.filled texts gs
  | texts, .name cs :: gs => d.quoted cs ++ d.filled texts gs
  | texts, .marker :: gs => texts.headD [] ++ d.filled texts.tail gs

def Placeholder.token : Placeholder → Nat → Token
  | .question, _ => .mark
  | .numbered _, n => .numbered (digits n)

/-- The tokens of what is spelled from number n on. -/
def Dialect.tokens (d : Dialect) : Nat → List Glyph → List Token
  | _, [] => []
  | n, .char c :: gs => .other c :: d.tokens n gs
  | n, .segment cs :: gs => (d.segment cs).map .other ++ d.tokens n gs
  | n, .name cs :: gs => (d.quoted cs).map .other ++ d.tokens n gs
  | n, .marker :: gs => d.placeholder.token n :: d.tokens (n + 1) gs

def Dialect.placeholders (d : Dialect) (n count : Nat) : List (List Char) :=
  (List.range' n count).map d.placeholder.chars

variable {d : Dialect} {gs : List Glyph}

/-- Spelling fills the markers with the placeholders in a row. -/
theorem spell_eq_filled (n : Nat) :
    d.spell n gs = d.filled (d.placeholders n (gs.count .marker)) gs := by
  induction gs generalizing n with
  | nil => rfl
  | cons g gs ih =>
    cases g with
    | marker =>
      rw [Dialect.spell, ih, List.count_cons_self, Dialect.placeholders, Dialect.placeholders,
        List.range'_succ]
      rfl
    | _ =>
      rw [Dialect.spell, ih, List.count_cons_of_ne (by simp)]
      rfl

/-! Finding the placeholders. -/

theorem start_plain {c : Char} (plain : c ∉ special) : Token.start c = ([.other c], .plain) := by
  simp only [special, List.mem_cons, List.not_mem_nil, or_false, not_or] at plain
  obtain ⟨question, dollar, quote⟩ := plain
  simp only [Token.start, question, dollar, quote, ↓reduceIte]

theorem scan_plain {cs : List Char} (plain : ∀ c ∈ cs, c ∉ special) (rest : List Char) :
    Token.scan (cs ++ rest) = cs.map .other ++ Token.scan rest := by
  induction cs with
  | nil => rfl
  | cons c cs ih =>
    have later := ih fun x member => plain x (List.mem_cons_of_mem c member)
    change (Token.start c).1 ++ Token.scanFrom (Token.start c).2 (cs ++ rest) = _
    rw [start_plain (plain c List.mem_cons_self)]
    exact congrArg (Token.other c :: ·) later

/-- Behind a dollar sign digits are read as long as there are any. -/
theorem scan_digits {run rest : List Char} (inside : ∀ c ∈ run, c.isDigit = true)
    (stop : ∀ c ∈ rest.head?, c.isDigit = false) (before : List Char) :
    Token.scanFrom (.dollar before) (run ++ rest) =
      Token.ofDollar (before.reverse ++ run) :: Token.scan rest := by
  induction run generalizing before with
  | nil =>
    rw [List.append_nil]
    cases rest with
    | nil => rfl
    | cons c rest =>
      have other : c.isDigit = false := stop c rfl
      simp only [List.nil_append, Token.scanFrom, other, Bool.false_eq_true, ↓reduceIte]
      rfl
  | cons c run ih =>
    have digit : c.isDigit = true := inside c List.mem_cons_self
    have later := ih (fun x member => inside x (List.mem_cons_of_mem c member)) (c :: before)
    simp only [List.cons_append, Token.scanFrom, digit, ↓reduceIte, later, List.reverse_cons,
      List.append_assoc, List.nil_append]

theorem scan_placeholder (known : d.placeholder = .question ∨ d.placeholder = .numbered "$")
    (n : Nat) {rest : List Char} (stop : ∀ c ∈ rest.head?, c.isDigit = false) :
    Token.scan (d.placeholder.chars n ++ rest) = d.placeholder.token n :: Token.scan rest := by
  rcases known with plain | dollar
  · rw [plain]
    rfl
  · have read := scan_digits (digits_isDigit n) stop []
    have some : digits n ≠ [] := Nat.toDigits_ne_nil
    rw [Token.ofDollar, List.reverse_nil, List.nil_append, if_neg some] at read
    rw [dollar]
    exact read

/-- The placeholders come back as tokens of their own, and all other text as single characters. -/
theorem scan_spell (legible : d.Legible) (clear : ∀ g ∈ gs, g.Clear special)
    (apart : gs.IsChain Glyph.Precedes) (n : Nat) :
    Token.scan (d.spell n gs) = d.tokens n gs := by
  induction gs generalizing n with
  | nil => rfl
  | cons g gs ih =>
    have own := clear g List.mem_cons_self
    have rest := ih (fun h member => clear h (List.mem_cons_of_mem g member)) apart.tail
    cases g with
    | char c =>
      have plain : ∀ x ∈ [c], x ∉ special := by
        intro x member
        rw [List.mem_singleton.mp member]
        exact own
      rw [Dialect.tokens, ← rest n]
      exact scan_plain plain _
    | segment cs =>
      have plain : ∀ c ∈ d.segment cs, c ∉ special := fun c member reserved =>
        not_mem_segment (legible.apart c reserved) (fun inside => own c inside reserved) member
      rw [Dialect.spell, scan_plain plain, rest, Dialect.tokens]
    | name cs =>
      have plain : ∀ c ∈ d.quoted cs, c ∉ special := fun c member reserved =>
        not_mem_quoted (legible.apart c reserved) (fun inside => own c inside reserved) member
      rw [Dialect.spell, scan_plain plain, rest, Dialect.tokens]
    | marker =>
      have next := spell_apart legible.known (n + 1) apart.rel_head?
      rw [Dialect.spell, scan_placeholder legible.known n next, rest, Dialect.tokens]

/-! Putting the arguments in. -/

theorem numeral_digits (n : Nat) : numeral (digits n) = n := Nat.ofDigitChars_ten_toDigits

theorem substitute_others (values : List Value) (turn : Nat) (cs : List Char) (ts : List Token) :
    substitute values turn (cs.map .other ++ ts) = cs ++ substitute values turn ts := by
  induction cs with
  | nil => rfl
  | cons c cs ih => exact congrArg (c :: ·) ih

/-- One placeholder of number n + 1 becomes the literal of the argument after the first n. -/
theorem substitute_token {values : List Value} {n turn : Nat} {v : Value}
    (turns : d.placeholder = .question → turn = n) (here : values[n]? = some v) (ts : List Token) :
    ∃ turn', (d.placeholder = .question → turn' = n + 1) ∧
      substitute values turn (d.placeholder.token (n + 1) :: ts) =
        v.literal ++ substitute values turn' ts := by
  cases words : d.placeholder with
  | question =>
    refine ⟨turn + 1, fun _ => by rw [turns words], ?_⟩
    rw [Placeholder.token, substitute, turns words, here]
    rfl
  | numbered lead =>
    refine ⟨turn, nofun, ?_⟩
    rw [Placeholder.token, substitute, numeral_digits, argument?, here]
    rfl

/-- Only plain marks go by turns, so only for them the turn has to be right. -/
theorem substitute_tokens {values : List Value} {n turn : Nat}
    (turns : d.placeholder = .question → turn = n)
    (enough : n + gs.count .marker ≤ values.length) :
    substitute values turn (d.tokens (n + 1) gs) =
      d.filled ((values.drop n).map Value.literal) gs := by
  induction gs generalizing n turn with
  | nil => rfl
  | cons g gs ih =>
    cases g with
    | char c =>
      rw [List.count_cons_of_ne (by simp)] at enough
      exact congrArg (c :: ·) (ih turns enough)
    | segment cs =>
      rw [List.count_cons_of_ne (by simp)] at enough
      rw [Dialect.tokens, substitute_others, ih turns enough]
      rfl
    | name cs =>
      rw [List.count_cons_of_ne (by simp)] at enough
      rw [Dialect.tokens, substitute_others, ih turns enough]
      rfl
    | marker =>
      rw [List.count_cons_self] at enough
      have inside : n < values.length := by omega
      obtain ⟨turn', turns', taken⟩ := substitute_token turns (List.getElem?_eq_getElem inside)
        (d.tokens (n + 1 + 1) gs)
      rw [Dialect.tokens, taken, ih turns' (by omega), List.drop_eq_getElem_cons inside]
      rfl

/-- The names look the same in two dialects that quote alike. -/
theorem filled_alike {d d' : Dialect} (quote : d.nameQuote = d'.nameQuote)
    (texts : List (List Char)) (gs : List Glyph) : d.filled texts gs = d'.filled texts gs := by
  have quoted (cs : List Char) : d.quoted cs = d'.quoted cs := by
    rw [Dialect.quoted, quote, Dialect.quoted]
  have segment (cs : List Char) : d.segment cs = d'.segment cs := by
    rw [Dialect.segment, quoted, Dialect.segment]
  induction gs generalizing texts with
  | nil => rfl
  | cons g gs ih =>
    cases g with
    | char c => exact congrArg (c :: ·) (ih texts)
    | segment cs => rw [Dialect.filled, segment, ih, Dialect.filled]
    | name cs => rw [Dialect.filled, quoted, ih, Dialect.filled]
    | marker => exact congrArg (texts.headD [] ++ ·) (ih texts.tail)

/-- The literals stand where the placeholders stood. -/
theorem interpolate_built {t : StatementTree} (clear : AllClear special t.texts)
    (legible : d.Legible) {b : Built} (h : t.statement.buildWith d = .ok b) :
    t.statement.script.glyphs.count .marker = b.arguments.length ∧
      b.sql.toList = d.filled (d.placeholders 1 b.arguments.length) t.statement.script.glyphs ∧
      (interpolate b.sql b.arguments).toList =
        d.filled (b.arguments.map Value.literal) t.statement.script.glyphs := by
  have tidy := statement_tidy ⟨List.mem_cons_self, List.Subset.refl special⟩ clear
  obtain ⟨-, arguments, text⟩ := built_spelled h
  have markers : t.statement.script.glyphs.count .marker = b.arguments.length := by
    rw [arguments]
    exact tidy.balanced
  refine ⟨markers, ?_, ?_⟩
  · rw [text, spell_eq_filled, markers]
  · have enough : 0 + t.statement.script.glyphs.count .marker ≤ b.arguments.length := by omega
    rw [interpolate, String.toList_ofList, text, scan_spell legible tidy.clear tidy.apart 1,
      substitute_tokens (fun _ => rfl) enough, List.drop_zero]

/-- What a preview of the statement gives where the dialect is the one chosen for it, or where none
    was chosen and it is the default. -/
def Statement.PreviewedIn (s : Statement) (d : Dialect) (x : String) : Prop :=
  ∃ s' p, (s' = s ∨ s' = s.withDialect d) ∧ s'.dialectFor p = d ∧ s'.preview p = .ok x

theorem previewed_in {s : Statement} {x : String} (h : s.PreviewedIn d x) :
    ∃ b, s.buildWith d = .ok b ∧ x = interpolate b.sql b.arguments := by
  obtain ⟨s', p, same, resolved, previewed⟩ := h
  have script : s'.script = s.script := by
    rcases same with rfl | rfl
    · rfl
    · exact Statement.script_withDialect s d
  obtain ⟨b, built, rfl⟩ := map_eq_ok previewed
  rw [Statement.build, resolved, Statement.buildWith, script] at built
  exact ⟨b, built, rfl⟩

/-- Whatever the values are: a statement whose texts have no quote, dollar sign or mark but the
    marks of raw tests, none of them before a digit, is previewed as its text with the literals of
    the arguments in the place of the placeholders, in order. Dialects that quote alike give the
    same preview. -/
theorem preview_puts_arguments_in_place (t : StatementTree) (clear : AllClear special t.texts) :
    (∀ d : Dialect, d.Legible → ∀ b, t.statement.buildWith d = .ok b →
      t.statement.script.glyphs.count .marker = b.arguments.length ∧
        b.sql.toList = d.filled (d.placeholders 1 b.arguments.length) t.statement.script.glyphs ∧
        (interpolate b.sql b.arguments).toList =
          d.filled (b.arguments.map Value.literal) t.statement.script.glyphs) ∧
      ∀ d d' : Dialect, d.Legible → d'.Legible → d.nameQuote = d'.nameQuote →
        ∀ x x', t.statement.PreviewedIn d x → t.statement.PreviewedIn d' x' → x = x' := by
  constructor
  · intro d legible b built
    exact interpolate_built clear legible built
  · intro d d' legible legible' quote x x' first second
    obtain ⟨b, built, rfl⟩ := previewed_in first
    obtain ⟨b', built', rfl⟩ := previewed_in second
    have same : b.arguments = b'.arguments := by
      rw [built_arguments built, built_arguments built']
    obtain ⟨-, -, text⟩ := interpolate_built clear legible built
    obtain ⟨-, -, text'⟩ := interpolate_built clear legible' built'
    apply String.toList_injective
    rw [text, text', same, filled_alike quote]

/-- The tenth placeholder begins like the first, and the last two values look like a placeholder and
    like the end of a literal. -/
theorem misleading_values_are_previewed_in_place :
    ∃ b, (StatementTree.statement (.select [.source (.term (.name "t")),
        .filter (.member "n" .plain ((List.range 9).map fun i => .int i)),
        .filter (.raw "a = ? AND b = ?" [.text "$1", .text "?'"])])).buildWith .postgres = .ok b ∧
      interpolate b.sql b.arguments =
        "SELECT * FROM \"t\" WHERE n IN (0, 1, 2, 3, 4, 5, 6, 7, 8) AND " ++
          "a = '$1' AND b = '?'''" := by
  have legible : Dialect.postgres.Legible := ⟨.inr rfl, by simp [special, Dialect.postgres]⟩
  obtain ⟨inPlace, -⟩ := preview_puts_arguments_in_place (.select [.source (.term (.name "t")),
    .filter (.member "n" .plain ((List.range 9).map fun i => .int i)),
    .filter (.raw "a = ? AND b = ?" [.text "$1", .text "?'"])]) (by decide)
  obtain ⟨-, -, text⟩ := inPlace .postgres legible _ rfl
  exact ⟨_, rfl, String.toList_injective (text.trans (by decide))⟩

end SqlAssembly
