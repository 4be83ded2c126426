import SqlAssembly.Proofs.PlaceholderReading
import SqlAssembly.Proofs.QuotedNames

/-! Literals read back. A reader of SQL finds in each literal the value that it was written for, and
   it finds the end of the literal. So does the scan for placeholders, which does not know that a
   quote written twice is one. -/
namespace SqlAssembly

def hexValue? (c : Char) : Option Nat :=
  if c.isDigit then some (c.toNat - '0'.toNat)
  else if 'A' ≤ c ∧ c ≤ 'F' then some (c.toNat - 'A'.toNat + 10)
  else if 'a' ≤ c ∧ c ≤ 'f' then some (c.toNat - 'a'.toNat + 10)
  else none

/-- Two digits for each byte, up to the closing quote. -/
def readBytes : List Char → Option (List UInt8 × List Char)
  | [] => none
  | [c] => if c = '\'' then some ([], []) else none
  | c :: d :: cs =>
    if c = '\'' then some ([], d :: cs)
    else do
      let high ← hexValue? c
      let low ← hexValue? d
      let (bytes, rest) ← readBytes cs
      return (UInt8.ofNat (16 * high + low) :: bytes, rest)

def readNatural (cs : List Char) : Option (Nat × List Char) :=
  match cs.takeWhile Char.isDigit with
  | [] => none
  | ds => some (Nat.ofDigitChars 10 ds 0, cs.dropWhile Char.isDigit)

def keyword? (word : List Char) : Option Value :=
  if word = "NULL".toList then some .null
  else if word = "TRUE".toList then some (.bool true)
  else if word = "FALSE".toList then some (.bool false)
  else none

/-- A string, the bytes of a blob, a number with or without a sign, or a word. -/
def readLiteral : List Char → Option (Value × List Char)
  | [] => none
  | c :: cs =>
    if c = '\'' then (undoubled '\'' cs).map fun p => (.text (String.ofList p.1), p.2)
    else if c = 'X' ∧ cs.head? = some '\'' then
      (readBytes cs.tail).map fun p => (.blob p.1, p.2)
    else if c = '-' then (readNatural cs).map fun p => (.int (-p.1), p.2)
    else if c.isDigit then (readNatural (c :: cs)).map fun p => (.int p.1, p.2)
    else
      (keyword? ((c :: cs).takeWhile Char.isAlphanum)).map fun v =>
        (v, (c :: cs).dropWhile Char.isAlphanum)

/-- What can follow a literal without becoming a part of it. -/
def Detached (rest : List Char) : Prop := ∀ c ∈ rest.head?, c ≠ '\'' ∧ c.isAlphanum = false

variable {rest : List Char}

theorem hexValue_digit (n : Nat) (small : n < 16) :
    hexValue? (Nat.digitChar n).toUpper = some n := by
  have all : ∀ n < 16, hexValue? (Nat.digitChar n).toUpper = some n := by decide
  exact all n small

theorem hex_quote (n : Nat) (small : n < 16) : (Nat.digitChar n).toUpper ≠ '\'' := by
  have all : ∀ n < 16, (Nat.digitChar n).toUpper ≠ '\'' := by decide
  exact all n small

theorem readBytes_hexDigits (bytes : List UInt8) (rest : List Char) :
    readBytes (bytes.flatMap hexDigits ++ '\'' :: rest) = some (bytes, rest) := by
  induction bytes with
  | nil => cases rest <;> simp [readBytes]
  | cons b bytes ih =>
    have bound := b.toNat_lt
    have high : b.toNat / 16 < 16 := by omega
    have low : b.toNat % 16 < 16 := Nat.mod_lt _ (by decide)
    have whole : 16 * (b.toNat / 16) + b.toNat % 16 = b.toNat := Nat.div_add_mod b.toNat 16
    simp only [List.flatMap_cons, hexDigits, List.cons_append, List.nil_append, readBytes,
      hex_quote _ high, ↓reduceIte, hexValue_digit _ high, hexValue_digit _ low, ih,
      Option.bind_eq_bind, Option.bind_some, whole, UInt8.ofNat_toNat]
    rfl

theorem readNatural_digits (n : Nat) (stop : ∀ c ∈ rest.head?, c.isDigit = false) :
    readNatural (digits n ++ rest) = some (n, rest) := by
  rw [readNatural, takeWhile_run (digits_isDigit n) stop, dropWhile_run (digits_isDigit n) stop]
  have value : Nat.ofDigitChars 10 (digits n) 0 = n := numeral_digits n
  cases run : digits n with
  | nil => exact absurd run Nat.toDigits_ne_nil
  | cons d ds =>
    rw [run] at value
    simp only [value]

theorem not_digit_of_detached (detached : Detached rest) : ∀ c ∈ rest.head?, c.isDigit = false := by
  intro c first
  have other := (detached c first).2
  rw [Char.isAlphanum, Bool.or_eq_false_iff] at other
  exact other.2

theorem readLiteral_text (s : String) (detached : Detached rest) :
    readLiteral (Value.literal (.text s) ++ rest) = some (.text s, rest) := by
  have apart : ∀ c ∈ rest.head?, c ≠ '\'' := fun c first => (detached c first).1
  have read := undoubled_doubled s.toList apart
  rw [Value.literal, enclosed, List.cons_append, readLiteral, if_pos rfl, List.append_assoc]
  rw [List.singleton_append, read, Option.map_some, String.ofList_toList]

theorem readLiteral_blob (bytes : List UInt8) :
    readLiteral (Value.literal (.blob bytes) ++ rest) = some (.blob bytes, rest) := by
  have read := readBytes_hexDigits bytes rest
  rw [Value.literal, List.cons_append, List.cons_append, readLiteral, if_neg (by decide),
    if_pos ⟨rfl, rfl⟩, List.tail_cons, List.append_assoc]
  rw [List.singleton_append, read, Option.map_some]

theorem readLiteral_natural (n : Nat) (detached : Detached rest) :
    readLiteral (digits n ++ rest) = some (.int n, rest) := by
  have read := readNatural_digits n (not_digit_of_detached detached)
  have inside := digits_isDigit n
  cases run : digits n with
  | nil => exact absurd run Nat.toDigits_ne_nil
  | cons c ds =>
    rw [run] at read inside
    have digit : c.isDigit = true := inside c List.mem_cons_self
    have quote : c ≠ '\'' := by rintro rfl; cases digit
    have blob : c ≠ 'X' := by rintro rfl; cases digit
    have sign : c ≠ '-' := by rintro rfl; cases digit
    rw [List.cons_append] at read ⊢
    rw [readLiteral, if_neg quote, if_neg fun both => blob both.1, if_neg sign, if_pos digit, read]
    rfl

theorem readLiteral_int (n : Int) (detached : Detached rest) :
    readLiteral (Value.literal (.int n) ++ rest) = some (.int n, rest) := by
  cases n with
  | ofNat n => exact readLiteral_natural n detached
  | negSucc n =>
    have read := readNatural_digits (n + 1) (not_digit_of_detached detached)
    rw [Value.literal, signedDigits, List.cons_append, readLiteral, if_neg (by decide),
      if_neg fun both => absurd both.1 (by decide), if_pos rfl, read]
    rfl

theorem readLiteral_word {c : Char} {cs : List Char} {v : Value}
    (known : keyword? (c :: cs) = some v) (word : (c :: cs).all Char.isAlphanum = true)
    (letter : c.isDigit = false) (blob : c ≠ 'X') (detached : Detached rest) :
    readLiteral (c :: cs ++ rest) = some (v, rest) := by
  have letters : ∀ x ∈ c :: cs, x.isAlphanum = true := List.all_eq_true.mp word
  have alphanumeric : c.isAlphanum = true := letters c List.mem_cons_self
  have quote : c ≠ '\'' := by rintro rfl; cases alphanumeric
  have sign : c ≠ '-' := by rintro rfl; cases alphanumeric
  have stop : ∀ c ∈ rest.head?, c.isAlphanum = false := fun c first => (detached c first).2
  have digit : ¬ c.isDigit = true := by simp [letter]
  rw [List.cons_append, readLiteral, if_neg quote, if_neg fun both => blob both.1, if_neg sign,
    if_neg digit, ← List.cons_append, takeWhile_run letters stop, dropWhile_run letters stop, known]
  rfl

/-- The value is read from its literal, and reading stops where the literal ends. -/
theorem readLiteral_literal (v : Value) (notFloat : ∀ x, v ≠ .float x) (detached : Detached rest) :
    readLiteral (v.literal ++ rest) = some (v, rest) := by
  cases v with
  | null => exact readLiteral_word rfl rfl rfl (by decide) detached
  | bool b =>
    cases b with
    | true => exact readLiteral_word rfl rfl rfl (by decide) detached
    | false => exact readLiteral_word rfl rfl rfl (by decide) detached
  | int n => exact readLiteral_int n detached
  | float x => exact absurd rfl (notFloat x)
  | text s => exact readLiteral_text s detached
  | blob bytes => exact readLiteral_blob bytes

/-! The scan for placeholders. -/

/-- Wherever it stands, the text is copied to its end, and what follows is scanned afresh. -/
def CopiedWhole (cs : List Char) : Prop :=
  ∀ values turn rest,
    substitute values turn (Token.scan (cs ++ rest)) =
      cs ++ substitute values turn (Token.scan rest)

theorem copied_append {a b : List Char} (first : CopiedWhole a) (later : CopiedWhole b) :
    CopiedWhole (a ++ b) := by
  intro values turn rest
  rw [List.append_assoc, first, later, List.append_assoc]

theorem copied_plain {cs : List Char} (plain : ∀ c ∈ cs, c ∉ special) : CopiedWhole cs := by
  intro values turn rest
  rw [scan_plain plain, substitute_others]

/-- A quote that is written twice closes a run and opens the next one, so the scan is inside a run
    again, and it is outside only behind the last quote. -/
theorem substitute_doubled (values : List Value) (turn : Nat) (body cs rest : List Char) :
    substitute values turn (Token.scanFrom (.quote body) (doubled '\'' cs ++ '\'' :: rest)) =
      '\'' :: body.reverse ++ (doubled '\'' cs ++
        '\'' :: substitute values turn (Token.scan rest)) := by
  induction cs generalizing body with
  | nil => simp [doubled, Token.scanFrom, substitute, Token.chars, Token.scan]
  | cons c cs ih =>
    by_cases quote : c = '\''
    · have reopened := ih []
      simp [doubled, quote, Token.scanFrom, Token.start, substitute, Token.chars, reopened]
    · have inside := ih (c :: body)
      simp [doubled, quote, Token.scanFrom, inside]

theorem copied_enclosed (cs : List Char) : CopiedWhole (enclosed '\'' cs) := by
  intro values turn rest
  have run := substitute_doubled values turn [] cs rest
  rw [enclosed, List.cons_append, List.append_assoc]
  exact run.trans (by simp)

theorem doubled_of_not_mem {q : Char} {cs : List Char} (absent : q ∉ cs) : doubled q cs = cs := by
  induction cs with
  | nil => rfl
  | cons c cs ih =>
    rw [List.mem_cons, not_or] at absent
    rw [doubled, if_neg (Ne.symm absent.1), ih absent.2]

theorem quote_not_mem_hexDigits (bytes : List UInt8) : '\'' ∉ bytes.flatMap hexDigits := by
  intro member
  obtain ⟨b, -, inside⟩ := List.mem_flatMap.mp member
  have bound := b.toNat_lt
  simp only [hexDigits, List.mem_cons, List.not_mem_nil, or_false] at inside
  rcases inside with high | low
  · exact hex_quote (b.toNat / 16) (by omega) high.symm
  · exact hex_quote (b.toNat % 16) (Nat.mod_lt _ (by decide)) low.symm

theorem digits_plain (n : Nat) : ∀ c ∈ digits n, c ∉ special := by
  intro c member reserved
  have digit := digits_isDigit n c member
  have none : ∀ c ∈ special, c.isDigit = false := by simp [special]
  rw [none c reserved] at digit
  cases digit

theorem copied_literal (v : Value) (notFloat : ∀ x, v ≠ .float x) : CopiedWhole v.literal := by
  cases v with
  | null => exact copied_plain (by simp [Value.literal, special])
  | bool b => cases b <;> exact copied_plain (by simp [Value.literal, special])
  | int n =>
    cases n with
    | ofNat n => exact copied_plain (digits_plain n)
    | negSucc n =>
      have sign : CopiedWhole ['-'] := copied_plain (by simp [special])
      exact copied_append sign (copied_plain (digits_plain (n + 1)))
  | float x => exact absurd rfl (notFloat x)
  | text s => exact copied_enclosed s.toList
  | blob bytes =>
    have lead : CopiedWhole ['X'] := copied_plain (by simp [special])
    have body := copied_enclosed (bytes.flatMap hexDigits)
    rw [enclosed, doubled_of_not_mem (quote_not_mem_hexDigits bytes)] at body
    exact copied_append lead body

/-- Each value but a float is read back from its literal, also where other text follows, so
    different values have different literals. And no placeholder is found in a literal: arguments
    are written into the text behind it as if the literal were not there. -/
theorem literals_stand_for_themselves (v : Value) (notFloat : ∀ x, v ≠ .float x) :
    readLiteral v.literal = some (v, []) ∧
      (∀ rest, Detached rest → readLiteral (v.literal ++ rest) = some (v, rest)) ∧
      (∀ w : Value, (∀ x, w ≠ .float x) → v.literal = w.literal → v = w) ∧
      ∀ (rest : String) (values : List Value),
        interpolate (String.ofList v.literal ++ rest) values =
          String.ofList v.literal ++ interpolate rest values := by
  have whole (v : Value) (notFloat : ∀ x, v ≠ .float x) : readLiteral v.literal = some (v, []) := by
    have nothing : Detached [] := nofun
    have read := readLiteral_literal v notFloat nothing
    rw [List.append_nil] at read
    exact read
  refine ⟨whole v notFloat, fun rest detached => readLiteral_literal v notFloat detached, ?_, ?_⟩
  · intro w other same
    have read := whole v notFloat
    rw [same, whole w other] at read
    exact (congrArg Prod.fst (Option.some.inj read)).symm
  · intro rest values
    rw [interpolate, String.toList_append, String.toList_ofList, copied_literal v notFloat,
      String.ofList_append, interpolate]

/-- The value begins and ends with quotes, and the text behind its literal begins with one. -/
theorem quotes_at_both_ends_are_read_back :
    (∀ x, Value.text "''?$1'" ≠ .float x) ∧
      readLiteral "'''''?$1''', ?".toList = some (.text "''?$1'", ", ?".toList) ∧
      interpolate "'''''?$1''''?', ? $1" [.int 7] = "'''''?$1''''?', 7 7" := by
  have notFloat : ∀ x, Value.text "''?$1'" ≠ .float x := nofun
  obtain ⟨-, read, -, copied⟩ := literals_stand_for_themselves (.text "''?$1'") notFloat
  have detached : Detached ", ?".toList := by
    rintro c ⟨⟩
    decide
  exact ⟨notFloat, read ", ?".toList detached, (copied "'?', ? $1" [.int 7]).trans (by decide)⟩

end SqlAssembly
