import SqlAssembly.Proofs.Preview

/-! What becomes of an arbitrary text when arguments are written into it. There is one way to read
   the text from left to right, each placeholder in it finds its argument or stays, and all else is
   copied. The same comes out of a single pass in which numbers live in machine words. -/
namespace SqlAssembly

/-- A text read from left to right: quoted runs, marks, dollar signs with all the digits behind
    them, and single characters. Only the last quoted run can be unclosed. -/
inductive Reading : List Char → List Token → Prop where
  | nil : Reading [] []
  | quoted {body cs : List Char} {ts : List Token} (inside : '\'' ∉ body) (rest : Reading cs ts) :
      Reading ('\'' :: body ++ '\'' :: cs) (.quoted body true :: ts)
  | unclosed {body : List Char} (inside : '\'' ∉ body) :
      Reading ('\'' :: body) [.quoted body false]
  | mark {cs : List Char} {ts : List Token} (rest : Reading cs ts) :
      Reading ('?' :: cs) (.mark :: ts)
  | numbered {ds cs : List Char} {ts : List Token} (nonempty : ds ≠ [])
      (digits : ∀ c ∈ ds, c.isDigit = true) (maximal : ∀ c ∈ cs.head?, c.isDigit = false)
      (rest : Reading cs ts) : Reading ('$' :: ds ++ cs) (.numbered ds :: ts)
  | other {c : Char} {cs : List Char} {ts : List Token} (quote : c ≠ '\'') (mark : c ≠ '?')
      (dollar : c = '$' → ∀ d ∈ cs.head?, d.isDigit = false) (rest : Reading cs ts) :
      Reading (c :: cs) (.other c :: ts)

/-- The argument of a number, counting from one. -/
def numberedArgument? (values : List Value) (n : Nat) : Option Value :=
  if 1 ≤ n ∧ n ≤ values.length then values[n - 1]? else none

/-- What stands in the output for a token, after the given count of marks. -/
def Token.shown (values : List Value) (marks : Nat) : Token → List Char
  | .mark => literalOr ['?'] values[marks]?
  | .numbered ds => literalOr ('$' :: ds) (numberedArgument? values (Nat.ofDigitChars 10 ds 0))
  | t => t.chars

/-- A machine word holds the numbers up to its limit. -/
def fitting? (limit n : Nat) : Option Nat := if n ≤ limit then some n else none

/-- Digits read into a machine word, every step checked. -/
def word? (limit : Nat) (ds : List Char) : Option Nat :=
  ds.foldlM (fun n c =>
    (fitting? limit (10 * n)).bind fun m => fitting? limit (m + (c.toNat - '0'.toNat))) 0

/-- The text through the next quote, and what follows. -/
def throughQuote : List Char → List Char × List Char
  | [] => ([], [])
  | c :: cs =>
    if c = '\'' then ([c], cs) else (c :: (throughQuote cs).1, (throughQuote cs).2)

theorem throughQuote_length (cs : List Char) : (throughQuote cs).2.length ≤ cs.length := by
  induction cs with
  | nil => exact Nat.le_refl 0
  | cons c cs ih =>
    rw [throughQuote]
    split
    · exact Nat.le_succ cs.length
    · exact Nat.le_succ_of_le ih

/-- The arguments written in on a single pass that looks one character ahead and makes no tokens. -/
def onePass (limit : Nat) (values : List Value) (turn : Nat) : List Char → List Char
  | [] => []
  | c :: cs =>
    if c = '?' then literalOr ['?'] values[turn]? ++ onePass limit values (turn + 1) cs
    else if c = '$' ∧ cs.head?.any Char.isDigit then
      literalOr ('$' :: cs.takeWhile Char.isDigit)
          ((word? limit (cs.takeWhile Char.isDigit)).bind (argument? values)) ++
        onePass limit values turn (cs.dropWhile Char.isDigit)
    else if c = '\'' then
      '\'' :: (throughQuote cs).1 ++ onePass limit values turn (throughQuote cs).2
    else c :: onePass limit values turn cs
termination_by cs => cs.length
decreasing_by
  · simp
  · have := (List.dropWhile_sublist Char.isDigit (l := cs)).length_le
    simp only [List.length_cons]
    omega
  · have := throughQuote_length cs
    simp only [List.length_cons]
    omega
  · simp

/-! The reading. -/

def Token.Mode.Sound : Token.Mode → Prop
  | .plain => True
  | .quote body => '\'' ∉ body
  | .dollar ds => ∀ c ∈ ds, c.isDigit = true

theorem reading_dollar {ds cs : List Char} {ts : List Token} (digits : ∀ c ∈ ds, c.isDigit = true)
    (maximal : ∀ c ∈ cs.head?, c.isDigit = false) (rest : Reading cs ts) :
    Reading ('$' :: (ds ++ cs)) (Token.ofDollar ds :: ts) := by
  cases ds with
  | nil => exact .other (by decide) (by decide) (fun _ => maximal) rest
  | cons d ds => exact .numbered (List.cons_ne_nil d ds) digits maximal rest

theorem reading_start {c : Char} {cs : List Char}
    (later : ∀ m : Token.Mode, m.Sound → Reading (m.pending ++ cs) (Token.scanFrom m cs)) :
    Reading (c :: cs) ((Token.start c).1 ++ Token.scanFrom (Token.start c).2 cs) := by
  rw [Token.start]
  split
  · rename_i quote
    subst quote
    exact later (.quote []) (by simp [Token.Mode.Sound])
  · rename_i quote
    split
    · rename_i dollar
      subst dollar
      exact later (.dollar []) (by simp [Token.Mode.Sound])
    · rename_i dollar
      split
      · rename_i mark
        subst mark
        exact .mark (later .plain trivial)
      · rename_i mark
        exact .other quote mark (fun same => absurd same dollar) (later .plain trivial)

theorem reading_scanFrom (m : Token.Mode) (sound : m.Sound) (cs : List Char) :
    Reading (m.pending ++ cs) (Token.scanFrom m cs) := by
  induction cs generalizing m with
  | nil =>
    cases m with
    | plain => exact .nil
    | quote body =>
      rw [List.append_nil]
      exact .unclosed (by simpa [Token.Mode.Sound] using sound)
    | dollar ds =>
      have digits : ∀ c ∈ ds.reverse, c.isDigit = true :=
        fun c member => sound c (List.mem_reverse.mp member)
      exact reading_dollar digits nofun .nil
  | cons c cs ih =>
    cases m with
    | plain => exact reading_start ih
    | quote body =>
      rw [Token.scanFrom]
      split
      · rename_i closed
        subst closed
        exact .quoted (by simpa [Token.Mode.Sound] using sound) (ih .plain trivial)
      · rename_i inside
        have extended : '\'' ∉ c :: body := by
          rw [List.mem_cons, not_or]
          exact ⟨Ne.symm inside, sound⟩
        have longer := ih (.quote (c :: body)) extended
        simpa [Token.Mode.pending] using longer
    | dollar ds =>
      rw [Token.scanFrom]
      split
      · rename_i digit
        have longer := ih (.dollar (c :: ds)) (List.forall_mem_cons.mpr ⟨digit, sound⟩)
        simpa [Token.Mode.pending] using longer
      · rename_i stop
        have digits : ∀ c ∈ ds.reverse, c.isDigit = true :=
          fun c member => sound c (List.mem_reverse.mp member)
        exact reading_dollar digits (by simpa using stop) (reading_start ih)

theorem scan_inside {body : List Char} (inside : '\'' ∉ body) (before rest : List Char) :
    Token.scanFrom (.quote before) (body ++ rest) =
      Token.scanFrom (.quote (body.reverse ++ before)) rest := by
  induction body generalizing before with
  | nil => rfl
  | cons c body ih =>
    rw [List.mem_cons, not_or] at inside
    have other : c ≠ '\'' := Ne.symm inside.1
    simp [Token.scanFrom, other, ih inside.2]

/-- There is no second way to read a text. -/
theorem scan_of_reading {cs : List Char} {ts : List Token} (read : Reading cs ts) :
    ts = Token.scan cs := by
  induction read with
  | nil => rfl
  | @quoted body cs ts inside rest ih =>
    have scanned := scan_inside inside [] ('\'' :: cs)
    rw [List.append_nil, Token.scanFrom, if_pos rfl, List.reverse_reverse] at scanned
    rw [ih]
    exact scanned.symm
  | @unclosed body inside =>
    have scanned := scan_inside inside [] []
    rw [List.append_nil, List.append_nil, Token.scanFrom, List.reverse_reverse] at scanned
    exact scanned.symm
  | mark rest ih =>
    rw [ih]
    rfl
  | @numbered ds cs ts nonempty digits maximal rest ih =>
    have scanned := scan_digits digits maximal []
    rw [List.reverse_nil, List.nil_append, Token.ofDollar, if_neg nonempty] at scanned
    rw [ih]
    exact scanned.symm
  | @other c cs ts quote mark dollar rest ih =>
    rw [ih]
    by_cases sign : c = '$'
    · subst sign
      exact (scan_digits (List.forall_mem_nil _) (dollar rfl) []).symm
    · have plain : c ∉ special := by simp [special, quote, mark, sign]
      exact (scan_plain (List.forall_mem_singleton.mpr plain) cs).symm

/-! Numbers. -/

theorem fold_grows (n : Nat) (ds : List Char) :
    n ≤ ds.foldl (fun n c => 10 * n + (c.toNat - '0'.toNat)) n := by
  induction ds generalizing n with
  | nil => exact Nat.le_refl n
  | cons c ds ih =>
    have grown := ih (10 * n + (c.toNat - '0'.toNat))
    rw [List.foldl_cons]
    omega

/-- A step that does not fit is not made up for, since numbers only grow. -/
theorem word_eq (limit : Nat) (ds : List Char) : word? limit ds = fitting? limit (numeral ds) := by
  have general (n : Nat) (fits : n ≤ limit) :
      ds.foldlM (fun n c =>
        (fitting? limit (10 * n)).bind fun m => fitting? limit (m + (c.toNat - '0'.toNat))) n =
        fitting? limit (ds.foldl (fun n c => 10 * n + (c.toNat - '0'.toNat)) n) := by
    induction ds generalizing n with
    | nil => exact (if_pos fits).symm
    | cons c ds ih =>
      rw [List.foldlM_cons, List.foldl_cons]
      by_cases next : 10 * n + (c.toNat - '0'.toNat) ≤ limit
      · have tens : 10 * n ≤ limit := by omega
        rw [← ih _ next, fitting?, if_pos tens, Option.bind_some, fitting?, if_pos next]
        rfl
      · have grown := fold_grows (10 * n + (c.toNat - '0'.toNat)) ds
        have stop : (fitting? limit (10 * n)).bind
            (fun m => fitting? limit (m + (c.toNat - '0'.toNat))) = none := by
          rw [fitting?]
          split
          · exact if_neg next
          · rfl
        rw [stop, fitting?, if_neg (by omega)]
        rfl
  exact general 0 (Nat.zero_le limit)

theorem argument_eq (values : List Value) (n : Nat) :
    argument? values n = numberedArgument? values n := by
  cases n with
  | zero => rfl
  | succ n =>
    rw [argument?, numberedArgument?, Nat.add_sub_cancel]
    split
    · rfl
    · exact List.getElem?_eq_none (by omega)

/-- Where a word can count the arguments, a number that it cannot hold has none. -/
theorem word_argument {limit : Nat} {values : List Value} (counts : values.length ≤ limit)
    (ds : List Char) :
    (word? limit ds).bind (argument? values) = argument? values (numeral ds) := by
  rw [word_eq, fitting?]
  split
  · rfl
  · rw [argument_eq, numberedArgument?, if_neg (by omega)]
    rfl

/-! The output. -/

theorem dropWhile_run {p : Char → Bool} {run rest : List Char} (inside : ∀ c ∈ run, p c = true)
    (stop : ∀ c ∈ rest.head?, p c = false) : (run ++ rest).dropWhile p = rest := by
  rw [List.dropWhile_append_of_pos inside]
  cases rest with
  | nil => rfl
  | cons c rest => simp [stop c rfl]

theorem throughQuote_inside {body : List Char} (inside : '\'' ∉ body) (rest : List Char) :
    throughQuote (body ++ rest) = (body ++ (throughQuote rest).1, (throughQuote rest).2) := by
  induction body with
  | nil => rfl
  | cons c body ih =>
    rw [List.mem_cons, not_or] at inside
    have other : c ≠ '\'' := Ne.symm inside.1
    simp [throughQuote, other, ih inside.2]

/-- A pass finds the tokens of the reading one after the other. -/
theorem onePass_of_reading {limit : Nat} {values : List Value} (counts : values.length ≤ limit)
    {cs : List Char} {ts : List Token} (read : Reading cs ts) (turn : Nat) :
    onePass limit values turn cs = substitute values turn ts := by
  induction read generalizing turn with
  | nil => rw [onePass, substitute]
  | @quoted body cs ts inside rest ih =>
    have run : throughQuote (body ++ '\'' :: cs) = (body ++ ['\''], cs) :=
      throughQuote_inside inside ('\'' :: cs)
    rw [List.cons_append, onePass, run, ih]
    simp [substitute, Token.chars]
  | @unclosed body inside =>
    have run := throughQuote_inside inside []
    rw [List.append_nil] at run
    rw [onePass, run, throughQuote, onePass]
    simp [substitute, Token.chars]
  | mark rest ih =>
    rw [onePass, ih]
    rfl
  | @numbered ds cs ts nonempty digits maximal rest ih =>
    have first : (ds ++ cs).head?.any Char.isDigit = true := by
      cases ds with
      | nil => exact absurd rfl nonempty
      | cons d ds => exact digits d List.mem_cons_self
    rw [List.cons_append, onePass, if_neg (by decide), if_pos ⟨rfl, first⟩,
      takeWhile_run digits maximal, dropWhile_run digits maximal, word_argument counts, ih]
    rfl
  | @other c cs ts quote mark dollar rest ih =>
    have alone : ¬(c = '$' ∧ cs.head?.any Char.isDigit = true) := by
      rintro ⟨sign, digit⟩
      cases cs with
      | nil => cases digit
      | cons d cs =>
        have stop : d.isDigit = false := dollar sign d rfl
        rw [List.head?_cons, Option.any_some, stop] at digit
        cases digit
    rw [onePass, if_neg mark, if_neg alone, if_neg quote, ih]
    rfl

theorem substitute_cons (values : List Value) (turn : Nat) (t : Token) (ts : List Token) :
    substitute values turn (t :: ts) =
      t.shown values turn ++ substitute values (turn + [t].count .mark) ts := by
  cases t with
  | numbered ds =>
    rw [substitute, argument_eq]
    rfl
  | mark => rfl
  | quoted body closed => rfl
  | other c => rfl

theorem substitute_eq_shown (values : List Value) (turn : Nat) (ts : List Token) :
    substitute values turn ts =
      (ts.mapIdx fun i t => t.shown values (turn + (ts.take i).count .mark)).flatten := by
  induction ts generalizing turn with
  | nil => rfl
  | cons t ts ih =>
    have counted (i : Nat) : (t :: ts.take i).count .mark =
        [t].count .mark + (ts.take i).count .mark := by
      rw [← List.count_append, List.singleton_append]
    rw [substitute_cons, ih, List.mapIdx_cons, List.flatten_cons]
    simp only [List.take_succ_cons, counted, Nat.add_assoc]
    rfl

theorem shown_nothing (marks : Nat) (t : Token) : t.shown [] marks = t.chars := by
  cases t with
  | numbered ds =>
    have missing (n : Nat) : numberedArgument? [] n = none := by
      rw [numberedArgument?, List.length_nil]
      exact if_neg (by omega)
    rw [Token.shown, missing]
    rfl
  | mark => rfl
  | quoted body closed => rfl
  | other c => rfl

theorem substitute_nothing (turn : Nat) (ts : List Token) :
    substitute [] turn ts = ts.flatMap Token.chars := by
  induction ts generalizing turn with
  | nil => rfl
  | cons t ts ih => rw [substitute_cons, shown_nothing, ih, List.flatMap_cons]

/-- A text has one reading. In the output each quoted run and each other character stands as it was,
    each mark has turned into the argument of its turn and each numbered placeholder into the
    argument of its number, or stands as it was if there is none. A pass with machine words that can
    count the arguments gives the same, and without arguments the text does not change. -/
theorem placeholders_are_read_once (sql : String) (values : List Value) :
    (∃ ts, Reading sql.toList ts ∧ (∀ us, Reading sql.toList us → us = ts) ∧
      (interpolate sql values).toList =
        (ts.mapIdx fun i t => t.shown values ((ts.take i).count .mark)).flatten) ∧
      (∀ limit, values.length ≤ limit →
        onePass limit values 0 sql.toList = (interpolate sql values).toList) ∧
      interpolate sql [] = sql := by
  have read : Reading sql.toList (Token.scan sql.toList) :=
    reading_scanFrom .plain trivial sql.toList
  refine ⟨⟨_, read, fun us other => scan_of_reading other, ?_⟩, fun limit counts => ?_, ?_⟩
  · rw [interpolate, String.toList_ofList, substitute_eq_shown]
    simp only [Nat.zero_add]
  · rw [interpolate, String.toList_ofList, onePass_of_reading counts read]
  · rw [interpolate, substitute_nothing, Token.scan_chars, String.ofList_toList]

/-- The first number would be one again if it wrapped around. The literal of the second argument
    looks like placeholders itself, and the third mark has no argument. -/
theorem wide_numbers_stay_as_written :
    [Value.int 5, .text "?'$1"].length ≤ 18446744073709551615 ∧
      onePass 18446744073709551615 [.int 5, .text "?'$1"] 0
          "? $18446744073709551617 $002 '?' $0 ? ? $ 'a $1".toList =
        "5 $18446744073709551617 '?''$1' '?' $0 '?''$1' ? $ 'a $1".toList := by
  obtain ⟨-, pass, -⟩ := placeholders_are_read_once
    "? $18446744073709551617 $002 '?' $0 ? ? $ 'a $1" [.int 5, .text "?'$1"]
  have counts : [Value.int 5, .text "?'$1"].length ≤ 18446744073709551615 := by decide
  exact ⟨counts, (pass 18446744073709551615 counts).trans (by decide)⟩

end SqlAssembly
