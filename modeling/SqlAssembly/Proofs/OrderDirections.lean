import Mathlib.Data.List.DropRight
import SqlAssembly.Proofs.QuotedNames
import SqlAssembly.Proofs.RectangularRows

/-! ORDER BY items. A direction at the end of a text is taken off it together with the blanks in
   front of it, and one direction is written behind what is left, so that no direction is there
   twice. -/
namespace SqlAssembly

/-- The words of a text are what stands between its blanks. -/
def blankWords (cs : List Char) : List (List Char) := (cs.splitOnP isBlank).filter (· ≠ [])

def isDirection (word : List Char) : Bool := (Direction.ofWord? word).isSome

/-- The direction words at the end of a text, the last one first. -/
def closingDirections (cs : List Char) : List (List Char) :=
  (blankWords cs).reverse.takeWhile isDirection

/-- The text is the core, at least one blank, and the direction in letters of any case. -/
def EndsIn (cs core : List Char) (d : Direction) : Prop :=
  ∃ blanks word, blanks ≠ [] ∧ (∀ c ∈ blanks, isBlank c) ∧ sameLetters word d.keyword.toList ∧
    cs = core ++ blanks ++ word

/-- The text is a direction word or ends in one. -/
def Directed (cs : List Char) : Prop := isDirection cs ∨ ∃ core d, EndsIn cs core d

namespace Direction

def suffix : Option Direction → String
  | some d => " " ++ d.keyword
  | none => ""

/-- Written behind the body, the direction is the only direction word at the end. -/
def AloneBehind (way : Direction) (body : String) : Prop :=
  closingDirections (body ++ " " ++ way.keyword).toList = [way.keyword.toList]

end Direction

namespace Dialect

def orderText (d : Dialect) (item : OrderItem) : String :=
  d.termText item.key ++ Direction.suffix item.direction

/-- A quoted name ends a word, and this word is not a direction. A blank or a letter as the quote
    could make one of the name. -/
def SetsNamesApart (d : Dialect) : Prop :=
  ∀ q, d.nameQuote = some q → ¬ isBlank q ∧ q.toLower ≠ 'c'

end Dialect

theorem presets_set_names_apart :
    ∀ d ∈ [Dialect.generic, .mysql, .sqlite, .postgres], d.SetsNamesApart := by
  simp only [List.forall_mem_cons, Dialect.SetsNamesApart]
  refine ⟨?_, ?_, ?_, ?_, nofun⟩ <;> rintro q ⟨⟩ <;> decide

/-! Blanks and letters. -/

theorem toLower_blank {c : Char} (blank : isBlank c) : c.toLower = c := by
  refine dif_neg ?_
  rintro ⟨low, high⟩
  have bounds : 65 ≤ c.toNat ∧ c.toNat ≤ 90 := ⟨low, high⟩
  simp only [isBlank, blankRanges, List.any_cons, List.any_nil, Bool.or_eq_true, Bool.and_eq_true,
    decide_eq_true_eq, Bool.false_eq_true, or_false] at blank
  omega

theorem direction_unblank {word : List Char} {d : Direction}
    (same : sameLetters word d.keyword.toList) : ∀ c ∈ word, ¬ isBlank c := by
  intro c member blank
  have letters : word.map Char.toLower = d.keyword.toList.map Char.toLower := by
    simpa [sameLetters] using same
  have lowered : c ∈ d.keyword.toList.map Char.toLower := by
    rw [← letters, ← toLower_blank blank]
    exact List.mem_map_of_mem member
  have solid : ∀ x ∈ d.keyword.toList.map Char.toLower, ¬ isBlank x := by
    rw [← List.any_eq_false]
    cases d <;> decide
  exact solid c lowered blank

theorem ofWord_eq_some {word : List Char} {d : Direction} :
    Direction.ofWord? word = some d ↔ sameLetters word d.keyword.toList := by
  have apart : sameLetters word "ASC".toList → ¬ sameLetters word "DESC".toList := by
    simp only [sameLetters, beq_iff_eq]
    intro short long
    exact absurd (short.symm.trans long) (by decide)
  rw [Direction.ofWord?]
  cases d <;> by_cases short : sameLetters word "ASC".toList <;>
    by_cases long : sameLetters word "DESC".toList <;>
    simp_all [Direction.keyword]

theorem direction_filled {word : List Char} {d : Direction}
    (same : sameLetters word d.keyword.toList) : word ≠ [] := by
  rintro rfl
  cases d <;> cases same

theorem isDirection_iff {word : List Char} :
    isDirection word ↔ ∃ d : Direction, sameLetters word d.keyword.toList := by
  simp only [isDirection, Option.isSome_iff_exists, ofWord_eq_some]

theorem trimEnd_append {cs blanks : List Char} (blank : ∀ c ∈ blanks, isBlank c) :
    trimEnd (cs ++ blanks) = trimEnd cs := by
  rw [trimEnd, trimEnd, List.reverse_append, List.dropWhile_append_of_pos]
  exact fun c member => blank c (List.mem_reverse.mp member)

theorem trimEnd_solid {cs : List Char} {c : Char} (solid : ¬ isBlank c) :
    trimEnd (cs ++ [c]) = cs ++ [c] := List.rdropWhile_concat_neg isBlank cs c solid

/-- What is trimmed ends in a character that is not blank, and only blanks were cut off. -/
theorem trimEnd_cases (cs : List Char) :
    (∃ blanks, (∀ c ∈ blanks, isBlank c) ∧ cs = trimEnd cs ++ blanks) ∧
      (trimEnd cs = [] ∨ ∃ front c, trimEnd cs = front ++ [c] ∧ ¬ isBlank c) := by
  constructor
  · refine ⟨cs.rtakeWhile isBlank, fun c => List.mem_rtakeWhile_imp, ?_⟩
    exact List.rdropWhile_append_rtakeWhile.symm
  · rcases List.eq_nil_or_concat' (trimEnd cs) with empty | ⟨front, c, ends⟩
    · exact .inl empty
    · refine .inr ⟨front, c, ends, ?_⟩
      have filled : cs.rdropWhile isBlank ≠ [] := by
        change trimEnd cs ≠ []
        rw [ends]
        exact List.append_ne_nil_of_right_ne_nil front (List.cons_ne_nil c [])
      have last := List.rdropWhile_last_not isBlank cs filled
      have same : (cs.rdropWhile isBlank).getLast filled = c := by
        have here : cs.rdropWhile isBlank = front ++ [c] := ends
        simp [here]
      rwa [same] at last

theorem trim_head {cs rest : List Char} {c : Char} (starts : trim cs = c :: rest) :
    ¬ isBlank c := by
  obtain ⟨⟨blanks, -, whole⟩, -⟩ := trimEnd_cases (trimStart cs)
  have kept : cs.dropWhile isBlank = c :: (rest ++ blanks) := by
    change trimEnd (trimStart cs) = c :: rest at starts
    rw [starts] at whole
    exact whole
  have filled : cs.dropWhile isBlank ≠ [] := by simp [kept]
  have head := List.head_dropWhile_not isBlank filled
  have same : (cs.dropWhile isBlank).head filled = c := by simp [kept]
  simpa [same] using head

theorem trim_solid {front rest : List Char} {c e : Char} (starts : ¬ isBlank c) (ends : ¬ isBlank e)
    (both : c :: rest = front ++ [e]) : trim (c :: rest) = c :: rest := by
  rw [trim, trimStart, List.dropWhile_cons_of_neg starts, both]
  exact trimEnd_solid ends

/-! The last blank of a text. -/

theorem last_blank (cs : List Char) :
    (∀ c ∈ cs, ¬ isBlank c) ∨
      ∃ head b last, isBlank b ∧ (∀ c ∈ last, ¬ isBlank c) ∧ cs = head ++ b :: last := by
  induction cs with
  | nil => exact .inl fun c member => nomatch member
  | cons c cs ih =>
    rcases ih with solid | ⟨head, b, last, blank, solid, whole⟩
    · by_cases blank : isBlank c
      · exact .inr ⟨[], c, cs, blank, solid, rfl⟩
      · exact .inl (List.forall_mem_cons.mpr ⟨blank, solid⟩)
    · exact .inr ⟨c :: head, b, last, blank, solid, by rw [whole, List.cons_append]⟩

theorem splitLastBlank_none {cs : List Char} (solid : ∀ c ∈ cs, ¬ isBlank c) :
    splitLastBlank? cs = none := by
  induction cs with
  | nil => rfl
  | cons c cs ih =>
    obtain ⟨first, later⟩ := List.forall_mem_cons.mp solid
    rw [splitLastBlank?, ih later]
    exact if_neg first

theorem splitLastBlank_at (head : List Char) {last : List Char} {b : Char} (blank : isBlank b)
    (solid : ∀ c ∈ last, ¬ isBlank c) :
    splitLastBlank? (head ++ b :: last) = some (head, last) := by
  induction head with
  | nil =>
    rw [List.nil_append, splitLastBlank?, splitLastBlank_none solid]
    exact if_pos blank
  | cons c head ih => rw [List.cons_append, splitLastBlank?, ih]

/-! What is taken off a text. -/

theorem split_found {text : String} {core : List Char} {d : Direction}
    (ends : EndsIn (trim text.toList) core d) :
    splitDirection text = (String.ofList (trimEnd core), some d) := by
  obtain ⟨blanks, word, some, blank, same, whole⟩ := ends
  rcases List.eq_nil_or_concat' blanks with empty | ⟨front, b, rfl⟩
  · exact absurd empty some
  · have split : trim text.toList = (core ++ front) ++ b :: word := by
      rw [whole]
      simp only [List.append_assoc, List.cons_append, List.nil_append]
    have last := splitLastBlank_at (core ++ front) (blank b (by simp))
      (direction_unblank same)
    have front_blank : ∀ c ∈ front, isBlank c := fun c member =>
      blank c (List.mem_append_left [b] member)
    rw [splitDirection, split, last]
    simp only [ofWord_eq_some.mpr same, trimEnd_append front_blank]

theorem split_missing {text : String} (free : ∀ core d, ¬ EndsIn (trim text.toList) core d) :
    splitDirection text = (text, none) := by
  rw [splitDirection]
  rcases last_blank (trim text.toList) with solid | ⟨head, b, last, blank, solid, whole⟩
  · rw [splitLastBlank_none solid]
  · rw [whole, splitLastBlank_at head blank solid]
    cases word : Direction.ofWord? last with
    | none => simp only [word]
    | some d =>
      refine absurd ⟨[b], last, List.cons_ne_nil b [], ?_, ofWord_eq_some.mp word, ?_⟩ (free head d)
      · exact List.forall_mem_singleton.mpr blank
      · rw [whole, List.append_assoc, List.singleton_append]

/-- In front of the direction there is something else than blanks. -/
theorem core_starts {text : String} {core : List Char} {d : Direction}
    (ends : EndsIn (trim text.toList) core d) :
    ∃ c rest, trimEnd core = c :: rest ∧ ¬ isBlank c := by
  obtain ⟨blanks, word, some, blank, -, whole⟩ := ends
  obtain ⟨⟨cut, cut_blank, apart⟩, -⟩ := trimEnd_cases core
  rw [apart] at whole
  cases bare : trimEnd core with
  | cons c rest =>
    rw [bare] at whole
    exact ⟨c, rest, rfl, trim_head whole⟩
  | nil =>
    -- Blanks at the front would have been trimmed off.
    rw [bare, List.nil_append] at whole
    cases front : cut ++ blanks with
    | nil => exact absurd (List.append_eq_nil_iff.mp front).2 some
    | cons c rest =>
      have inside : c ∈ cut ++ blanks := front ▸ List.mem_cons_self
      rw [front] at whole
      have c_blank := (List.mem_append.mp inside).elim (cut_blank c) (blank c)
      exact absurd c_blank (trim_head whole)

theorem core_ends {text : String} {core : List Char} {d : Direction}
    (ends : EndsIn (trim text.toList) core d) :
    ∃ front c, trimEnd core = front ++ [c] ∧ ¬ isBlank c := by
  obtain ⟨c, rest, starts, -⟩ := core_starts ends
  rcases (trimEnd_cases core).2 with empty | last
  · rw [starts] at empty
    cases empty
  · exact last

/-! The direction words at the end. -/

theorem blankWords_append (front last : List Char) {b : Char} (blank : isBlank b) :
    blankWords (front ++ b :: last) = blankWords front ++ blankWords last := by
  rw [blankWords, List.splitOnP_append_cons front last blank, List.filter_append]
  rfl

theorem blankWords_solid {word : List Char} (some : word ≠ []) (solid : ∀ c ∈ word, ¬ isBlank c) :
    blankWords word = [word] := by
  have whole : word.splitOnP isBlank = [word] :=
    List.splitOnP_eq_singleton fun c member => Bool.eq_false_iff.mpr (solid c member)
  simp [blankWords, whole, some]

theorem blankWords_blanks (front : List Char) {blanks : List Char}
    (blank : ∀ c ∈ blanks, isBlank c) : blankWords (front ++ blanks) = blankWords front := by
  induction blanks generalizing front with
  | nil => rw [List.append_nil]
  | cons b blanks ih =>
    obtain ⟨first, later⟩ := List.forall_mem_cons.mp blank
    have none := ih [] later
    rw [List.nil_append] at none
    rw [blankWords_append front blanks first, none]
    exact List.append_nil _

theorem closing_behind (front : List Char) (d : Direction) :
    closingDirections (front ++ ' ' :: d.keyword.toList) =
      d.keyword.toList :: closingDirections front := by
  have same : sameLetters d.keyword.toList d.keyword.toList := by simp [sameLetters]
  have word := blankWords_solid (direction_filled same) (direction_unblank same)
  have known : isDirection d.keyword.toList := isDirection_iff.mpr ⟨d, same⟩
  rw [closingDirections, blankWords_append front _ (by decide), word, List.reverse_append,
    List.reverse_singleton, List.singleton_append, List.takeWhile_cons_of_pos known]
  rfl

theorem closing_solid {front : List Char} {c : Char} (solid : ¬ isBlank c)
    (free : ¬ Directed (front ++ [c])) : closingDirections (front ++ [c]) = [] := by
  rw [closingDirections]
  rcases last_blank (front ++ [c]) with none | ⟨head, b, last, blank, none, whole⟩
  · have alone : ¬ isDirection (front ++ [c]) := fun known => free (.inl known)
    rw [blankWords_solid (by simp) none, List.reverse_singleton, List.takeWhile_cons_of_neg alone]
  · have filled : last ≠ [] := by
      rintro rfl
      have same : c = b := by simpa using congrArg List.getLast? whole
      exact solid (same ▸ blank)
    have other : ¬ isDirection last := by
      intro known
      obtain ⟨d, same⟩ := isDirection_iff.mp known
      refine free (.inr ⟨head, d, [b], last, List.cons_ne_nil b [], ?_, same, ?_⟩)
      · exact List.forall_mem_singleton.mpr blank
      · rw [whole, List.append_assoc, List.singleton_append]
    rw [whole, blankWords_append head last blank, blankWords_solid filled none,
      List.reverse_append, List.reverse_singleton, List.singleton_append,
      List.takeWhile_cons_of_neg other]

theorem closing_undirected {cs : List Char} (free : ¬ Directed (trimEnd cs)) :
    closingDirections cs = [] := by
  obtain ⟨⟨blanks, blank, whole⟩, last⟩ := trimEnd_cases cs
  have words : blankWords cs = blankWords (trimEnd cs) := by
    conv_lhs => rw [whole]
    exact blankWords_blanks (trimEnd cs) blank
  have same : closingDirections cs = closingDirections (trimEnd cs) := by
    rw [closingDirections, words, closingDirections]
  rcases last with empty | ⟨front, c, ends, solid⟩
  · rw [same, empty]
    rfl
  · rw [ends] at free
    rw [same, ends, closing_solid solid free]

theorem alone_behind (way : Direction) {body : String} (free : ¬ Directed (trimEnd body.toList)) :
    way.AloneBehind body := by
  have letters : (body ++ " " ++ way.keyword).toList =
      body.toList ++ ' ' :: way.keyword.toList := by simp
  rw [Direction.AloneBehind, letters, closing_behind, closing_undirected free]

theorem direction_last {front : List Char} {c : Char} {d : Direction}
    (same : sameLetters (front ++ [c]) d.keyword.toList) : c.toLower = 'c' := by
  have letters : (front ++ [c]).map Char.toLower = d.keyword.toList.map Char.toLower := by
    simpa [sameLetters] using same
  have last := congrArg List.getLast? letters
  cases d <;> simpa [Direction.keyword] using last

theorem directed_last {front : List Char} {c : Char} (closes : Directed (front ++ [c])) :
    c.toLower = 'c' := by
  rcases closes with alone | ⟨core, d, blanks, word, -, -, same, whole⟩
  · obtain ⟨d, same⟩ := isDirection_iff.mp alone
    exact direction_last same
  · rcases List.eq_nil_or_concat' word with empty | ⟨before, e, rfl⟩
    · exact absurd empty (direction_filled same)
    · have last : c = e := by simpa using congrArg List.getLast? whole
      exact last ▸ direction_last same

/-! Names. -/

theorem intercalate_last {p : Char → Prop} (separator : List Char) {ls : List (List Char)}
    (some : ls ≠ []) (each : ∀ l ∈ ls, ∃ front c, l = front ++ [c] ∧ p c) :
    ∃ front c, separator.intercalate ls = front ++ [c] ∧ p c := by
  induction ls with
  | nil => exact absurd rfl some
  | cons l ls ih =>
    obtain ⟨first, later⟩ := List.forall_mem_cons.mp each
    cases ls with
    | nil => simpa [List.intercalate] using first
    | cons l' ls =>
      obtain ⟨front, c, ends, holds⟩ := ih (List.cons_ne_nil l' ls) later
      refine ⟨l ++ separator ++ front, c, ?_, holds⟩
      rw [List.intercalate_cons_cons, ends, List.append_assoc, List.append_assoc, List.append_assoc]

theorem qualified_last {d : Dialect} {q : Char} (quoting : d.nameQuote = some q) (cs : List Char) :
    ∃ front c, d.qualified cs = front ++ [c] ∧ (c = q ∨ c = '*') := by
  refine intercalate_last ['.'] (by simpa using segments_ne_nil cs) fun l member => ?_
  obtain ⟨s, -, rfl⟩ := List.mem_map.mp member
  by_cases star : s = ['*']
  · exact ⟨[], '*', by rw [Dialect.segment, if_pos star, star, List.nil_append], .inr rfl⟩
  · refine ⟨q :: doubled q s, q, ?_, .inl rfl⟩
    simp [Dialect.segment, star, Dialect.quoted, quoting, enclosed]

/-- A name that does not end in a direction is not spelled to end in one. -/
theorem undirected_name {d : Dialect} (apart : d.SetsNamesApart) {cs : List Char}
    (free : ¬ Directed (trimEnd cs)) : ¬ Directed (trimEnd (d.qualified cs)) := by
  cases quoting : d.nameQuote with
  | none => rwa [qualified_unquoted quoting]
  | some q =>
    obtain ⟨unblank, other⟩ := apart q quoting
    obtain ⟨before, e, spelled, which⟩ := qualified_last quoting cs
    have known : ¬ isBlank e ∧ e.toLower ≠ 'c' := by
      rcases which with rfl | rfl
      · exact ⟨unblank, other⟩
      · decide
    rw [spelled, trimEnd_solid known.1]
    exact fun closes => known.2 (directed_last closes)

theorem quoteQualified_filled (d : Dialect) {name : String} (filled : name ≠ "") :
    d.quoteQualified name ≠ "" := by
  have letters : name.toList ≠ [] := by simpa using filled
  have spelled : d.qualified name.toList ≠ [] := by
    cases quoting : d.nameQuote with
    | none => rwa [qualified_unquoted quoting]
    | some q =>
      obtain ⟨front, c, ends, -⟩ := qualified_last quoting name.toList
      simp [ends]
  simpa [Dialect.quoteQualified] using spelled

/-! Where an item stands. -/

theorem separated_concat (separator : String) (ss : List Script) :
    ∃ lead, ∀ s, Script.separated separator (ss ++ [s]) = lead ++ s := by
  induction ss with
  | nil => exact ⟨[], fun s => rfl⟩
  | cons t ss ih =>
    obtain ⟨lead, last⟩ := ih
    refine ⟨t ++ .text separator :: lead, fun s => ?_⟩
    cases ss with
    | nil =>
      have here := last s
      simp only [List.nil_append, Script.separated] at here
      simp [Script.separated, ← here]
    | cons u ss =>
      have here := last s
      simp only [List.cons_append] at here
      simp [Script.separated, here]

theorem listClause_filled (keyword : String) {items : List Script} (filled : items ≠ []) :
    listClause keyword items = .text (" " ++ keyword ++ " ") :: Script.separated ", " items := by
  cases items with
  | nil => exact absurd rfl filled
  | cons s items => rfl

theorem ordered_script (q : Query) :
    ∃ lead rest, ∀ item : OrderItem,
      Query.script { q with order := q.order ++ [item] } = lead ++ item.script ++ rest := by
  obtain ⟨before, last⟩ := separated_concat ", " (q.order.map OrderItem.script)
  refine ⟨.text (if q.distinct then "SELECT DISTINCT " else "SELECT ") ::
    (projection (q.columns.map Expr.script) ++ sourceScript q.source ++
      q.joins.flatMap Join.script ++ filterClause "WHERE" (q.filters.map Predicate.operand) ++
      listClause "GROUP BY" (q.groups.map Term.script) ++
      filterClause "HAVING" (q.groupFilters.map Predicate.operand) ++ .text " ORDER BY " :: before),
    countClause "LIMIT" q.limit ++ countClause "OFFSET" q.offset, fun item => ?_⟩
  have filled : q.order.map OrderItem.script ++ [item.script] ≠ [] := by simp
  rw [Query.script_eq, List.map_append, List.map_singleton, listClause_filled "ORDER BY" filled,
    last item.script]
  simp only [List.cons_append, List.append_assoc]
  rfl

theorem edited_script {s : Select} (sound : s.error? = none) :
    ∃ lead rest, ∀ key asked,
      (s.edit (.orderBy (.term key) asked)).script =
        lead ++ (Query.orderItem key asked).script ++ rest := by
  obtain ⟨state, dialect⟩ := s
  cases state with
  | error e => cases sound
  | ok q =>
    obtain ⟨lead, rest, written⟩ := ordered_script q
    exact ⟨lead, rest, fun key asked => written (Query.orderItem key asked)⟩

theorem writes_item (d : Dialect) (item : OrderItem) : item.script.Writes d (d.orderText item) := by
  have key : item.key.script.Writes d (d.termText item.key) := by
    cases item.key with
    | name s => exact writes_qualified s
    | raw s => exact writes_text s
    | call s => exact writes_text s
  refine writes_append key ?_
  cases item.direction with
  | none =>
    intro ctx _
    simp [Direction.suffix, Context.run, Context.append]
  | some way => exact writes_text (" " ++ way.keyword)

theorem orderItem_found {text : String} {core : List Char} {d : Direction}
    (ends : EndsIn (trim text.toList) core d) (asked : Option Direction) :
    Query.orderItem (.name text) asked =
        ⟨.name (String.ofList (trimEnd core)), some (asked.getD d)⟩ ∧
      Query.orderItem (.raw text) asked =
        ⟨.raw (String.ofList (trimEnd core)), some (asked.getD d)⟩ := by
  have split := split_found ends
  cases asked <;> simp [Query.orderItem, OrderItem.ofTerm, split]

theorem orderItem_missing {text : String} (free : ∀ core d, ¬ EndsIn (trim text.toList) core d)
    (asked : Option Direction) :
    Query.orderItem (.name text) asked = ⟨.name text, asked⟩ ∧
      Query.orderItem (.raw text) asked = ⟨.raw text, asked⟩ := by
  have split := split_missing free
  cases asked <;> simp [Query.orderItem, OrderItem.ofTerm, split]

/-- The text of a raw item is split where the item was. -/
theorem orderItem_again (d : Dialect) (text : String) :
    Query.orderItem (.raw (d.orderText (Query.orderItem (.raw text) none))) none =
      Query.orderItem (.raw text) none := by
  by_cases found : ∃ core way, EndsIn (trim text.toList) core way
  · obtain ⟨core, way, ends⟩ := found
    obtain ⟨c, rest, starts, first⟩ := core_starts ends
    have item := (orderItem_found ends none).2
    have written : (d.orderText (Query.orderItem (.raw text) none)).toList =
        trimEnd core ++ ' ' :: way.keyword.toList := by
      rw [item]
      simp [Dialect.orderText, Dialect.termText, Direction.suffix]
    obtain ⟨front, e, last, solid⟩ :
        ∃ front e, way.keyword.toList = front ++ [e] ∧ ¬ isBlank e := by
      cases way with
      | ascending => exact ⟨"AS".toList, 'C', rfl, by decide⟩
      | descending => exact ⟨"DES".toList, 'C', rfl, by decide⟩
    -- Neither end of the written item is a blank, so trimming keeps it as it is.
    have trimmed : trim (trimEnd core ++ ' ' :: way.keyword.toList) =
        trimEnd core ++ ' ' :: way.keyword.toList := by
      have both : c :: (rest ++ ' ' :: way.keyword.toList) =
          (c :: rest ++ ' ' :: front) ++ [e] := by simp [last]
      rw [starts, List.cons_append]
      exact trim_solid first solid both
    have again : EndsIn (trim (d.orderText (Query.orderItem (.raw text) none)).toList)
        (trimEnd core) way := by
      rw [written, trimmed]
      have space : ∀ b ∈ [' '], isBlank b := List.all_eq_true.mp (by decide)
      refine ⟨[' '], way.keyword.toList, by decide, space, by simp [sameLetters], ?_⟩
      rw [List.append_assoc, List.singleton_append]
    have kept : trimEnd (trimEnd core) = trimEnd core := List.rdropWhile_idempotent isBlank core
    rw [(orderItem_found again none).2, item, kept]
  · have free : ∀ core way, ¬ EndsIn (trim text.toList) core way := fun core way ends =>
      found ⟨core, way, ends⟩
    rw [(orderItem_missing free none).2]
    have written : d.orderText ⟨.raw text, none⟩ = text := String.append_empty
    rw [written, (orderItem_missing free none).2]

/-- A text that ends in a direction loses it with the blanks in front, and one direction comes
    behind what is left: the one asked for, else the one found. Any other text stays as it is. -/
theorem one_direction_behind_an_item (text : String) (asked : Option Direction) :
    (∀ s : Select, s.error? = none → ∃ lead rest, ∀ key wanted,
      (s.edit (.orderBy (.term key) wanted)).script =
        lead ++ (Query.orderItem key wanted).script ++ rest) ∧
    (∀ core found, EndsIn (trim text.toList) core found →
      let bare := String.ofList (trimEnd core)
      let way := asked.getD found
      bare ≠ "" ∧
      (∀ d : Dialect, d.quoteQualified bare ≠ "" ∧
        (Query.orderItem (.name text) asked).script.Writes d
          (d.quoteQualified bare ++ " " ++ way.keyword) ∧
        (Query.orderItem (.raw text) asked).script.Writes d (bare ++ " " ++ way.keyword)) ∧
      (¬ Directed bare.toList → way.AloneBehind bare ∧
        ∀ d : Dialect, d.SetsNamesApart → way.AloneBehind (d.quoteQualified bare)) ∧
      ∀ d : Dialect, ¬ Directed (trimEnd (d.quoteQualified bare).toList) →
        way.AloneBehind (d.quoteQualified bare)) ∧
    ((∀ core found, ¬ EndsIn (trim text.toList) core found) → ∀ d : Dialect,
      (Query.orderItem (.name text) asked).script.Writes d
        (d.quoteQualified text ++ Direction.suffix asked) ∧
      (Query.orderItem (.raw text) asked).script.Writes d (text ++ Direction.suffix asked)) ∧
    ∀ d : Dialect, ∃ rendered,
      (Query.orderItem (.raw text) none).script.Writes d rendered ∧
      Query.orderItem (.raw rendered) none = Query.orderItem (.raw text) none := by
  refine ⟨fun s sound => edited_script sound, ?_, ?_, fun d => ?_⟩
  · intro core found ends bare way
    obtain ⟨front, c, last, solid⟩ := core_ends ends
    obtain ⟨named, raw⟩ := orderItem_found ends asked
    have filled : bare ≠ "" := by simp [bare, last]
    refine ⟨filled, fun d => ⟨quoteQualified_filled d filled, ?_, ?_⟩, fun free => ?_, ?_⟩
    · have whole := writes_item d (Query.orderItem (.name text) asked)
      rw [named] at whole ⊢
      rw [String.append_assoc]
      exact whole
    · have whole := writes_item d (Query.orderItem (.raw text) asked)
      rw [raw] at whole ⊢
      rw [String.append_assoc]
      exact whole
    · have kept : trimEnd bare.toList = bare.toList := by
        simp only [bare, String.toList_ofList, last, trimEnd_solid solid]
      rw [← kept] at free
      refine ⟨alone_behind way free, fun d apart => alone_behind way ?_⟩
      rw [Dialect.quoteQualified, String.toList_ofList]
      exact undirected_name apart free
    · exact fun d free => alone_behind way free
  · intro free d
    obtain ⟨named, raw⟩ := orderItem_missing free asked
    rw [named, raw]
    exact ⟨writes_item d ⟨.name text, asked⟩, writes_item d ⟨.raw text, asked⟩⟩
  · exact ⟨d.orderText (Query.orderItem (.raw text) none), writes_item d _, orderItem_again d text⟩

theorem mixed_blanks_are_cut :
    let text := "u.name \u3000desc\t"
    let written := "\"u\".\"name\" ASC"
    (Query.orderItem (.name text) (some .ascending)).script.Writes .postgres written ∧
      closingDirections written.toList = ["ASC".toList] ∧
      ∀ d : Dialect, (Query.orderItem (.raw " DESC ") none).script.Writes d " DESC " := by
  have law := one_direction_behind_an_item "u.name \u3000desc\t" (some .ascending)
  have ends : EndsIn (trim "u.name \u3000desc\t".toList) "u.name".toList .descending :=
    ⟨" \u3000".toList, "desc".toList, by decide, List.all_eq_true.mp (by decide), by decide,
      by decide⟩
  obtain ⟨-, writes, alone, -⟩ := law.2.1 "u.name".toList .descending ends
  have free : ¬ Directed (String.ofList (trimEnd "u.name".toList)).toList := by
    intro closes
    have ends : Directed ("u.nam".toList ++ ['e']) := closes
    exact absurd (directed_last ends) (by decide)
  have apart : Dialect.postgres.SetsNamesApart := presets_set_names_apart _ (by simp)
  refine ⟨(writes .postgres).2.1, (alone free).2 .postgres apart, fun d => ?_⟩
  refine ((one_direction_behind_an_item " DESC " none).2.2.1 ?_ d).2
  rintro core found ⟨blanks, word, some, blank, -, whole⟩
  obtain ⟨b, member⟩ := List.exists_mem_of_ne_nil blanks some
  have inside : b ∈ trim " DESC ".toList := by
    rw [whole]
    exact List.mem_append_left word (List.mem_append_right core member)
  have solid : ∀ c ∈ trim " DESC ".toList, ¬ isBlank c := List.any_eq_false.mp (by decide)
  exact solid b inside (blank b member)

end SqlAssembly
