import Mathlib.Data.List.Chain
import SqlAssembly.Proofs.DocumentOrder

/-! Scripts in which the markers stand out: reserved characters come from nowhere else, no digit
   follows a marker directly, and there is a marker for every argument. The texts of the library
   itself keep to this, so it is enough that those of the caller do. -/
namespace SqlAssembly

/-- Characters that a reader of the finished text may give a meaning to. -/
def special : List Char := ['?', '$', '\'']

structure Reserved (bad : List Char) : Prop where
  question : '?' ∈ bad
  only : bad ⊆ special

def ClearText (bad : List Char) (sql : String) : Prop := ∀ c ∈ sql.toList, c ∉ bad

/-- Text with marks, none of which a digit follows directly. -/
structure MarkedText (bad : List Char) (sql : String) : Prop where
  clear : ∀ c ∈ sql.toList, c = '?' ∨ c ∉ bad
  apart : sql.toList.IsChain fun a b => a = '?' → b.isDigit = false

instance (bad : List Char) (sql : String) : Decidable (ClearText bad sql) :=
  decidable_of_iff (sql.toList.all fun c => !bad.contains c) (by simp [ClearText])

instance (bad : List Char) (sql : String) : Decidable (MarkedText bad sql) :=
  decidable_of_iff ((sql.toList.all fun c => c == '?' || !bad.contains c) ∧
    sql.toList.IsChain fun a b => a = '?' → b.isDigit = false)
    ⟨fun h => ⟨by simpa using h.1, h.2⟩, fun h => ⟨by simpa using h.clear, h.apart⟩⟩

def Glyph.Clear (bad : List Char) : Glyph → Prop
  | .char c => c ∉ bad
  | .segment cs => ∀ c ∈ cs, c ∉ bad
  | .name cs => ∀ c ∈ cs, c ∉ bad
  | .marker => True

def Glyph.Precedes : Glyph → Glyph → Prop
  | .marker, .char c => c.isDigit = false
  | .marker, .segment _ => False
  | .marker, .name _ => False
  | _, _ => True

structure Tidy (bad : List Char) (s : Script) : Prop where
  clear : ∀ g ∈ s.glyphs, g.Clear bad
  apart : s.glyphs.IsChain Glyph.Precedes
  balanced : s.glyphs.count .marker = s.arguments.length

/-- Text and names and nothing bound. -/
structure Bare (bad : List Char) (s : Script) : Prop where
  clear : ∀ g ∈ s.glyphs, g.Clear bad
  unmarked : .marker ∉ s.glyphs
  unbound : s.arguments = []

/-- What stands first may follow a marker. -/
def Opens (s : Script) : Prop := ∀ g ∈ s.glyphs.head?, Glyph.marker.Precedes g

variable {bad : List Char}

theorem clear_library (reserved : Reserved bad) {sql : String} (h : ClearText special sql) :
    ClearText bad sql := by
  intro c member inside
  exact h c member (reserved.only inside)

theorem clear_append {a b : String} (left : ClearText bad a) (right : ClearText bad b) :
    ClearText bad (a ++ b) := by
  intro c member
  rw [String.toList_append] at member
  rcases List.mem_append.mp member with first | later
  · exact left c first
  · exact right c later

theorem precedes_of_ne {g h : Glyph} (other : g ≠ .marker) : g.Precedes h := by
  cases g with
  | marker => exact absurd rfl other
  | _ => trivial

theorem chain_of_left {α : Type} {R : α → α → Prop} {l : List α} (h : ∀ a ∈ l, ∀ b, R a b) :
    l.IsChain R := by
  induction l with
  | nil => exact .nil
  | cons a l ih =>
    have rest := ih fun b member => h b (List.mem_cons_of_mem a member)
    exact rest.cons fun b _ => h a List.mem_cons_self b

theorem chain_of_right {α : Type} {R : α → α → Prop} {l : List α} (h : ∀ b ∈ l, ∀ a, R a b) :
    l.IsChain R := by
  induction l with
  | nil => exact .nil
  | cons a l ih =>
    have rest := ih fun b member => h b (List.mem_cons_of_mem a member)
    refine rest.cons fun b first => h b (List.mem_cons_of_mem a ?_) a
    exact List.mem_of_mem_head? first

theorem apart_of_unmarked {gs : List Glyph} (h : .marker ∉ gs) : gs.IsChain Glyph.Precedes := by
  refine chain_of_left fun g member _ => precedes_of_ne ?_
  rintro rfl
  exact h member

theorem unmarked_of_clear (reserved : Reserved bad) {sql : String} (h : ClearText bad sql) :
    '?' ∉ sql.toList := by
  intro member
  exact h '?' member reserved.question

theorem marked_of_clear (reserved : Reserved bad) {sql : String} (h : ClearText bad sql) :
    MarkedText bad sql := by
  constructor
  · exact fun c member => .inr (h c member)
  · apply chain_of_left
    intro a member b same
    rw [same] at member
    exact absurd member (unmarked_of_clear reserved h)

/-! Bare scripts. -/

theorem bare_nil : Bare bad [] := ⟨by simp [Script.glyphs], by simp [Script.glyphs], rfl⟩

theorem bare_append {a b : Script} (left : Bare bad a) (right : Bare bad b) :
    Bare bad (a ++ b) := by
  constructor
  · intro g member
    rw [glyphs_append] at member
    rcases List.mem_append.mp member with first | later
    · exact left.clear g first
    · exact right.clear g later
  · rw [glyphs_append, List.mem_append, not_or]
    exact ⟨left.unmarked, right.unmarked⟩
  · rw [arguments_append, left.unbound, right.unbound]
    rfl

theorem bare_text {sql : String} (clear : ClearText bad sql) : Bare bad [.text sql] := by
  have glyphs : Script.glyphs [.text sql] = Glyph.verbatim sql.toList := List.append_nil _
  constructor
  · intro g member
    rw [glyphs, Glyph.verbatim] at member
    obtain ⟨c, inside, rfl⟩ := List.mem_map.mp member
    exact clear c inside
  · rw [glyphs, ← List.count_eq_zero]
    exact count_verbatim _
  · rfl

theorem bare_library (reserved : Reserved bad) {sql : String} (h : ClearText special sql) :
    Bare bad [.text sql] := bare_text (clear_library reserved h)

theorem mem_intercalate {α : Type} {x : α} {separator : List α} {ls : List (List α)}
    (h : x ∈ separator.intercalate ls) : x ∈ separator ∨ ∃ l ∈ ls, x ∈ l := by
  induction ls with
  | nil => cases h
  | cons l ls ih =>
    cases ls with
    | nil => exact .inr ⟨l, List.mem_cons_self, by simpa using h⟩
    | cons m ls =>
      rw [List.intercalate_cons_cons, List.mem_append, List.mem_append] at h
      rcases h with (first | between) | later
      · exact .inr ⟨l, List.mem_cons_self, first⟩
      · exact .inl between
      · rcases ih later with between | ⟨n, inside, found⟩
        · exact .inl between
        · exact .inr ⟨n, List.mem_cons_of_mem l inside, found⟩

theorem mem_intercalate_of_mem {α : Type} {x : α} {separator l : List α} {ls : List (List α)}
    (inside : x ∈ l) (member : l ∈ ls) : x ∈ separator.intercalate ls := by
  induction ls with
  | nil => cases member
  | cons m ls ih =>
    cases ls with
    | nil =>
      rw [List.mem_singleton] at member
      rw [List.intercalate_singleton, ← member]
      exact inside
    | cons n ls =>
      rw [List.intercalate_cons_cons]
      rcases List.mem_cons.mp member with first | later
      · rw [← first]
        exact List.mem_append_left _ (List.mem_append_left _ inside)
      · exact List.mem_append_right _ (ih later)

theorem mem_segments {cs s : List Char} (member : s ∈ segments cs) : ∀ c ∈ s, c ∈ cs := by
  intro c inside
  rw [← segments_joined cs]
  exact mem_intercalate_of_mem inside member

theorem bare_qualified (reserved : Reserved bad) {name : String} (clear : ClearText bad name) :
    Bare bad [.qualified name] := by
  have glyphs : Script.glyphs [.qualified name] = Glyph.dotted name.toList := List.append_nil _
  constructor
  · intro g member
    rw [glyphs] at member
    rcases mem_intercalate member with dot | ⟨gs, inside, found⟩
    · rw [List.mem_singleton] at dot
      rw [dot]
      intro inside
      exact absurd (reserved.only inside) (by decide)
    · obtain ⟨s, segment, rfl⟩ := List.mem_map.mp inside
      rw [List.mem_singleton] at found
      rw [found]
      exact fun c h => clear c (mem_segments segment c h)
  · rw [glyphs, ← List.count_eq_zero]
    exact count_dotted _
  · rfl

theorem bare_column {name : String} (clear : ClearText bad name) : Bare bad [.column name] := by
  have glyphs : Script.glyphs [.column name] = [.name name.toList] := rfl
  constructor
  · intro g member
    rw [glyphs, List.mem_singleton] at member
    rw [member]
    exact clear
  · simp [glyphs]
  · rfl

theorem bare_need (f : Feature) : Bare bad [.need f] :=
  ⟨by simp [Script.glyphs, Piece.glyphs], by simp [Script.glyphs, Piece.glyphs], rfl⟩

theorem bare_failure (e : BuildError) : Bare bad [.fail e] :=
  ⟨by simp [Script.glyphs, Piece.glyphs], by simp [Script.glyphs, Piece.glyphs], rfl⟩

theorem bare_separated {separator : String} (clear : ClearText bad separator) {ss : List Script}
    (each : ∀ s ∈ ss, Bare bad s) : Bare bad (Script.separated separator ss) := by
  induction ss with
  | nil => exact bare_nil
  | cons s ss ih =>
    have rest := ih fun t member => each t (List.mem_cons_of_mem s member)
    cases ss with
    | nil => exact each s List.mem_cons_self
    | cons t ss =>
      exact bare_append (each s List.mem_cons_self) (bare_append (bare_text clear) rest)

theorem bare_names (reserved : Reserved bad) {ns : List String}
    (clear : ∀ n ∈ ns, ClearText bad n) : Bare bad (Script.names ns) := by
  apply bare_separated (clear_library reserved (by decide))
  intro s member
  obtain ⟨n, inside, rfl⟩ := List.mem_map.mp member
  exact bare_qualified reserved (clear n inside)

theorem bare_term (reserved : Reserved bad) {t : Term} (clear : ClearText bad t.text) :
    Bare bad t.script := by
  cases t with
  | name s => exact bare_qualified reserved clear
  | raw s => exact bare_text clear
  | call s => exact bare_text clear

theorem bare_count (reserved : Reserved bad) {keyword : String}
    (clear : ClearText bad (" " ++ keyword ++ " ")) (n : Option Nat) :
    Bare bad (countClause keyword n) := by
  cases n with
  | none => exact bare_nil
  | some n =>
    refine bare_text (clear_append clear fun c member inside => ?_)
    rw [String.toList_ofList] at member
    have digit : c.isDigit = true := Nat.isDigit_of_mem_toDigits (by decide) (by decide) member
    have listed := reserved.only inside
    simp only [special, List.mem_cons, List.not_mem_nil, or_false] at listed
    rcases listed with rfl | rfl | rfl <;> exact absurd digit (by decide)

theorem bare_on (reserved : Reserved bad) {left right : String} (first : ClearText bad left)
    (second : ClearText bad right) : Bare bad (onClause (some (left, right))) :=
  bare_append (bare_library reserved (by decide))
    (bare_append (bare_qualified reserved first)
      (bare_append (bare_library reserved (by decide))
        (bare_qualified reserved second)))

/-! Tidy scripts. -/

theorem tidy_of_bare {s : Script} (h : Bare bad s) : Tidy bad s := by
  refine ⟨h.clear, apart_of_unmarked h.unmarked, ?_⟩
  rw [h.unbound, List.count_eq_zero.mpr h.unmarked]
  rfl

/-- Between two scripts a marker may meet a digit only where the first ends in a marker and the
    second does not open. -/
theorem tidy_joined {a b : Script} (left : Tidy bad a) (right : Tidy bad b)
    (seam : .marker ∉ a.glyphs ∨ Opens b) : Tidy bad (a ++ b) := by
  constructor
  · intro g member
    rw [glyphs_append] at member
    rcases List.mem_append.mp member with first | later
    · exact left.clear g first
    · exact right.clear g later
  · rw [glyphs_append]
    apply left.apart.append right.apart
    intro x last y first
    rcases seam with unmarked | opens
    · apply precedes_of_ne
      intro same
      rw [same] at last
      exact unmarked (List.mem_of_getLast? last)
    · by_cases marked : x = .marker
      · rw [marked]
        exact opens y first
      · exact precedes_of_ne marked
  · rw [glyphs_append, arguments_append, List.count_append, List.length_append, left.balanced,
      right.balanced]

theorem tidy_append {a b : Script} (left : Tidy bad a) (right : Tidy bad b) (opens : Opens b) :
    Tidy bad (a ++ b) := tidy_joined left right (.inr opens)

theorem tidy_lead {a b : Script} (left : Bare bad a) (right : Tidy bad b) : Tidy bad (a ++ b) :=
  tidy_joined (tidy_of_bare left) right (.inl left.unmarked)

theorem opens_nil : Opens [] := by
  intro g member
  cases member

theorem opens_text (sql : String) {c : Char} (s : Script) (first : sql.toList.head? = some c)
    (apart : c.isDigit = false) : Opens (.text sql :: s) := by
  intro g member
  have glyphs : Script.glyphs (.text sql :: s) = Glyph.verbatim sql.toList ++ s.glyphs := rfl
  rw [glyphs, Glyph.verbatim] at member
  cases cs : sql.toList with
  | nil => rw [cs] at first; cases first
  | cons d ds =>
    rw [cs] at first member
    cases first
    cases member
    exact apart

theorem opens_append {a b : Script} (left : Opens a) (right : Opens b) : Opens (a ++ b) := by
  intro g member
  rw [glyphs_append] at member
  cases gs : a.glyphs with
  | nil =>
    rw [gs] at member
    exact right g member
  | cons h gs' =>
    apply left g
    rw [gs] at member ⊢
    exact member

theorem opens_need (f : Feature) {s : Script} (h : Opens s) : Opens (.need f :: s) := h

theorem opens_failure (e : BuildError) : Opens [.fail e] := by
  intro g member
  cases member

theorem tidy_separated {separator : String} (clear : ClearText bad separator) {c : Char}
    (first : separator.toList.head? = some c) (apart : c.isDigit = false) {ss : List Script}
    (each : ∀ s ∈ ss, Tidy bad s) : Tidy bad (Script.separated separator ss) := by
  induction ss with
  | nil => exact tidy_of_bare bare_nil
  | cons s ss ih =>
    have rest := ih fun t member => each t (List.mem_cons_of_mem s member)
    cases ss with
    | nil => exact each s List.mem_cons_self
    | cons t ss =>
      exact tidy_append (each s List.mem_cons_self) (tidy_lead (bare_text clear) rest)
        (opens_text _ _ first apart)

theorem tidy_listed (reserved : Reserved bad) {ss : List Script} (each : ∀ s ∈ ss, Tidy bad s) :
    Tidy bad (Script.separated ", " ss) :=
  tidy_separated (clear_library reserved (by decide)) rfl rfl each

theorem tidy_parenthesized (reserved : Reserved bad) {s : Script} (h : Tidy bad s) :
    Tidy bad s.parenthesized := by
  have closing : Tidy bad [.text ")"] :=
    tidy_of_bare (bare_library reserved (by decide))
  have opening : Bare bad [.text "("] := bare_library reserved (by decide)
  exact tidy_append (tidy_lead opening h) closing (opens_text ")" [] rfl rfl)

theorem tidy_of_same {a b : Script} (glyphs : b.glyphs = a.glyphs)
    (arguments : b.arguments = a.arguments) (h : Tidy bad a) : Tidy bad b := by
  constructor
  · rw [glyphs]
    exact h.clear
  · rw [glyphs]
    exact h.apart
  · rw [glyphs, arguments]
    exact h.balanced

theorem glyphs_nested (s : Script) : s.nested.glyphs = s.parenthesized.glyphs := by
  have inner : Script.glyphs (s.map Script.nestedPiece) = s.glyphs := by
    rw [Script.glyphs, Script.glyphs, List.flatMap_map]
    apply List.flatMap_congr
    intro p _
    cases p <;> rfl
  change Glyph.verbatim _ ++ Script.glyphs (s.map Script.nestedPiece ++ [.text ")"]) =
    Glyph.verbatim _ ++ Script.glyphs (s ++ [.text ")"])
  rw [glyphs_append, glyphs_append, inner]

theorem tidy_nested (reserved : Reserved bad) {s : Script} (h : Tidy bad s) :
    Tidy bad s.nested := by
  have outer : s.parenthesized.arguments = s.arguments := by
    rw [← arguments_payload, payload_parenthesized, arguments_payload]
  refine tidy_of_same (glyphs_nested s) ?_ (tidy_parenthesized reserved h)
  rw [arguments_nested, outer]

theorem tidy_argument (v : Value) : Tidy bad (Script.argument v) := by
  constructor
  · intro g member
    rw [List.mem_singleton.mp member]
    trivial
  · exact .singleton _
  · rfl

theorem tidy_fragment {sql : String} {values : List Value} (h : MarkedText bad sql)
    (balanced : sql.toList.count '?' = values.length) : Tidy bad [.fragment sql values] := by
  have glyphs : Script.glyphs [.fragment sql values] = Glyph.fragment sql.toList :=
    List.append_nil _
  constructor
  · intro g member
    rw [glyphs, Glyph.fragment] at member
    obtain ⟨c, inside, rfl⟩ := List.mem_map.mp member
    by_cases marked : c = '?'
    · rw [if_pos marked]
      trivial
    · rw [if_neg marked]
      exact (h.clear c inside).resolve_left marked
  · rw [glyphs, Glyph.fragment, List.isChain_map]
    apply h.apart.imp
    intro a b held
    by_cases first : a = '?'
    · rw [if_pos first]
      by_cases second : b = '?'
      · rw [if_pos second]
        trivial
      · rw [if_neg second]
        exact held first
    · rw [if_neg first]
      trivial
  · rw [glyphs, count_fragment, balanced]
    exact congrArg List.length (List.append_nil values).symm

theorem tidy_filterClause (reserved : Reserved bad) {keyword : String}
    (clear : ClearText bad (" " ++ keyword ++ " ")) {os : List Operand}
    (each : ∀ o ∈ os, Tidy bad o.2) : Tidy bad (filterClause keyword os) := by
  have lead : Bare bad [.text (" " ++ keyword ++ " ")] := bare_text clear
  match os with
  | [] => exact tidy_of_bare bare_nil
  | [o] => exact tidy_lead lead (each o List.mem_cons_self)
  | o :: p :: os =>
    have guarded : ∀ s ∈ (o :: p :: os).map Operand.guarded, Tidy bad s := by
      intro s member
      obtain ⟨r, inside, rfl⟩ := List.mem_map.mp member
      have held := each r inside
      rcases r with ⟨disjunction, script⟩
      cases disjunction with
      | false => exact held
      | true => exact tidy_parenthesized reserved held
    have joined : Tidy bad (Script.separated " AND " ((o :: p :: os).map Operand.guarded)) :=
      tidy_separated (clear_library reserved (by decide)) rfl rfl guarded
    exact tidy_lead lead joined

theorem opens_filterClause (keyword : String) (os : List Operand) :
    Opens (filterClause keyword os) := by
  have first : (" " ++ keyword ++ " ").toList.head? = some ' ' := by simp
  match os with
  | [] => exact opens_nil
  | [o] => exact opens_text _ _ first rfl
  | o :: p :: os => exact opens_text _ _ first rfl

theorem bare_listClause (reserved : Reserved bad) {keyword : String}
    (clear : ClearText bad (" " ++ keyword ++ " ")) {ss : List Script}
    (each : ∀ s ∈ ss, Bare bad s) : Bare bad (listClause keyword ss) := by
  cases ss with
  | nil => exact bare_nil
  | cons s ss =>
    exact bare_append (bare_text clear) (bare_separated (clear_library reserved (by decide)) each)

theorem opens_listClause (keyword : String) (ss : List Script) : Opens (listClause keyword ss) := by
  have first : (" " ++ keyword ++ " ").toList.head? = some ' ' := by simp
  cases ss with
  | nil => exact opens_nil
  | cons s ss => exact opens_text _ _ first rfl

theorem opens_countClause (keyword : String) (n : Option Nat) : Opens (countClause keyword n) := by
  cases n with
  | none => exact opens_nil
  | some n => exact opens_text (c := ' ') _ _ (by simp) rfl

end SqlAssembly
