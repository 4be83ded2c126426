import SqlAssembly.Dialect

/-! Names read back. A quoted name is read segment by segment without knowing how it was made, and
   the reader stops where the quoting ended, whatever the segments hold. -/
namespace SqlAssembly

/-- The text up to the closing delimiter, and what stands behind that. A delimiter that is written
    twice belongs to the text. -/
def undoubled (q : Char) : List Char → Option (List Char × List Char)
  | [] => none
  | c :: cs =>
    if c = q then
      match cs with
      | [] => some ([], [])
      | d :: rest =>
        if d = q then (undoubled q rest).map fun p => (q :: p.1, p.2) else some ([], d :: rest)
    else (undoubled q cs).map fun p => (c :: p.1, p.2)

def readEnclosed (q : Char) : List Char → Option (List Char × List Char)
  | [] => none
  | c :: cs => if c = q then undoubled q cs else none

/-- A bare star, or text in quotes. -/
def readSegment (q : Char) : List Char → Option (List Char × List Char)
  | [] => none
  | c :: cs => if c = '*' then some (['*'], cs) else readEnclosed q (c :: cs)

variable {q : Char} {cs body rest : List Char}

theorem undoubled_other {c : Char} (other : c ≠ q) (cs : List Char) :
    undoubled q (c :: cs) = (undoubled q cs).map fun p => (c :: p.1, p.2) := by
  cases cs <;> simp [undoubled, other]

theorem undoubled_twice (q : Char) (cs : List Char) :
    undoubled q (q :: q :: cs) = (undoubled q cs).map fun p => (q :: p.1, p.2) := by
  simp [undoubled]

theorem undoubled_closed (apart : ∀ c ∈ rest.head?, c ≠ q) :
    undoubled q (q :: rest) = some ([], rest) := by
  cases rest with
  | nil => simp [undoubled]
  | cons c rest =>
    have other : c ≠ q := apart c rfl
    simp [undoubled, other]

theorem undoubled_doubled (cs : List Char) (apart : ∀ c ∈ rest.head?, c ≠ q) :
    undoubled q (doubled q cs ++ q :: rest) = some (cs, rest) := by
  induction cs with
  | nil => exact undoubled_closed apart
  | cons c cs ih =>
    by_cases same : c = q
    · simp only [doubled, same, ↓reduceIte, List.cons_append, undoubled_twice, ih, Option.map_some]
    · simp only [doubled, same, ↓reduceIte, List.cons_append, undoubled_other same, ih,
        Option.map_some]

theorem readEnclosed_enclosed (cs : List Char) (apart : ∀ c ∈ rest.head?, c ≠ q) :
    readEnclosed q (enclosed q cs ++ rest) = some (cs, rest) := by
  simp only [enclosed, List.cons_append, readEnclosed, ↓reduceIte, List.append_assoc,
    List.nil_append, undoubled_doubled cs apart]

theorem undoubled_shorter (read : undoubled q cs = some (body, rest)) :
    rest.length < cs.length := by
  fun_induction undoubled q cs generalizing body with
  | case1 => cases read
  | case2 => cases read; simp
  | case3 cs ih =>
    obtain ⟨p, inner, pair⟩ := Option.map_eq_some_iff.mp read
    cases pair
    have := ih inner
    simp only [List.length_cons]
    omega
  | case4 => cases read; simp
  | case5 c cs other ih =>
    obtain ⟨p, inner, pair⟩ := Option.map_eq_some_iff.mp read
    cases pair
    have := ih inner
    simp only [List.length_cons]
    omega

theorem readSegment_shorter (read : readSegment q cs = some (body, rest)) :
    rest.length < cs.length := by
  cases cs with
  | nil => cases read
  | cons c cs =>
    rw [readSegment] at read
    split at read
    · cases read
      simp
    · rw [readEnclosed] at read
      split at read
      · exact Nat.lt_succ_of_lt (undoubled_shorter read)
      · cases read

/-- Segments are read as long as a dot follows. -/
def readName (q : Char) (cs : List Char) : Option (List (List Char) × List Char) :=
  match _read : readSegment q cs with
  | none => none
  | some (s, rest) =>
    if rest.head? = some '.' then (readName q rest.tail).map fun p => (s :: p.1, p.2)
    else some ([s], rest)
termination_by cs.length
decreasing_by
  have := readSegment_shorter _read
  simp only [List.length_tail]
  omega

theorem readName_segment (read : readSegment q cs = some (body, rest)) :
    readName q cs =
      if rest.head? = some '.' then (readName q rest.tail).map fun p => (body :: p.1, p.2)
      else some ([body], rest) := by
  rw [readName]
  split
  · rename_i failed
    rw [failed] at read
    cases read
  · rename_i found
    rw [found] at read
    cases read
    rfl

/-! What a dialect with this quote writes. -/

variable {d : Dialect}

theorem quoted_enclosed (quote : d.nameQuote = some q) (cs : List Char) :
    d.quoted cs = enclosed q cs := by rw [Dialect.quoted, quote]

theorem qualified_unquoted (plain : d.nameQuote = none) (cs : List Char) :
    d.qualified cs = cs := by
  have same : d.segment = id := by
    funext s
    simp [Dialect.segment, Dialect.quoted, plain]
  rw [Dialect.qualified, same, List.map_id, segments_joined]

theorem readSegment_segment (quote : d.nameQuote = some q) (star : q ≠ '*') (s : List Char)
    (apart : ∀ c ∈ rest.head?, c ≠ q) : readSegment q (d.segment s ++ rest) = some (s, rest) := by
  rw [Dialect.segment]
  split
  · rename_i bare
    rw [bare]
    rfl
  · have quoted : d.quoted s = enclosed q s := by rw [Dialect.quoted, quote]
    rw [quoted]
    -- The opening quote is not a star, so a segment in quotes is not taken for a bare one.
    exact (if_neg star).trans (readEnclosed_enclosed s apart)

/-- The segments come back, also those that look like a dot, a star or an end of quoting. -/
theorem readName_joined (quote : d.nameQuote = some q) (dot : q ≠ '.') (star : q ≠ '*')
    {ss : List (List Char)} (segmented : ss ≠ []) (apart : ∀ c ∈ rest.head?, c ≠ q ∧ c ≠ '.') :
    readName q (['.'].intercalate (ss.map d.segment) ++ rest) = some (ss, rest) := by
  induction ss with
  | nil => exact absurd rfl segmented
  | cons s ss ih =>
    cases ss with
    | nil =>
      have read := readSegment_segment quote star s fun c first => (apart c first).1
      rw [List.map_cons, List.map_nil, List.intercalate_singleton, readName_segment read]
      exact if_neg fun first => (apart '.' first).2 rfl
    | cons t ss =>
      have later := ih (List.cons_ne_nil t ss)
      have read : readSegment q
          (d.segment s ++ '.' :: (['.'].intercalate ((t :: ss).map d.segment) ++ rest)) =
            some (s, '.' :: (['.'].intercalate ((t :: ss).map d.segment) ++ rest)) :=
        readSegment_segment quote star s (by simpa using dot.symm)
      have text : ['.'].intercalate ((s :: t :: ss).map d.segment) ++ rest =
          d.segment s ++ '.' :: (['.'].intercalate ((t :: ss).map d.segment) ++ rest) := by
        simp [List.intercalate_cons_cons]
      rw [text, readName_segment read]
      refine (if_pos rfl).trans ?_
      rw [List.tail_cons, later]
      rfl

theorem segments_eq_splitOn (cs : List Char) : segments cs = cs.splitOn '.' := by
  induction cs with
  | nil => rfl
  | cons c cs ih =>
    rw [List.splitOn, List.splitOnP_cons_eq_if_modifyHead, ← List.splitOn, ← ih, segments]
    by_cases dot : c = '.'
    · simp [dot]
    · simp only [dot, ↓reduceIte, beq_iff_eq]
      cases parts : segments cs with
      | nil => exact absurd parts (segments_ne_nil cs)
      | cons s rest => rfl

/-- Whatever a name holds, its quoted text is read to its end, or to where any other text goes on,
    and gives back the parts between its dots. So no name is taken for another one. -/
theorem quoted_names_read_back (quote : d.nameQuote = some q) (dot : q ≠ '.') (star : q ≠ '*') :
    (∀ name : String,
      readName q (d.quoteQualified name).toList = some (name.toList.splitOn '.', [])) ∧
      (∀ (name : String) (rest : List Char), (∀ c ∈ rest.head?, c ≠ q ∧ c ≠ '.') →
        readName q ((d.quoteQualified name).toList ++ rest) =
          some (name.toList.splitOn '.', rest)) ∧
      ∀ name name' : String, d.quoteQualified name = d.quoteQualified name' → name = name' := by
  have streamed (name : String) (rest : List Char) (apart : ∀ c ∈ rest.head?, c ≠ q ∧ c ≠ '.') :
      readName q ((d.quoteQualified name).toList ++ rest) =
        some (name.toList.splitOn '.', rest) := by
    rw [Dialect.quoteQualified, String.toList_ofList, Dialect.qualified, ← segments_eq_splitOn]
    exact readName_joined quote dot star (segments_ne_nil name.toList) apart
  have whole (name : String) :
      readName q (d.quoteQualified name).toList = some (name.toList.splitOn '.', []) := by
    have read := streamed name [] nofun
    rw [List.append_nil] at read
    exact read
  refine ⟨whole, streamed, ?_⟩
  intro name name' same
  have read := whole name
  rw [same, whole name', ← segments_eq_splitOn, ← segments_eq_splitOn] at read
  have segments : segments name'.toList = segments name.toList :=
    congrArg Prod.fst (Option.some.inj read)
  apply String.toList_injective
  rw [← segments_joined name.toList, ← segments, segments_joined]

/-- The segments are the quote itself, a star, two empty ones and one that looks like two more. -/
theorem misleading_segments_read_back :
    Dialect.mysql.nameQuote = some '\x60' ∧
      readName '\x60' "\x60\x60\x60\x60.*.\x60\x60.\x60\x60.\x60\x60\x60,\x60\x60*\x60, b".toList =
        some ([['\x60'], ['*'], [], [], ['\x60', ',', '\x60', '*']], ", b".toList) := by
  obtain ⟨-, streamed, -⟩ := quoted_names_read_back (d := .mysql) (q := '\x60') rfl (by decide)
    (by decide)
  have apart : ∀ c ∈ ", b".toList.head?, c ≠ '\x60' ∧ c ≠ '.' := by
    rintro c ⟨⟩
    decide
  exact ⟨rfl, streamed "\x60.*...\x60,\x60*" ", b".toList apart⟩

end SqlAssembly
