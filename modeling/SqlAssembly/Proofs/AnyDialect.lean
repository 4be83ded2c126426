import SqlAssembly.Proofs.Seams

/-! A dialect may answer as it likes: any text for a number, any spelling of a name, and question
   marks copied or not. A fragment is then written character by character. The dialects with a
   plain mark or a numbered lead are among these. -/
namespace SqlAssembly

structure AnyDialect where
  name : String
  placeholder : Nat → String
  copiesMarks : Bool
  quoteName : String → String
  supports : Feature → Bool

/-- What a context holds beside its dialect. -/
structure Page where
  sql : String
  arguments : List Value
  next : Nat
  deriving DecidableEq, Repr

namespace Page

def append (page : Page) (sql : String) : Page := { page with sql := page.sql ++ sql }

def bind (page : Page) (values : List Value) : Page :=
  { page with arguments := page.arguments ++ values }

theorem bind_bind (page : Page) (vs ws : List Value) :
    (page.bind vs).bind ws = page.bind (vs ++ ws) := by
  simp only [bind, List.append_assoc]

end Page

namespace AnyDialect

def quoteQualified (d : AnyDialect) (name : String) : String :=
  ".".intercalate ((segments name.toList).map fun cs =>
    if cs = ['*'] then "*" else d.quoteName (String.ofList cs))

/-- A mark uses up the next number. -/
def character (d : AnyDialect) (page : Page) (c : Char) : Page :=
  if c = '?' then
    { page with sql := page.sql ++ d.placeholder page.next, next := page.next + 1 }
  else { page with sql := page.sql.push c }

def marked (d : AnyDialect) (page : Page) (sql : String) : Page :=
  if d.copiesMarks then page.append sql else sql.toList.foldl d.character page

def fragment (d : AnyDialect) (page : Page) (sql : String) (values : List Value) : Page :=
  (d.marked page sql).bind values

def write (d : AnyDialect) (page : Page) : Piece → Except BuildError Page
  | .text sql => .ok (page.append sql)
  | .qualified name => .ok (page.append (d.quoteQualified name))
  | .column name => .ok (page.append (d.quoteName name))
  | .fragment sql values => .ok (d.fragment page sql values)
  | .need feature =>
    if d.supports feature then .ok page else .error (.unsupported d.name feature)
  | .fail e => .error e

def run (d : AnyDialect) (page : Page) : Script → Page × Option BuildError
  | [] => (page, none)
  | p :: ps =>
    match d.write page p with
    | .ok page' => d.run page' ps
    | .error e => (page, some e)

variable (d : AnyDialect) (page : Page)

theorem run_append (a b : Script) :
    d.run page (a ++ b) =
      match d.run page a with
      | (page', none) => d.run page' b
      | (page', some e) => (page', some e) := by
  induction a generalizing page with
  | nil => rfl
  | cons p a ih =>
    simp only [List.cons_append, run]
    cases d.write page p with
    | ok page' => exact ih page'
    | error e => rfl

theorem character_bind (values : List Value) (c : Char) :
    d.character (page.bind values) c = (d.character page c).bind values := by
  unfold character
  split <;> rfl

theorem characters_bind (values : List Value) (cs : List Char) :
    cs.foldl d.character (page.bind values) = (cs.foldl d.character page).bind values := by
  induction cs generalizing page with
  | nil => rfl
  | cons c cs ih => rw [List.foldl_cons, character_bind, ih, List.foldl_cons]

theorem marked_bind (sql : String) (values : List Value) :
    d.marked (page.bind values) sql = (d.marked page sql).bind values := by
  unfold marked
  split
  · rfl
  · exact d.characters_bind page values sql.toList

theorem marked_append (s t : String) : d.marked page (s ++ t) = d.marked (d.marked page s) t := by
  unfold marked
  split
  · simp only [Page.append, String.append_assoc]
  · rw [String.toList_append, List.foldl_append]

/-- Two fragments in a row are one, whatever the placeholders are. -/
theorem fragment_fragment (s t : String) (vs ws : List Value) :
    d.fragment (d.fragment page s vs) t ws = d.fragment page (s ++ t) (vs ++ ws) := by
  rw [fragment, fragment, marked_bind, ← marked_append, Page.bind_bind, fragment]

theorem characters_unmarked {cs : List Char} (unmarked : '?' ∉ cs) :
    cs.foldl d.character page = page.append (String.ofList cs) := by
  induction cs generalizing page with
  | nil => simp [Page.append]
  | cons c cs ih =>
    have other : c ≠ '?' := fun same => unmarked (same ▸ List.mem_cons_self)
    have rest : '?' ∉ cs := fun member => unmarked (List.mem_cons_of_mem c member)
    rw [List.foldl_cons, ih _ rest, character, if_neg other]
    simp [Page.append, ← String.toList_inj]

theorem fragment_unmarked {sql : String} (unmarked : '?' ∉ sql.toList) :
    d.fragment page sql [] = page.append sql := by
  have text : d.marked page sql = page.append sql := by
    unfold marked
    split
    · rfl
    · rw [characters_unmarked d page unmarked, String.ofList_toList]
  rw [fragment, text]
  simp only [Page.bind, List.append_nil]

theorem seamless_run : Seamless fun s (page : Page) => d.run page s where
  congr {a b c e} left right := by
    funext page
    simp only [run_append, congrFun left page]
    rcases d.run page b with ⟨page', none | cause⟩
    · exact congrFun right page'
    · rfl
  merge s t vs ws := by
    funext page
    simp only [run, write, fragment_fragment]
  bare sql unmarked := by
    funext page
    simp only [run, write, fragment_unmarked d page unmarked]

end AnyDialect

/-! The dialects with a plain mark or a numbered lead. -/

/-- Marks are copied where the first placeholder is one. -/
def Dialect.answers (d : Dialect) : AnyDialect where
  name := d.name
  placeholder := d.placeholderText
  copiesMarks := d.placeholderText 1 == "?"
  quoteName := d.quoteName
  supports := d.supports

def Context.page (ctx : Context) : Page := ⟨ctx.sql, ctx.arguments, ctx.next⟩

theorem quoteQualified_answers (d : Dialect) (name : String) :
    d.answers.quoteQualified name = d.quoteQualified name := by
  have segment (cs : List Char) :
      (if cs = ['*'] then "*" else d.quoteName (String.ofList cs)).toList = d.segment cs := by
    unfold Dialect.segment
    split
    · rename_i star
      exact star.symm
    · simp only [Dialect.quoteName, String.toList_ofList]
  have whole : (d.answers.quoteQualified name).toList = d.qualified name.toList := by
    rw [AnyDialect.quoteQualified, String.toList_intercalate, List.map_map]
    exact congrArg (['.'].intercalate ·) (List.map_congr_left fun cs _ => segment cs)
  rw [← String.toList_inj, whole]
  exact String.toList_ofList.symm

theorem characters_answers {d : Dialect} {lead : String} (numbered : d.placeholder = .numbered lead)
    (page : Page) (cs : List Char) :
    cs.foldl d.answers.character page =
      { page with
        sql := page.sql ++ String.ofList (numberMarks lead.toList page.next cs)
        next := page.next + cs.count '?' } := by
  induction cs generalizing page with
  | nil => simp [numberMarks]
  | cons c cs ih =>
    rw [List.foldl_cons, ih, AnyDialect.character]
    by_cases mark : c = '?'
    · simp [mark, Dialect.answers, Dialect.placeholderText, numbered, Placeholder.chars,
        numberMarks, String.append_assoc, Nat.add_assoc, Nat.add_comm 1]
    · simp [mark, numberMarks, ← String.toList_inj]

theorem copiesMarks_answers (d : Dialect) :
    d.answers.copiesMarks = d.placeholder.isQuestion := by
  have first : d.placeholderText 1 = "?" ↔ d.placeholder.chars 1 = ['?'] := by
    rw [Dialect.placeholderText, ← String.toList_inj, String.toList_ofList]
    rfl
  rw [Bool.eq_iff_iff, isQuestion_iff, ← first]
  exact beq_iff_eq

theorem fragment_answers (ctx : Context) (sql : String) (values : List Value) :
    ctx.dialect.answers.fragment ctx.page sql values = (ctx.fragment sql values).page := by
  unfold AnyDialect.fragment AnyDialect.marked
  rw [copiesMarks_answers]
  cases kind : ctx.dialect.placeholder with
  | question =>
    simp [kind, Placeholder.isQuestion, Context.fragment, Context.page, Page.append, Page.bind,
      Placeholder.fill, Placeholder.after]
  | numbered lead =>
    rw [characters_answers kind]
    simp [kind, Placeholder.isQuestion, Context.fragment, Context.page, Page.bind,
      Placeholder.fill, Placeholder.after]

theorem write_answers (ctx : Context) (p : Piece) :
    ctx.dialect.answers.write ctx.page p = (ctx.write p).map Context.page := by
  cases p with
  | text sql => rfl
  | qualified name =>
    exact congrArg (fun text => Except.ok (ctx.page.append text)) (quoteQualified_answers _ name)
  | column name => rfl
  | fragment sql values => exact congrArg Except.ok (fragment_answers ctx sql values)
  | need feature =>
    change (if ctx.dialect.supports feature then _ else _) = _
    unfold Context.write
    split <;> rename_i known <;> simp only [known] <;> rfl
  | fail e => rfl

/-- A context writes what its dialect's answers ask for. -/
theorem run_answers (ctx : Context) (s : Script) :
    ctx.dialect.answers.run ctx.page s = ((ctx.run s).1.page, (ctx.run s).2) := by
  induction s generalizing ctx with
  | nil => rfl
  | cons p s ih =>
    rw [AnyDialect.run, write_answers, Context.run]
    cases written : ctx.write p with
    | error e => rfl
    | ok ctx' =>
      rw [← ctx.write_dialect ctx' p written]
      exact ih ctx'

/-- No dialect and no context tells the two scripts apart, also where they fail. -/
structure WrittenAlike (a b : Script) : Prop where
  any : ∀ (d : AnyDialect) (page : Page), d.run page a = d.run page b
  context : ∀ ctx : Context, ctx.run a = ctx.run b

theorem context_eq {a b : Context} (dialect : a.dialect = b.dialect) (page : a.page = b.page) :
    a = b := by
  cases a
  cases b
  cases dialect
  cases page
  rfl

theorem writtenAlike_of_any {a b : Script}
    (any : ∀ (d : AnyDialect) (page : Page), d.run page a = d.run page b) : WrittenAlike a b where
  any := any
  context ctx := by
    have same := any ctx.dialect.answers ctx.page
    rw [run_answers, run_answers] at same
    obtain ⟨pages, errors⟩ := Prod.mk.inj same
    have dialects : (ctx.run a).1.dialect = (ctx.run b).1.dialect :=
      (run_dialect ctx a).trans (run_dialect ctx b).symm
    exact Prod.ext (context_eq dialects pages) errors

end SqlAssembly
