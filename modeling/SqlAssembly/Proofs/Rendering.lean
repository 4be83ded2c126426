import SqlAssembly.Context

/-! What a script comes to before a dialect is known: characters, names and markers in order, with
   the arguments beside them. A context spells the same sequence whatever it holds already. -/
namespace SqlAssembly

inductive Glyph where
  | char : Char → Glyph
  /-- One segment of a dotted name -/
  | segment : List Char → Glyph
  /-- A name that is quoted as a whole -/
  | name : List Char → Glyph
  | marker : Glyph
  deriving DecidableEq, Repr

namespace Glyph

def verbatim (cs : List Char) : List Glyph := cs.map .char

def dotted (cs : List Char) : List Glyph :=
  [char '.'].intercalate ((segments cs).map fun s => [segment s])

def fragment (cs : List Char) : List Glyph := cs.map fun c => if c = '?' then .marker else .char c

end Glyph

def Piece.glyphs : Piece → List Glyph
  | .text sql => Glyph.verbatim sql.toList
  | .qualified name => Glyph.dotted name.toList
  | .column name => [.name name.toList]
  | .fragment sql _ => Glyph.fragment sql.toList
  | .need _ => []
  | .fail _ => []

def Piece.values : Piece → List Value
  | .fragment _ values => values
  | _ => []

def Piece.need? : Piece → Option Feature
  | .need f => some f
  | _ => none

def Piece.failure? : Piece → Option BuildError
  | .fail e => some e
  | _ => none

namespace Script

def glyphs (s : Script) : List Glyph := s.flatMap Piece.glyphs

def arguments (s : Script) : List Value := s.flatMap Piece.values

def needs (s : Script) : List Feature := s.filterMap Piece.need?

def failure? (s : Script) : Option BuildError := s.findSome? Piece.failure?

end Script

structure Rendering where
  glyphs : List Glyph
  arguments : List Value
  needs : List Feature
  deriving DecidableEq, Repr

/-- No dialect takes part in this. -/
def Script.outcome (s : Script) : Except BuildError Rendering :=
  match s.failure? with
  | none => .ok ⟨s.glyphs, s.arguments, s.needs⟩
  | some e => .error e

/-- The k-th marker from here is the placeholder of number n + k - 1. -/
def Dialect.spell (d : Dialect) : Nat → List Glyph → List Char
  | _, [] => []
  | n, .char c :: gs => c :: d.spell n gs
  | n, .segment cs :: gs => d.segment cs ++ d.spell n gs
  | n, .name cs :: gs => d.quoted cs ++ d.spell n gs
  | n, .marker :: gs => d.placeholder.chars n ++ d.spell (n + 1) gs

namespace Context

def extended (ctx : Context) (gs : List Glyph) (vs : List Value) : Context :=
  { ctx with
    sql := ctx.sql ++ String.ofList (ctx.dialect.spell ctx.next gs)
    arguments := ctx.arguments ++ vs
    next := ctx.dialect.placeholder.after ctx.next (gs.count .marker) }

def missing? (ctx : Context) (fs : List Feature) : Option BuildError :=
  (fs.find? fun f => !ctx.dialect.supports f).map (.unsupported ctx.dialect.name)

/-- The context after a run that reached the end, or the error that stopped it. -/
def finished : Context × Option BuildError → Except BuildError Context
  | (ctx, none) => .ok ctx
  | (_, some e) => .error e

/-- The only question that is left to the dialect is whether it has the features. -/
def accept (ctx : Context) (r : Rendering) : Except BuildError Context :=
  match ctx.missing? r.needs with
  | none => .ok (ctx.extended r.glyphs r.arguments)
  | some e => .error e

end Context

theorem glyphs_append (a b : Script) : Script.glyphs (a ++ b) = a.glyphs ++ b.glyphs := by
  simp [Script.glyphs]

theorem arguments_append (a b : Script) :
    Script.arguments (a ++ b) = a.arguments ++ b.arguments := by simp [Script.arguments]

theorem failure_append (a b : Script) :
    Script.failure? (a ++ b) = a.failure?.or b.failure? := by
  simp [Script.failure?, List.findSome?_append]

theorem spell_append (d : Dialect) (n : Nat) (a b : List Glyph) :
    d.spell n (a ++ b) = d.spell n a ++ d.spell (n + a.count .marker) b := by
  induction a generalizing n with
  | nil => simp [Dialect.spell]
  | cons g a ih =>
    cases g with
    | marker => simp [Dialect.spell, ih, Nat.add_assoc, Nat.add_comm 1]
    | _ => simp [Dialect.spell, ih]

theorem spell_verbatim (d : Dialect) (n : Nat) (cs : List Char) :
    d.spell n (Glyph.verbatim cs) = cs := by
  induction cs with
  | nil => rfl
  | cons c cs ih => simpa [Glyph.verbatim, Dialect.spell] using ih

theorem count_verbatim (cs : List Char) : (Glyph.verbatim cs).count .marker = 0 := by
  simp [Glyph.verbatim, List.count_eq_zero]

theorem spell_dotted (d : Dialect) (n : Nat) (cs : List Char) :
    d.spell n (Glyph.dotted cs) = d.qualified cs := by
  simp only [Glyph.dotted, Dialect.qualified]
  induction segments cs with
  | nil => rfl
  | cons s rest ih =>
    cases rest with
    | nil => simp [List.intercalate, Dialect.spell]
    | cons t rest =>
      simp only [List.map_cons, List.intercalate, List.intersperse, List.flatten_cons,
        List.cons_append, List.nil_append, Dialect.spell] at ih ⊢
      rw [ih]

theorem count_dotted (cs : List Char) : (Glyph.dotted cs).count .marker = 0 := by
  simp only [Glyph.dotted]
  induction segments cs with
  | nil => rfl
  | cons s rest ih => cases rest <;> simp_all [List.intercalate]

theorem count_fragment (cs : List Char) : (Glyph.fragment cs).count .marker = cs.count '?' := by
  induction cs with
  | nil => rfl
  | cons c cs ih => by_cases h : c = '?' <;> simp_all [Glyph.fragment]

/-- Copying the text unchanged and numbering its marks both spell the same glyphs. -/
theorem spell_fragment (d : Dialect) (n : Nat) (cs : List Char) :
    d.spell n (Glyph.fragment cs) = d.placeholder.fill n cs := by
  cases words : d.placeholder with
  | question =>
    simp only [Placeholder.fill]
    induction cs generalizing n with
    | nil => rfl
    | cons c cs ih =>
      by_cases h : c = '?' <;>
        simp_all [Glyph.fragment, Dialect.spell, Placeholder.chars]
  | numbered lead =>
    simp only [Placeholder.fill]
    induction cs generalizing n with
    | nil => rfl
    | cons c cs ih =>
      by_cases h : c = '?' <;>
        simp_all [Glyph.fragment, Dialect.spell, Placeholder.chars, numberMarks]

theorem after_zero (p : Placeholder) (n : Nat) : p.after n 0 = n := by
  cases p <;> rfl

theorem after_spelled (d : Dialect) (n marks : Nat) (gs : List Glyph) :
    d.spell (d.placeholder.after n marks) gs = d.spell (n + marks) gs := by
  cases words : d.placeholder with
  | numbered lead => rfl
  | question =>
    -- plain marks carry no number, so any start spells the same
    simp only [Placeholder.after]
    induction gs generalizing n with
    | nil => rfl
    | cons g gs ih =>
      cases g with
      | marker =>
        simp only [Dialect.spell, words, Placeholder.chars]
        rw [ih (n + 1), Nat.add_right_comm]
      | _ => simp only [Dialect.spell, ih n]

namespace Context

theorem extended_nil (ctx : Context) : ctx.extended [] [] = ctx := by
  simp [extended, Dialect.spell, after_zero]

theorem extended_extended (ctx : Context) (a b : List Glyph) (vs ws : List Value) :
    (ctx.extended a vs).extended b ws = ctx.extended (a ++ b) (vs ++ ws) := by
  simp [extended, spell_append, after_spelled, after_after, String.append_assoc]

theorem write_eq_extended (ctx : Context) (p : Piece) (noNeed : p.need? = none)
    (noFailure : p.failure? = none) : ctx.write p = .ok (ctx.extended p.glyphs p.values) := by
  cases p with
  | text sql =>
    simp [write, append, extended, Piece.glyphs, Piece.values, spell_verbatim, count_verbatim,
      after_zero]
  | qualified name =>
    simp [write, append, extended, Piece.glyphs, Piece.values, Dialect.quoteQualified,
      spell_dotted, count_dotted, after_zero]
  | column name =>
    simp [write, append, extended, Piece.glyphs, Piece.values, Dialect.quoteName, Dialect.spell,
      after_zero]
  | fragment sql values =>
    simp [write, fragment, extended, Piece.glyphs, Piece.values, spell_fragment, count_fragment]
  | need f => cases noNeed
  | fail e => cases noFailure

theorem finished_cons (ctx : Context) (p : Piece) (s : Script) (noNeed : p.need? = none)
    (noFailure : p.failure? = none)
    (rest : finished ((ctx.extended p.glyphs p.values).run s) =
      s.outcome.bind (ctx.extended p.glyphs p.values).accept) :
    finished (ctx.run (p :: s)) = (Script.outcome (p :: s)).bind ctx.accept := by
  have later : Script.failure? (p :: s) = s.failure? := by
    simp [Script.failure?, noFailure]
  have asked : Script.needs (p :: s) = s.needs := by
    simp [Script.needs, noNeed]
  simp only [run, write_eq_extended ctx p noNeed noFailure]
  rw [rest]
  simp only [Script.outcome, later]
  cases s.failure? with
  | some e => rfl
  | none =>
    simp only [Except.bind, accept, asked, extended_extended]
    rfl

/-- Without a failure the run ends well, or at the first feature that the dialect lacks. -/
theorem finished_of_no_failure (ctx : Context) (s : Script) (none : s.failure? = none) :
    finished (ctx.run s) = s.outcome.bind ctx.accept := by
  induction s generalizing ctx with
  | nil =>
    simp only [run, finished, Script.outcome, none]
    exact congrArg Except.ok (extended_nil ctx).symm
  | cons p s ih =>
    have noFailure : p.failure? = .none ∧ Script.failure? s = .none := by
      simpa [Script.failure?] using none
    cases p with
    | need f =>
      have rest := ih ctx noFailure.2
      simp only [Script.outcome, noFailure.2, none] at rest ⊢
      by_cases known : ctx.dialect.supports f
      · simp only [run, write, known, ↓reduceIte, rest]
        simp [Except.bind, accept, missing?, Script.needs, Piece.need?, known, Script.glyphs,
          Script.arguments, Piece.glyphs, Piece.values]
      · simp [run, write, known, finished, Except.bind, accept, missing?, Script.needs,
          Piece.need?]
    | fail e => cases noFailure.1
    | _ => exact finished_cons ctx _ s rfl rfl (ih _ noFailure.2)

/-- A script that states all its failures before it asks for a feature fails alike everywhere. -/
theorem finished_run (ctx : Context) (a b : Script) (needless : a.needs = [])
    (none : b.failure? = none) :
    finished (ctx.run (a ++ b)) = (Script.outcome (a ++ b)).bind ctx.accept := by
  induction a generalizing ctx with
  | nil => exact finished_of_no_failure ctx b none
  | cons p a ih =>
    have noNeed : p.need? = .none ∧ Script.needs a = [] := by
      simpa [Script.needs] using needless
    cases p with
    | need f => cases noNeed.1
    | fail e => rfl
    | _ => exact finished_cons ctx _ (a ++ b) rfl rfl (ih _ noNeed.2)

/-- A piece that is written adds what it stands for, whatever it asks of the dialect. -/
theorem write_extended {ctx ctx' : Context} {p : Piece} (written : ctx.write p = .ok ctx') :
    ctx' = ctx.extended p.glyphs p.values := by
  cases p with
  | need f =>
    rw [write] at written
    split at written
    · cases written
      exact ctx.extended_nil.symm
    · cases written
  | fail e => cases written
  | _ =>
    rw [write_eq_extended ctx _ rfl rfl] at written
    cases written
    rfl

/-- The pieces that a run gets to write before it fails. -/
def written (ctx : Context) : Script → Script
  | [] => []
  | p :: ps =>
    match ctx.write p with
    | .ok ctx' => p :: ctx'.written ps
    | .error _ => []

theorem written_cons {ctx ctx' : Context} {p : Piece} (s : Script)
    (first : ctx.write p = .ok ctx') : ctx.written (p :: s) = p :: ctx'.written s := by
  rw [written, first]

theorem written_prefix (ctx : Context) (s : Script) : ctx.written s <+: s := by
  induction s generalizing ctx with
  | nil => exact List.prefix_rfl
  | cons p s ih =>
    cases first : ctx.write p with
    | ok ctx' =>
      rw [written_cons s first]
      exact (List.prefix_cons_inj p).mpr (ih ctx')
    | error e =>
      rw [written, first]
      exact List.nil_prefix

/-- A run leaves what its pieces stand for, also when it fails. -/
theorem run_written (ctx : Context) (s : Script) :
    (ctx.run s).1 = ctx.extended (ctx.written s).glyphs (ctx.written s).arguments := by
  induction s generalizing ctx with
  | nil => exact ctx.extended_nil.symm
  | cons p s ih =>
    cases first : ctx.write p with
    | ok ctx' =>
      rw [run, first, written_cons s first, ih, write_extended first, extended_extended]
      rfl
    | error e =>
      rw [run, written, first]
      exact ctx.extended_nil.symm

/-- What the first context holds is the beginning of what the second one holds. -/
structure Begins (ctx ctx' : Context) : Prop where
  sql : ctx.sql.toList <+: ctx'.sql.toList
  arguments : ctx.arguments <+: ctx'.arguments

/-- Nothing that stands in a context is taken back, also not by a run that fails. -/
theorem begins_run (ctx : Context) (s : Script) : ctx.Begins (ctx.run s).1 := by
  rw [run_written]
  refine ⟨?_, List.prefix_append ctx.arguments _⟩
  rw [extended, String.toList_append]
  exact List.prefix_append _ _

end Context

theorem run_dialect (ctx : Context) (s : Script) : (ctx.run s).1.dialect = ctx.dialect := by
  induction s generalizing ctx with
  | nil => rfl
  | cons p s ih =>
    rw [Context.run]
    cases written : ctx.write p with
    | error e => rfl
    | ok ctx' => exact (ih ctx').trans (ctx.write_dialect ctx' p written)

theorem run_append_eq_none {ctx ctx' : Context} {a b : Script}
    (h : ctx.run (a ++ b) = (ctx', none)) :
    ∃ between, ctx.run a = (between, none) ∧ between.run b = (ctx', none) := by
  rw [Context.run_append] at h
  rcases reached : ctx.run a with ⟨between, none | e⟩
  · rw [reached] at h
    exact ⟨between, rfl, h⟩
  · rw [reached] at h
    cases h

theorem build_eq_ok {s : Script} {d : Dialect} {b : Built} (h : s.build d = .ok b) :
    ∃ ctx, Context.run { dialect := d } s = (ctx, none) ∧ b = ⟨ctx.sql, ctx.arguments⟩ := by
  rw [Script.build] at h
  rcases reached : Context.run { dialect := d } s with ⟨ctx, none | e⟩
  · rw [reached] at h
    cases h
    exact ⟨ctx, rfl, rfl⟩
  · rw [reached] at h
    cases h

end SqlAssembly
