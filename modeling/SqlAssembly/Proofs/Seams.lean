import SqlAssembly.Condition
import SqlAssembly.Proofs.Rendering
import SqlAssembly.Query.Script

/-! A predicate keeps its text in as few parts as possible. Nothing that a script comes to depends
   on where its text is cut, so a predicate can be read as its pieces side by side. -/
namespace SqlAssembly

/-- A way of looking at scripts that does not see where fragments meet. -/
structure Seamless {M : Type} (view : Script → M) : Prop where
  congr : ∀ {a b c d : Script}, view a = view b → view c = view d → view (a ++ c) = view (b ++ d)
  merge : ∀ s t vs ws,
    view [.fragment (s ++ t) (vs ++ ws)] = view [.fragment s vs, .fragment t ws]
  bare : ∀ sql, '?' ∉ sql.toList → view [.fragment sql []] = view [.text sql]

theorem seamless_arguments : Seamless Script.arguments where
  congr left right := by rw [arguments_append, arguments_append, left, right]
  merge s t vs ws := by simp [Script.arguments, Piece.values]
  bare _ _ := rfl

theorem seamless_failure : Seamless Script.failure? where
  congr left right := by rw [failure_append, failure_append, left, right]
  merge _ _ _ _ := rfl
  bare _ _ := rfl

theorem seamless_glyphs : Seamless Script.glyphs where
  congr left right := by rw [glyphs_append, glyphs_append, left, right]
  merge s t vs ws := by simp [Script.glyphs, Piece.glyphs, Glyph.fragment]
  bare sql unmarked := by
    simp only [Script.glyphs, List.flatMap_singleton, Piece.glyphs, Glyph.fragment, Glyph.verbatim]
    apply List.map_congr_left
    intro c member
    have other : c ≠ '?' := by
      intro same
      rw [same] at member
      exact unmarked member
    exact if_neg other

theorem fill_unmarked (p : Placeholder) (n : Nat) (cs : List Char) (h : '?' ∉ cs) :
    p.fill n cs = cs := by
  cases p with
  | question => rfl
  | numbered lead =>
    induction cs with
    | nil => rfl
    | cons c cs ih =>
      simp only [List.mem_cons, not_or] at h
      have rest : numberMarks lead.toList n cs = cs := ih h.2
      simp [Placeholder.fill, numberMarks, Ne.symm h.1, rest]

theorem fragment_unmarked (ctx : Context) (sql : String) (h : '?' ∉ sql.toList) :
    ctx.fragment sql [] = ctx.append sql := by
  simp [Context.fragment, Context.append, fill_unmarked _ _ _ h, List.count_eq_zero.mpr h,
    after_zero]

theorem seamless_run : Seamless fun s (ctx : Context) => ctx.run s where
  congr {a b c d} left right := by
    funext ctx
    simp only [Context.run_append, congrFun left ctx]
    rcases ctx.run b with ⟨ctx', none | e⟩
    · exact congrFun right ctx'
    · rfl
  merge s t vs ws := by
    funext ctx
    simp [Context.run, Context.write, Context.fragment_fragment]
  bare sql unmarked := by
    funext ctx
    simp [Context.run, Context.write, fragment_unmarked ctx sql unmarked]

namespace Seamless

variable {M : Type} {view : Script → M}

theorem prepend (h : Seamless view) (a : Script) {b c : Script} (same : view b = view c) :
    view (a ++ b) = view (a ++ c) := h.congr rfl same

theorem extend (h : Seamless view) (c : Script) {a b : Script} (same : view a = view b) :
    view (a ++ c) = view (b ++ c) := h.congr same rfl

theorem glue (h : Seamless view) (ps qs : List Part) :
    view ((Part.glue ps qs).flatMap Part.script) =
      view (ps.flatMap Part.script ++ qs.flatMap Part.script) := by
  induction ps with
  | nil => rfl
  | cons p ps ih =>
    cases ps with
    | cons r ps =>
      rw [Part.glue_cons_cons, List.flatMap_cons, List.flatMap_cons, List.append_assoc]
      exact h.prepend p.script ih
    | nil =>
      cases p with
      | subquery s =>
        rw [Part.glue_subquery, List.flatMap_cons, List.flatMap_cons, List.append_assoc]
        exact h.prepend _ ih
      | text sql values =>
        cases qs with
        | nil => rw [Part.glue_nil, List.flatMap_nil, List.append_nil]
        | cons q qs =>
          cases q with
          | subquery s => rfl
          | text more extra => exact h.extend _ (h.merge sql more values extra)

theorem glueAll (h : Seamless view) (pss : List (List Part)) :
    view ((Part.glueAll pss).flatMap Part.script) =
      view (pss.flatMap fun ps => ps.flatMap Part.script) := by
  induction pss with
  | nil => rfl
  | cons ps pss ih =>
    rw [List.flatMap_cons]
    exact (h.glue ps (Part.glueAll pss)).trans (h.prepend _ ih)

theorem plain (h : Seamless view) {sql : String} (unmarked : '?' ∉ sql.toList) :
    view ((Part.plain sql).flatMap Part.script) = view [.text sql] := by
  rw [Part.plain, List.flatMap_singleton]
  exact h.bare sql unmarked

theorem wrapped (h : Seamless view) (p : Predicate) :
    view (p.wrapped.flatMap Part.script) = view p.script.parenthesized := by
  rw [Predicate.wrapped, h.glueAll, Predicate.script_eq]
  simp only [List.flatMap_cons, List.flatMap_nil, List.append_nil]
  change _ = view ([.text "("] ++ (p.parts.flatMap Part.script ++ [.text ")"]))
  exact h.congr (h.plain (by decide)) (h.prepend _ (h.plain (by decide)))

theorem guarded (h : Seamless view) (p : Predicate) :
    view (p.guarded.flatMap Part.script) = view p.operand.guarded := by
  rcases p with ⟨parts, disjunction⟩
  cases disjunction with
  | true => exact h.wrapped ⟨parts, true⟩
  | false => exact congrArg view (Predicate.script_eq ⟨parts, false⟩).symm

theorem conj (h : Seamless view) (a b : Predicate) :
    view (a.conj b).script = view (a.operand.guarded ++ .text " AND " :: b.operand.guarded) := by
  rw [Predicate.script_eq, Predicate.conj, h.glueAll]
  simp only [List.flatMap_cons, List.flatMap_nil, List.append_nil]
  change _ = view (_ ++ ([.text " AND "] ++ _))
  exact h.congr (h.guarded a) (h.congr (h.plain (by decide)) (h.guarded b))

theorem disj (h : Seamless view) (a b : Predicate) :
    view (a.disj b).script =
      view (a.script.parenthesized ++ .text " OR " :: b.script.parenthesized) := by
  rw [Predicate.script_eq, Predicate.disj, h.glueAll]
  simp only [List.flatMap_cons, List.flatMap_nil, List.append_nil]
  change _ = view (_ ++ ([.text " OR "] ++ _))
  exact h.congr (h.wrapped a) (h.congr (h.plain (by decide)) (h.wrapped b))

theorem neg (h : Seamless view) (a : Predicate) :
    view a.neg.script = view (.text "NOT " :: a.script.parenthesized) := by
  rw [Predicate.script_eq, Predicate.neg, Predicate.leaf, h.glueAll]
  simp only [List.flatMap_cons, List.flatMap_nil, List.append_nil]
  change _ = view ([.text "NOT "] ++ _)
  exact h.congr (h.plain (by decide)) (h.wrapped a)

end Seamless

end SqlAssembly
