import Mathlib.Data.List.Basic
import SqlAssembly.Condition
import SqlAssembly.Proofs.Nesting
import SqlAssembly.Proofs.Payload

/-! Putting other values in the place of the bound ones, through everything that a statement is
   made of. What is written changes in its arguments and nowhere else. -/
namespace SqlAssembly

section Definitions

variable (s : Value → Value)

def Piece.mapValues : Piece → Piece
  | .fragment sql values => .fragment sql (values.map s)
  | p => p

def Script.mapValues (script : Script) : Script := script.map (Piece.mapValues s)

def Context.mapValues (ctx : Context) : Context := { ctx with arguments := ctx.arguments.map s }

def Built.mapValues (b : Built) : Built := ⟨b.sql, b.arguments.map s⟩

mutual

def Expr.mapValues : Expr → Expr
  | .term t => .term t
  | .subquery q => .subquery (mapSelect q)
  | .aliased e label => .aliased e.mapValues label

def Part.mapValues : Part → Part
  | .text sql values => .text sql (values.map s)
  | .subquery q => .subquery (mapSelect q)

def Predicate.mapValues : Predicate → Predicate
  | ⟨parts, disjunction⟩ => ⟨mapParts parts, disjunction⟩

def Join.mapValues : Join → Join
  | ⟨kind, target, on⟩ => ⟨kind, target.mapValues, on⟩

def Query.mapValues : Query → Query
  | ⟨distinct, columns, source, joins, filters, groups, groupFilters, order, limit, offset⟩ =>
    ⟨distinct, mapExprs columns, mapSource source, mapJoins joins, mapPredicates filters, groups,
      mapPredicates groupFilters, order, limit, offset⟩

def mapExprs : List Expr → List Expr
  | [] => []
  | e :: es => e.mapValues :: mapExprs es

def mapSource : Option Expr → Option Expr
  | none => none
  | some e => some e.mapValues

def mapJoins : List Join → List Join
  | [] => []
  | j :: js => j.mapValues :: mapJoins js

def mapParts : List Part → List Part
  | [] => []
  | p :: ps => p.mapValues :: mapParts ps

def mapPredicates : List Predicate → List Predicate
  | [] => []
  | p :: ps => p.mapValues :: mapPredicates ps

def mapSelect : Builder Query → Builder Query
  | ⟨.ok q, d⟩ => ⟨.ok q.mapValues, d⟩
  | ⟨.error e, d⟩ => ⟨.error e, d⟩

end

def Condition.mapValues (c : Condition) : Condition := c.map (Predicate.mapValues s)

end Definitions

variable {s : Value → Value}

theorem mapExprs_eq_map (es : List Expr) : mapExprs s es = es.map (Expr.mapValues s) := by
  induction es with
  | nil => rfl
  | cons e es ih => rw [mapExprs, ih, List.map_cons]

theorem mapJoins_eq_map (js : List Join) : mapJoins s js = js.map (Join.mapValues s) := by
  induction js with
  | nil => rfl
  | cons j js ih => rw [mapJoins, ih, List.map_cons]

theorem mapParts_eq_map (ps : List Part) : mapParts s ps = ps.map (Part.mapValues s) := by
  induction ps with
  | nil => rfl
  | cons p ps ih => rw [mapParts, ih, List.map_cons]

theorem mapPredicates_eq_map (ps : List Predicate) :
    mapPredicates s ps = ps.map (Predicate.mapValues s) := by
  induction ps with
  | nil => rfl
  | cons p ps ih => rw [mapPredicates, ih, List.map_cons]

theorem mapSource_eq_map (source : Option Expr) :
    mapSource s source = source.map (Expr.mapValues s) := by
  cases source with
  | none => rfl
  | some e => rw [mapSource, Option.map_some]

theorem mapSelect_eq (q : Select) :
    mapSelect s q = { q with state := q.state.map (Query.mapValues s) } := by
  rcases q with ⟨state, d⟩
  cases state with
  | ok q => rw [mapSelect]; rfl
  | error e => rw [mapSelect]; rfl

/-! Scripts. -/

theorem mapValues_append (a b : Script) :
    Script.mapValues s (a ++ b) = Script.mapValues s a ++ Script.mapValues s b := List.map_append

theorem mapValues_text (sql : String) (script : Script) :
    Script.mapValues s (.text sql :: script) = .text sql :: Script.mapValues s script := rfl

theorem mapValues_flatMap {α : Type} (f : α → Script) (xs : List α) :
    Script.mapValues s (xs.flatMap f) = xs.flatMap fun x => Script.mapValues s (f x) :=
  List.map_flatMap

/-- Where nothing is bound there is nothing to change. -/
theorem mapValues_unbound {script : Script} (unbound : script.arguments = []) :
    Script.mapValues s script = script := by
  have fixed : ∀ p ∈ script, Piece.mapValues s p = p := by
    intro p member
    have values := List.flatMap_eq_nil_iff.mp unbound p member
    cases p with
    | fragment sql vs =>
      have empty : vs = [] := values
      rw [empty]
      rfl
    | _ => rfl
  rw [Script.mapValues, List.map_congr_left fixed, List.map_id']

theorem mapValues_separated (separator : String) (ss : List Script) :
    Script.mapValues s (Script.separated separator ss) =
      Script.separated separator (ss.map (Script.mapValues s)) := by
  induction ss with
  | nil => rfl
  | cons a ss ih =>
    cases ss with
    | nil => rfl
    | cons b ss =>
      rw [Script.separated, mapValues_append, mapValues_text, ih]
      rfl

theorem mapValues_parenthesized (script : Script) :
    Script.mapValues s script.parenthesized = (Script.mapValues s script).parenthesized := by
  rw [Script.parenthesized, List.cons_append, mapValues_text, mapValues_append]
  rfl

theorem mapValues_nested (script : Script) :
    Script.mapValues s script.nested = (Script.mapValues s script).nested := by
  rw [Script.nested, mapValues_parenthesized, Script.nested]
  have commute :
      Piece.mapValues s ∘ Script.nestedPiece = Script.nestedPiece ∘ Piece.mapValues s := by
    funext p
    cases p <;> rfl
  simp only [Script.mapValues, List.map_map, commute]

theorem mapValues_filterClause (keyword : String) (os : List Operand) :
    Script.mapValues s (filterClause keyword os) =
      filterClause keyword (os.map fun o => (o.1, Script.mapValues s o.2)) := by
  have guarded (o : Operand) :
      Script.mapValues s o.guarded = Operand.guarded (o.1, Script.mapValues s o.2) := by
    rcases o with ⟨disjunction, script⟩
    cases disjunction with
    | false => rfl
    | true => exact mapValues_parenthesized script
  match os with
  | [] => rfl
  | [o] => rfl
  | o :: p :: os =>
    simp only [List.map_cons, filterClause, mapValues_text, mapValues_separated, guarded,
      List.map_map, Function.comp_def]

theorem mapValues_projection (ss : List Script) :
    Script.mapValues s (projection ss) = projection (ss.map (Script.mapValues s)) := by
  cases ss with
  | nil => rfl
  | cons a ss => exact mapValues_separated ", " (a :: ss)

theorem mapValues_term (t : Term) : Script.mapValues s t.script = t.script :=
  mapValues_unbound (arguments_of_payload (payload_term t))

theorem mapValues_predicate {p : Predicate}
    (nested : ∀ q, Part.subquery q ∈ p.parts →
      Select.script (mapSelect s q) = Script.mapValues s (Select.script q)) :
    (p.mapValues s).script = Script.mapValues s p.script := by
  rcases p with ⟨parts, disjunction⟩
  have each : ∀ part ∈ parts, (part.mapValues s).script = Script.mapValues s part.script := by
    intro part member
    cases part with
    | text sql values => rfl
    | subquery q =>
      have inner := nested q member
      change Script.nested (Select.script (mapSelect s q)) = _
      rw [inner, ← mapValues_nested]
      rfl
  rw [Predicate.script_eq, Predicate.script_eq, mapValues_flatMap]
  change (mapParts s parts).flatMap Part.script = _
  rw [mapParts_eq_map, List.flatMap_map]
  exact List.flatMap_congr each

theorem mapValues_predicates {ps : List Predicate}
    (nested : Nested (fun q => Select.script (mapSelect s q) = Script.mapValues s (Select.script q))
      ps) (keyword : String) :
    filterClause keyword ((mapPredicates s ps).map Predicate.operand) =
      Script.mapValues s (filterClause keyword (ps.map Predicate.operand)) := by
  rw [mapValues_filterClause, mapPredicates_eq_map, List.map_map, List.map_map]
  congr 1
  apply List.map_congr_left
  intro p member
  have script := mapValues_predicate (nested p member)
  rcases p with ⟨parts, disjunction⟩
  exact congrArg (Prod.mk disjunction) script

theorem mapValues_join {j : Join}
    (target : (j.target.mapValues s).script = Script.mapValues s j.target.script) :
    (j.mapValues s).script = Script.mapValues s j.script := by
  rcases j with ⟨kind, e, on⟩
  have unbound : Script.mapValues s (onClause on) = onClause on := by cases on <;> rfl
  rw [Join.mapValues, Join.script, Join.script, List.cons_append, List.cons_append,
    mapValues_text, mapValues_append, unbound]
  exact congrArg (fun script => _ :: (script ++ onClause on)) target

theorem mapValues_query {q : Query}
    (h : Clausewise (fun e => (e.mapValues s).script = Script.mapValues s e.script)
      (fun q => Select.script (mapSelect s q) = Script.mapValues s (Select.script q)) q) :
    (q.mapValues s).script = Script.mapValues s q.script := by
  have columns : (mapExprs s q.columns).map Expr.script =
      (q.columns.map Expr.script).map (Script.mapValues s) := by
    rw [mapExprs_eq_map, List.map_map, List.map_map]
    exact List.map_congr_left h.columns
  have source :
      sourceScript (mapSource s q.source) = Script.mapValues s (sourceScript q.source) := by
    cases named : q.source with
    | none => rfl
    | some e => exact congrArg (Piece.text " FROM " :: ·) (h.source e named)
  have joins : (mapJoins s q.joins).flatMap Join.script =
      Script.mapValues s (q.joins.flatMap Join.script) := by
    rw [mapJoins_eq_map, List.flatMap_map, mapValues_flatMap]
    exact List.flatMap_congr fun j member => mapValues_join (h.joins j member)
  have filters := mapValues_predicates h.filters "WHERE"
  have groupFilters := mapValues_predicates h.groupFilters "HAVING"
  have groups : Script.mapValues s (listClause "GROUP BY" (q.groups.map Term.script)) =
      listClause "GROUP BY" (q.groups.map Term.script) := by
    apply mapValues_unbound
    apply arguments_of_payload
    simp [payload_listClause, List.flatMap_map, payload_term]
  have order : Script.mapValues s (listClause "ORDER BY" (q.order.map OrderItem.script)) =
      listClause "ORDER BY" (q.order.map OrderItem.script) := by
    apply mapValues_unbound
    apply arguments_of_payload
    simp [payload_listClause, List.flatMap_map, payload_order]
  have count (keyword : String) (n : Option Nat) :
      Script.mapValues s (countClause keyword n) = countClause keyword n := by cases n <;> rfl
  rcases q with ⟨distinct, cs, from_, js, fs, gs, gfs, os, limit, offset⟩
  rw [Query.mapValues, Query.script_eq, Query.script_eq, mapValues_text]
  simp only [mapValues_append, mapValues_projection, groups, order, count]
  rw [columns, source, joins, filters, groupFilters]

theorem mapValues_hereditary :
    Hereditary (fun e => (e.mapValues s).script = Script.mapValues s e.script)
      (fun q => Select.script (mapSelect s q) = Script.mapValues s (Select.script q)) where
  term t := (mapValues_term t).symm
  subquery q inner := by
    have nested := mapValues_nested (s := s) (Select.script q)
    rw [← inner] at nested
    exact nested.symm
  aliased e label inner := by
    change (e.mapValues s).script ++ [.text (" AS " ++ label)] =
      Script.mapValues s (e.script ++ [.text (" AS " ++ label)])
    rw [inner, mapValues_append]
    rfl
  failed _ _ := rfl
  query _ _ := mapValues_query

theorem mapValues_select (q : Select) :
    Select.script (mapSelect s q) = Script.mapValues s (Select.script q) :=
  mapValues_hereditary.select q

/-! Runs. -/

theorem write_mapValues (ctx : Context) (p : Piece) :
    (ctx.mapValues s).write (p.mapValues s) = (ctx.write p).map (Context.mapValues s) := by
  cases p with
  | fragment sql values =>
    simp [Context.write, Piece.mapValues, Context.fragment, Context.mapValues, Except.map]
  | need f =>
    by_cases known : ctx.dialect.supports f <;>
      simp [Context.write, Piece.mapValues, Context.mapValues, known, Except.map]
  | _ => rfl

theorem run_mapValues (ctx : Context) (script : Script) :
    (ctx.mapValues s).run (script.mapValues s) =
      ((ctx.run script).1.mapValues s, (ctx.run script).2) := by
  induction script generalizing ctx with
  | nil => rfl
  | cons p script ih =>
    have step := write_mapValues (s := s) ctx p
    change Context.run (ctx.mapValues s) (p.mapValues s :: Script.mapValues s script) = _
    rw [Context.run, Context.run, step]
    cases ctx.write p with
    | ok ctx' => exact ih ctx'
    | error e => rfl

theorem build_mapValues (script : Script) (d : Dialect) :
    (script.mapValues s).build d = (script.build d).map (Built.mapValues s) := by
  have run := run_mapValues (s := s) { dialect := d } script
  change Context.outcome (Context.run (Context.mapValues s { dialect := d }) _) = _
  rw [run, Script.build]
  rcases Context.run { dialect := d } script with ⟨ctx, none | e⟩ <;> rfl

/-! Conditions. -/

theorem glue_mapValues (ps qs : List Part) :
    (Part.glue ps qs).map (Part.mapValues s) =
      Part.glue (ps.map (Part.mapValues s)) (qs.map (Part.mapValues s)) := by
  induction ps with
  | nil => rfl
  | cons p ps ih =>
    cases ps with
    | cons r ps =>
      rw [Part.glue_cons_cons, List.map_cons, ih]
      exact (Part.glue_cons_cons _ _ _ _).symm
    | nil =>
      cases p with
      | subquery q =>
        rw [Part.glue_subquery, List.map_cons, ih]
        exact (Part.glue_subquery _ _ _).symm
      | text sql values =>
        cases qs with
        | nil => rfl
        | cons q qs =>
          cases q with
          | subquery q => rfl
          | text more extra => simp [Part.glue, Part.mapValues]

theorem glueAll_mapValues (pss : List (List Part)) :
    (Part.glueAll pss).map (Part.mapValues s) =
      Part.glueAll (pss.map fun ps => ps.map (Part.mapValues s)) := by
  induction pss with
  | nil => rfl
  | cons ps pss ih =>
    change (Part.glue ps (Part.glueAll pss)).map _ = _
    rw [glue_mapValues, ih]
    rfl

theorem predicate_mapValues (p : Predicate) :
    p.mapValues s = ⟨p.parts.map (Part.mapValues s), p.disjunction⟩ := by
  rcases p with ⟨parts, disjunction⟩
  rw [Predicate.mapValues, mapParts_eq_map]

theorem wrapped_mapValues (p : Predicate) :
    p.wrapped.map (Part.mapValues s) = (p.mapValues s).wrapped := by
  rw [Predicate.wrapped, glueAll_mapValues, predicate_mapValues]
  rfl

theorem guarded_mapValues (p : Predicate) :
    p.guarded.map (Part.mapValues s) = (p.mapValues s).guarded := by
  have wrapped := wrapped_mapValues (s := s) p
  rw [predicate_mapValues] at wrapped ⊢
  unfold Predicate.guarded
  cases p.disjunction with
  | true => exact wrapped
  | false => rfl

theorem conj_mapValues (p q : Predicate) :
    (p.conj q).mapValues s = (p.mapValues s).conj (q.mapValues s) := by
  rw [predicate_mapValues, Predicate.conj, glueAll_mapValues]
  simp only [List.map_cons, List.map_nil, guarded_mapValues]
  rfl

theorem disj_mapValues (p q : Predicate) :
    (p.disj q).mapValues s = (p.mapValues s).disj (q.mapValues s) := by
  rw [predicate_mapValues, Predicate.disj, glueAll_mapValues]
  simp only [List.map_cons, List.map_nil, wrapped_mapValues]
  rfl

theorem neg_mapValues (p : Predicate) : p.neg.mapValues s = (p.mapValues s).neg := by
  rw [predicate_mapValues, Predicate.neg, Predicate.leaf, glueAll_mapValues]
  simp only [List.map_cons, List.map_nil, wrapped_mapValues]
  rfl

/-- The substitution neither makes a NULL nor takes one away. -/
def KeepsNull (s : Value → Value) : Prop := ∀ v, (s v).isNull = v.isNull

theorem leaf_mapValues (sql : String) (values : List Value) :
    Condition.leaf sql (values.map s) = (Condition.leaf sql values).mapValues s := rfl

theorem compare_mapValues (keeps : KeepsNull s) (column : String) (op : Comparison) (v : Value) :
    Condition.compare column op (s v) = (Condition.compare column op v).mapValues s := by
  unfold Condition.compare
  rw [keeps v]
  cases v.isNull with
  | false => exact leaf_mapValues _ [v]
  | true => cases op <;> rfl

theorem member_mapValues (keeps : KeepsNull s) (column : String) (polarity : Polarity)
    (values : List Value) :
    Condition.member column polarity (values.map s) =
      (Condition.member column polarity values).mapValues s := by
  have nulls : (values.map s).any Value.isNull = values.any Value.isNull := by
    rw [List.any_map]
    exact congrArg values.any (funext keeps)
  unfold Condition.member
  rw [List.isEmpty_map, nulls, List.length_map]
  cases values.isEmpty with
  | true => rfl
  | false =>
    cases values.any Value.isNull with
    | true => rfl
    | false => exact leaf_mapValues _ values

theorem between_mapValues (keeps : KeepsNull s) (column : String) (polarity : Polarity)
    (low high : Value) :
    Condition.between column polarity (s low) (s high) =
      (Condition.between column polarity low high).mapValues s := by
  unfold Condition.between
  rw [keeps low, keeps high]
  cases low.isNull || high.isNull with
  | true => rfl
  | false => exact leaf_mapValues _ [low, high]

theorem raw_mapValues (sql : String) (values : List Value) :
    Condition.raw sql (values.map s) = (Condition.raw sql values).mapValues s := by
  simp only [Condition.raw, List.length_map]
  split
  · exact leaf_mapValues sql values
  · rfl

theorem existence_mapValues (polarity : Polarity) (e : Expr) :
    Condition.existence polarity (e.mapValues s) =
      (Condition.existence polarity e).mapValues s := by
  cases e with
  | term t => cases t <;> rfl
  | subquery q => rfl
  | aliased e label => rfl

theorem conj_condition_mapValues (a b : Condition) :
    (a.conj b).mapValues s = (a.mapValues s).conj (b.mapValues s) := by
  cases a with
  | error e => rfl
  | ok p =>
    cases b with
    | error e => rfl
    | ok q => exact congrArg Except.ok (conj_mapValues p q)

theorem disj_condition_mapValues (a b : Condition) :
    (a.disj b).mapValues s = (a.mapValues s).disj (b.mapValues s) := by
  cases a with
  | error e => rfl
  | ok p =>
    cases b with
    | error e => rfl
    | ok q => exact congrArg Except.ok (disj_mapValues p q)

theorem neg_condition_mapValues (a : Condition) : a.neg.mapValues s = (a.mapValues s).neg := by
  cases a with
  | error e => rfl
  | ok p => exact congrArg Except.ok (neg_mapValues p)

def CaseExpr.mapValues (s : Value → Value) (c : CaseExpr) : CaseExpr where
  branches := c.branches.map fun branch => (branch.1.mapValues s, s branch.2)
  fallback := c.fallback.map s

theorem branchParts_mapValues (branches : List (Condition × Value)) :
    CaseExpr.branchParts (branches.map fun branch => (branch.1.mapValues s, s branch.2)) =
      (CaseExpr.branchParts branches).map fun parts => parts.map (Part.mapValues s) := by
  induction branches with
  | nil => rfl
  | cons branch branches ih =>
    rcases branch with ⟨condition, v⟩
    rw [List.map_cons, CaseExpr.branchParts, CaseExpr.branchParts, ih]
    cases condition with
    | error e => rfl
    | ok p =>
      cases CaseExpr.branchParts branches with
      | error e => rfl
      | ok parts =>
        have glued := glueAll_mapValues (s := s) [Part.plain " WHEN ", p.parts,
          Part.plain " THEN ", [.text "?" [v]], parts]
        have same : (p.mapValues s).parts = p.parts.map (Part.mapValues s) := by
          rw [predicate_mapValues]
        refine congrArg Except.ok (Eq.trans ?_ glued.symm)
        rw [same]
        rfl

theorem case_condition_mapValues (c : CaseExpr) :
    (c.mapValues s).condition = c.condition.mapValues s := by
  rcases c with ⟨branches, fallback⟩
  have parts := branchParts_mapValues (s := s) branches
  have fallbacks : (CaseExpr.fallbackParts fallback).map (Part.mapValues s) =
      CaseExpr.fallbackParts (fallback.map s) := by cases fallback <;> rfl
  simp only [CaseExpr.mapValues, CaseExpr.condition, List.isEmpty_map, parts]
  cases branches.isEmpty with
  | true => rfl
  | false =>
    cases CaseExpr.branchParts branches with
    | error e => rfl
    | ok parts =>
      have glued := glueAll_mapValues (s := s) [Part.plain "CASE", parts,
        CaseExpr.fallbackParts fallback, Part.plain " END"]
      simp only [List.map_cons, List.map_nil, fallbacks] at glued
      refine congrArg Except.ok ?_
      rw [predicate_mapValues]
      exact congrArg (Predicate.mk · false) glued.symm

end SqlAssembly
