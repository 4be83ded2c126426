import Mathlib.Algebra.GroupWithZero.Nat
import Mathlib.Data.List.Forall2
import SqlAssembly.Proofs.FirstFault
import SqlAssembly.Proofs.NestedQueries
import SqlAssembly.Proofs.Payload

/-! Marks and values of a condition. A raw test is checked for having as many of the one as of the
   other. A column, and the raw text of an EXISTS, is taken as it is: its marks are the only ones
   that no value belongs to, and they shift the numbers of all later arguments. -/
namespace SqlAssembly

def markCount (sql : String) : Nat := sql.toList.count '?'

def Part.Balanced : Part → Prop
  | .text sql values => markCount sql = values.length
  | .subquery _ => True

/-- No text has fewer marks than values, and this many marks have no value. -/
inductive Surplus : List Part → Nat → Prop where
  | nil : Surplus [] 0
  | text {sql : String} {values : List Value} {ps : List Part} {n : Nat} (extra : Nat) :
      markCount sql = values.length + extra → Surplus ps n →
      Surplus (.text sql values :: ps) (extra + n)
  | subquery {s : Select} {ps : List Part} {n : Nat} : Surplus ps n →
      Surplus (.subquery s :: ps) n

/-- The texts that a test takes unchecked. -/
def CondTree.testTexts : CondTree → List String
  | .compare column _ _ => [column]
  | .member column _ _ => [column]
  | .memberOf column _ _ => [column]
  | .between column _ _ _ => [column]
  | .nullTest column _ => [column]
  | .existence _ (.term (.raw sql)) => [sql]
  | _ => []

/-- Those of a condition, but not of the queries in it. -/
def CondTree.ownTexts (t : CondTree) : List String := t.tests.flatMap testTexts

def strayMarks (texts : List String) : Nat := (texts.map markCount).sum

def Unmarked (texts : List String) : Prop := ∀ sql ∈ texts, '?' ∉ sql.toList

instance (texts : List String) : Decidable (Unmarked texts) := List.decidableBAll _ texts

theorem markCount_append (a b : String) : markCount (a ++ b) = markCount a + markCount b := by
  simp [markCount]

theorem strayMarks_append (a b : List String) :
    strayMarks (a ++ b) = strayMarks a + strayMarks b := by
  simp [strayMarks]

theorem unmarked_append {a b : List String} : Unmarked (a ++ b) ↔ Unmarked a ∧ Unmarked b :=
  List.forall_mem_append

theorem markCount_eq_zero_iff (sql : String) : markCount sql = 0 ↔ '?' ∉ sql.toList :=
  List.count_eq_zero

theorem strayMarks_eq_zero_iff (texts : List String) : strayMarks texts = 0 ↔ Unmarked texts := by
  induction texts with
  | nil => simp [strayMarks, Unmarked]
  | cons sql texts ih =>
    have split : strayMarks (sql :: texts) = markCount sql + strayMarks texts := List.sum_cons
    rw [split, Nat.add_eq_zero_iff, ih, markCount_eq_zero_iff]
    simp only [Unmarked, List.forall_mem_cons]

/-! Surplus marks of what is put together. -/

theorem surplus_plain {sql : String} (bare : markCount sql = 0) : Surplus (Part.plain sql) 0 :=
  .text 0 bare .nil

theorem surplus_glue {ps qs : List Part} {m n : Nat} (left : Surplus ps m) (right : Surplus qs n) :
    Surplus (Part.glue ps qs) (m + n) := by
  induction left with
  | nil =>
    rw [Nat.zero_add]
    exact right
  | subquery _ ih =>
    rw [Part.glue_subquery]
    exact .subquery ih
  | @text sql values ps k extra marks rest ih =>
    rw [Nat.add_assoc]
    cases ps with
    | cons p ps =>
      rw [Part.glue_cons_cons]
      exact .text extra marks ih
    | nil =>
      cases rest
      rw [Nat.zero_add]
      cases right with
      | nil => exact .text extra marks .nil
      | subquery later => exact .text extra marks (.subquery later)
      | @text more others qs k added matched later =>
        -- Two texts that meet add up their marks and their values.
        have both : markCount (sql ++ more) = (values ++ others).length + (extra + added) := by
          rw [markCount_append, marks, matched, List.length_append]
          omega
        rw [← Nat.add_assoc]
        exact .text (extra + added) both later

theorem surplus_glueAll {pss : List (List Part)} {ns : List Nat}
    (each : List.Forall₂ Surplus pss ns) : Surplus (Part.glueAll pss) ns.sum := by
  induction each with
  | nil => exact .nil
  | cons first _ ih =>
    rw [List.sum_cons]
    exact surplus_glue first ih

theorem surplus_wrapped {p : Predicate} {n : Nat} (h : Surplus p.parts n) :
    Surplus p.wrapped n := by
  have opening : Surplus (Part.plain "(") 0 := surplus_plain (by decide)
  have closing : Surplus (Part.plain ")") 0 := surplus_plain (by decide)
  have whole := surplus_glueAll (.cons opening (.cons h (.cons closing .nil)))
  simp only [List.sum_cons, List.sum_nil, Nat.zero_add, Nat.add_zero] at whole
  exact whole

theorem surplus_guarded {p : Predicate} {n : Nat} (h : Surplus p.parts n) :
    Surplus p.guarded n := by
  unfold Predicate.guarded
  split
  · exact surplus_wrapped h
  · exact h

theorem surplus_joined {ps qs : List Part} {m n : Nat} {sql : String} (bare : markCount sql = 0)
    (left : Surplus ps m) (right : Surplus qs n) :
    Surplus (Part.glueAll [ps, Part.plain sql, qs]) (m + n) := by
  have whole := surplus_glueAll (.cons left (.cons (surplus_plain bare) (.cons right .nil)))
  simpa using whole

/-! Surplus marks of a condition. -/

theorem surplus_leaf {sql : String} {values : List Value} {p : Predicate} {n : Nat}
    (marks : markCount sql = n + values.length) (sound : Condition.leaf sql values = .ok p) :
    Surplus p.parts n := by
  cases sound
  exact .text n (marks.trans (Nat.add_comm n values.length)) .nil

theorem surplus_nullTest {column : String} {polarity : Polarity} {p : Predicate}
    (sound : Condition.nullTest column polarity = .ok p) : Surplus p.parts (markCount column) := by
  have words : markCount " IS " + markCount (polarity.keyword "NULL") = 0 := by
    cases polarity <;> decide
  refine surplus_leaf ?_ sound
  rw [markCount_append, markCount_append, Nat.add_assoc, words]
  rfl

theorem surplus_compare {column : String} {op : Comparison} {v : Value} {p : Predicate}
    (sound : Condition.compare column op v = .ok p) : Surplus p.parts (markCount column) := by
  unfold Condition.compare at sound
  split at sound
  · split at sound
    · exact surplus_nullTest sound
    · exact surplus_nullTest sound
    · cases sound
  · have words : markCount " " + markCount op.keyword + markCount " ?" = 1 := by
      cases op <;> decide
    refine surplus_leaf ?_ sound
    rw [markCount_append, markCount_append, markCount_append, List.length_singleton]
    omega

theorem surplus_member {column : String} {polarity : Polarity} {values : List Value}
    {p : Predicate} (sound : Condition.member column polarity values = .ok p) :
    Surplus p.parts (markCount column) := by
  unfold Condition.member at sound
  split at sound
  · cases sound
  · split at sound
    · cases sound
    · have words : markCount " " + markCount (Operator.member polarity).keyword + markCount " (" +
          markCount ")" = 0 := by cases polarity <;> decide
      have listed : markCount (Condition.marks values.length) = values.length :=
        Condition.count_marks values.length
      refine surplus_leaf ?_ sound
      simp only [markCount_append]
      omega

theorem surplus_between {column : String} {polarity : Polarity} {low high : Value} {p : Predicate}
    (sound : Condition.between column polarity low high = .ok p) :
    Surplus p.parts (markCount column) := by
  unfold Condition.between at sound
  split at sound
  · cases sound
  · have words : markCount " " + markCount (Operator.between polarity).keyword +
        markCount " ? AND ?" = 2 := by cases polarity <;> decide
    have both : [low, high].length = 2 := rfl
    refine surplus_leaf ?_ sound
    rw [markCount_append, markCount_append, markCount_append, both]
    omega

theorem surplus_raw {sql : String} {values : List Value} {p : Predicate}
    (sound : Condition.raw sql values = .ok p) : Surplus p.parts 0 := by
  simp only [Condition.raw] at sound
  split at sound
  · rename_i balanced
    exact surplus_leaf (balanced.trans (Nat.zero_add _).symm) sound
  · cases sound

theorem surplus_existence {polarity : Polarity} {e : ExprTree} {p : Predicate}
    (sound : Condition.existence polarity e.expr = .ok p) :
    Surplus p.parts (strayMarks (CondTree.existence polarity e).testTexts) := by
  cases e with
  | aliased e label => cases sound
  | subquery cs =>
    cases sound
    have word : markCount ((StrictClause.exists polarity).keyword ++ " ") = 0 := by
      cases polarity <;> decide
    exact .text 0 word (.subquery .nil)
  | term t =>
    cases t with
    | name sql => cases sound
    | call sql => cases sound
    | raw sql =>
      have words : markCount (StrictClause.exists polarity).keyword + markCount " (" +
          markCount ")" = 0 := by cases polarity <;> decide
      have own : strayMarks (CondTree.existence polarity (.term (.raw sql))).testTexts =
          markCount sql := Nat.add_zero _
      refine surplus_leaf ?_ sound
      rw [markCount_append, markCount_append, markCount_append, own, List.length_nil]
      omega

theorem surplus_atom {t : CondTree} (atom : t.isAtom = true) {p : Predicate}
    (sound : t.condition = .ok p) : Surplus p.parts (strayMarks t.testTexts) := by
  have single (column : String) : strayMarks [column] = markCount column := Nat.add_zero _
  cases t with
  | compare column op v =>
    rw [CondTree.testTexts, single]
    exact surplus_compare sound
  | member column polarity values =>
    rw [CondTree.testTexts, single]
    exact surplus_member sound
  | memberOf column polarity cs =>
    have words : markCount " " + markCount (Operator.member polarity).keyword +
        markCount " " = 0 := by cases polarity <;> decide
    rw [CondTree.testTexts, single]
    cases sound
    refine .text (markCount column) ?_ (.subquery .nil)
    rw [markCount_append, markCount_append, markCount_append, List.length_nil]
    omega
  | between column polarity low high =>
    rw [CondTree.testTexts, single]
    exact surplus_between sound
  | nullTest column polarity =>
    rw [CondTree.testTexts, single]
    exact surplus_nullTest sound
  | existence polarity e => exact surplus_existence sound
  | raw sql values => exact surplus_raw sound
  | conj a b => cases atom
  | disj a b => cases atom
  | neg a => cases atom
  | case cs => cases atom

theorem strayMarks_tests (ts us : List CondTree) :
    strayMarks ((ts ++ us).flatMap CondTree.testTexts) =
      strayMarks (ts.flatMap CondTree.testTexts) + strayMarks (us.flatMap CondTree.testTexts) := by
  rw [List.flatMap_append, strayMarks_append]

theorem surplus_branches {cs : List CaseCall}
    (each : ∀ t v, CaseCall.when t v ∈ cs → ∀ p, t.condition = .ok p →
      Surplus p.parts (strayMarks t.ownTexts))
    {parts : List Part} (sound : CaseExpr.branchParts (cs.flatMap CaseCall.branch) = .ok parts) :
    Surplus parts (strayMarks ((branchTests cs).flatMap CondTree.testTexts)) := by
  induction cs generalizing parts with
  | nil => cases sound; exact .nil
  | cons c cs ih =>
    have rest := fun t v member => each t v (List.mem_cons_of_mem c member)
    cases c with
    | otherwise v => exact ih rest sound
    | when t v =>
      obtain ⟨p, later, branch, others, rfl⟩ := branchParts_cons_eq_ok sound
      have first : Surplus p.parts (strayMarks t.ownTexts) := each t v List.mem_cons_self p branch
      have opening : Surplus (Part.plain " WHEN ") 0 := surplus_plain (by decide)
      have between : Surplus (Part.plain " THEN ") 0 := surplus_plain (by decide)
      have bound : Surplus [.text "?" [v]] 0 := .text 0 rfl .nil
      have whole := surplus_glueAll (.cons opening (.cons first (.cons between (.cons bound
        (.cons (ih rest others) .nil)))))
      simp only [List.sum_cons, List.sum_nil, Nat.zero_add, Nat.add_zero] at whole
      rw [branchTests, CaseCall.tests, strayMarks_tests]
      exact whole

theorem surplus_fallback (v : Option Value) : Surplus (CaseExpr.fallbackParts v) 0 := by
  cases v with
  | none => exact .nil
  | some v =>
    have one : markCount " ELSE ?" = 1 := by decide
    exact .text 0 one .nil

theorem branched_of_made {cs : List CaseCall} {p : Predicate}
    (sound : (CondTree.case cs).condition = .ok p) : isBranched cs = true := by
  cases branched : isBranched cs with
  | true => rfl
  | false =>
    have none := (condition_error (.case cs)).symm
    rw [sound, CondTree.fault?, CondTree.tests, branched] at none
    cases none

/-- The surplus marks of a condition are those of the texts that nobody checked. -/
theorem condition_surplus (t : CondTree) :
    ∀ p, t.condition = .ok p → Surplus p.parts (strayMarks t.ownTexts) := by
  induction t using tree_induction with
  | atom t atom =>
    intro p sound
    have own : t.ownTexts = t.testTexts := by
      rw [CondTree.ownTexts, tests_atom atom]
      exact List.append_nil _
    rw [own]
    exact surplus_atom atom sound
  | conj a b left right =>
    intro p sound
    obtain ⟨q, r, hq, hr, rfl⟩ := conj_eq_ok sound
    rw [CondTree.ownTexts, CondTree.tests, strayMarks_tests]
    exact surplus_joined (by decide) (surplus_guarded (left q hq)) (surplus_guarded (right r hr))
  | disj a b left right =>
    intro p sound
    obtain ⟨q, r, hq, hr, rfl⟩ := disj_eq_ok sound
    rw [CondTree.ownTexts, CondTree.tests, strayMarks_tests]
    exact surplus_joined (by decide) (surplus_wrapped (left q hq)) (surplus_wrapped (right r hr))
  | neg a operand =>
    intro p sound
    obtain ⟨q, hq, rfl⟩ := neg_eq_ok sound
    have word : Surplus (Part.plain "NOT ") 0 := surplus_plain (by decide)
    have whole := surplus_glueAll (.cons word (.cons (surplus_wrapped (operand q hq)) .nil))
    simp only [List.sum_cons, List.sum_nil, Nat.zero_add, Nat.add_zero] at whole
    rw [CondTree.ownTexts, CondTree.tests]
    exact whole
  | case cs branches =>
    intro p sound
    have branched := branched_of_made sound
    obtain ⟨parts, made, rfl⟩ := case_eq_ok sound
    have opening : Surplus (Part.plain "CASE") 0 := surplus_plain (by decide)
    have closing : Surplus (Part.plain " END") 0 := surplus_plain (by decide)
    have whole := surplus_glueAll (.cons opening (.cons (surplus_branches branches made)
      (.cons (surplus_fallback (lastOtherwise cs)) (.cons closing .nil))))
    simp only [List.sum_cons, List.sum_nil, Nat.zero_add, Nat.add_zero] at whole
    rw [CondTree.ownTexts, CondTree.tests, if_pos branched]
    exact whole

/-! Numbers and arguments of a run. -/

def Piece.Balanced : Piece → Prop
  | .fragment sql values => markCount sql = values.length
  | _ => True

theorem undemanding_balanced : Undemanding Piece.Balanced where
  text _ := trivial
  qualified _ := trivial
  failure _ := trivial
  argument _ := by
    have one : markCount "?" = 1 := by decide
    exact one

theorem markers_balanced {s : Script} (balanced : s.Each Piece.Balanced) :
    s.glyphs.count .marker = s.arguments.length := by
  induction s with
  | nil => rfl
  | cons p s ih =>
    obtain ⟨first, later⟩ := List.forall_mem_cons.mp balanced
    have own : p.glyphs.count .marker = p.values.length := by
      cases p with
      | text sql => exact count_verbatim sql.toList
      | qualified name => exact count_dotted name.toList
      | fragment sql values => exact (count_fragment sql.toList).trans first
      | _ => rfl
    have glyphs : Script.glyphs (p :: s) = p.glyphs ++ Script.glyphs s := List.flatMap_cons
    have arguments : Script.arguments (p :: s) = p.values ++ Script.arguments s :=
      List.flatMap_cons
    rw [glyphs, arguments, List.count_append, List.length_append, own, ih later]

namespace Context

/-- On the way the next number has grown by this much more than the list of arguments. -/
def Shifted (ctx ctx' : Context) (n : Nat) : Prop :=
  ctx'.next + ctx.arguments.length = ctx.next + ctx'.arguments.length + n

variable {ctx ctx' : Context} {lead : String}

theorem Shifted.trans {a b c : Context} {m n : Nat} (first : a.Shifted b m)
    (later : b.Shifted c n) : a.Shifted c (m + n) := by
  unfold Shifted at first later ⊢
  omega

theorem shifted_extended (numbered : ctx.dialect.placeholder = .numbered lead) {gs : List Glyph}
    {vs : List Value} {n : Nat} (markers : gs.count .marker = vs.length + n) :
    ctx.Shifted (ctx.extended gs vs) n := by
  unfold Shifted
  simp only [extended, numbered, Placeholder.after, List.length_append]
  omega

/-- A run that is stopped half-way shifts nothing either. -/
theorem shifted_run (numbered : ctx.dialect.placeholder = .numbered lead) {s : Script}
    (balanced : s.Each Piece.Balanced) : ctx.Shifted (ctx.run s).1 0 := by
  have written : (ctx.written s).Each Piece.Balanced :=
    fun p member => balanced p ((ctx.written_prefix s).subset member)
  rw [run_written]
  exact shifted_extended numbered (markers_balanced written)

theorem shifted_parts (numbered : ctx.dialect.placeholder = .numbered lead) {ps : List Part}
    {n : Nat} (surplus : Surplus ps n)
    (queries : ∀ s, Part.subquery s ∈ ps → (Select.script s).Each Piece.Balanced)
    (finished : ctx.run (ps.flatMap Part.script) = (ctx', none)) : ctx.Shifted ctx' n := by
  induction surplus generalizing ctx with
  | nil =>
    cases finished
    rfl
  | @text sql values ps n extra marks _ ih =>
    have rest := fun s inside => queries s (List.mem_cons_of_mem _ inside)
    have first : ctx.Shifted (ctx.extended (Glyph.fragment sql.toList) values) extra :=
      shifted_extended numbered ((count_fragment sql.toList).trans marks)
    have wrote : ctx.run (.fragment sql values :: ps.flatMap Part.script) = (ctx', none) := finished
    rw [run, write_eq_extended ctx _ rfl rfl] at wrote
    exact first.trans (ih numbered rest wrote)
  | @subquery s ps n _ ih =>
    have rest := fun s inside => queries s (List.mem_cons_of_mem _ inside)
    have nested : (Part.script (.subquery s)).Each Piece.Balanced :=
      undemanding_balanced.each_nested (queries s List.mem_cons_self)
    obtain ⟨between, reached, finished⟩ := run_append_eq_none finished
    have first := shifted_run numbered nested
    have same := run_dialect ctx (Part.script (.subquery s))
    rw [reached] at first same
    have both := first.trans (ih (same ▸ numbered) rest finished)
    rw [Nat.zero_add] at both
    exact both

end Context

/-! Queries in a condition, and the texts that are unchecked at any depth. -/

mutual

def ExprTree.unchecked : ExprTree → List String
  | .term _ => []
  | .subquery cs => uncheckedOf cs
  | .aliased e _ => e.unchecked

def uncheckedExprs : List ExprTree → List String
  | [] => []
  | e :: es => e.unchecked ++ uncheckedExprs es

def CondTree.unchecked : CondTree → List String
  | .memberOf column _ cs => column :: uncheckedOf cs
  | .existence polarity e => (CondTree.existence polarity e).testTexts ++ e.unchecked
  | .conj a b => a.unchecked ++ b.unchecked
  | .disj a b => a.unchecked ++ b.unchecked
  | .neg a => a.unchecked
  | .case cs => uncheckedBranches cs
  | t => t.testTexts

def CaseCall.unchecked : CaseCall → List String
  | .when t _ => t.unchecked
  | .otherwise _ => []

def uncheckedBranches : List CaseCall → List String
  | [] => []
  | c :: cs => c.unchecked ++ uncheckedBranches cs

def QueryCall.unchecked : QueryCall → List String
  | .columns es => uncheckedExprs es
  | .source e => e.unchecked
  | .join _ target _ _ => target.unchecked
  | .filter t => t.unchecked
  | .groupBy es => uncheckedExprs es
  | .groupFilter t => t.unchecked
  | .orderBy e _ => e.unchecked
  | .compose other => uncheckedComposed other
  | _ => []

def uncheckedComposed : Option (List QueryCall) → List String
  | none => []
  | some cs => uncheckedOf cs

def uncheckedOf : List QueryCall → List String
  | [] => []
  | c :: cs => c.unchecked ++ uncheckedOf cs

end

theorem unmarked_exprs {es : List ExprTree} (clear : Unmarked (uncheckedExprs es)) :
    ∀ e ∈ es, Unmarked e.unchecked := by
  induction es with
  | nil => simp
  | cons e es ih =>
    obtain ⟨first, later⟩ := unmarked_append.mp clear
    exact List.forall_mem_cons.mpr ⟨first, ih later⟩

theorem unmarked_calls {cs : List QueryCall} (clear : Unmarked (uncheckedOf cs)) :
    ∀ c ∈ cs, Unmarked c.unchecked := by
  induction cs with
  | nil => simp
  | cons c cs ih =>
    obtain ⟨first, later⟩ := unmarked_append.mp clear
    exact List.forall_mem_cons.mpr ⟨first, ih later⟩

theorem unmarked_target : ∀ e : ExprTree, Unmarked e.unchecked →
    ∀ cs ∈ e.nested, Unmarked (uncheckedOf cs)
  | .term _, _ => by simp [ExprTree.nested]
  | .subquery cs, clear => by
    rw [ExprTree.unchecked] at clear
    simpa [ExprTree.nested] using clear
  | .aliased e _, clear => by
    rw [ExprTree.unchecked] at clear
    rw [ExprTree.nested]
    exact unmarked_target e clear

/-- What is unchecked in a condition is in its own tests or in a query that they hold. -/
def CondTree.Divides (t : CondTree) : Prop :=
  Unmarked t.unchecked → Unmarked t.ownTexts ∧ ∀ cs ∈ t.nested, Unmarked (uncheckedOf cs)

theorem divides_atom {t : CondTree} (atom : t.isAtom = true) : t.Divides := by
  have own : t.ownTexts = t.testTexts := by
    rw [CondTree.ownTexts, tests_atom atom]
    exact List.append_nil _
  unfold CondTree.Divides
  rw [own]
  intro clear
  cases t with
  | memberOf column polarity cs =>
    rw [CondTree.unchecked] at clear
    obtain ⟨first, later⟩ := unmarked_append (a := [column]).mp clear
    exact ⟨first, by simpa [CondTree.nested] using later⟩
  | existence polarity e =>
    rw [CondTree.unchecked] at clear
    obtain ⟨first, later⟩ := unmarked_append.mp clear
    refine ⟨first, ?_⟩
    rw [CondTree.nested]
    exact unmarked_target e later
  | conj a b => cases atom
  | disj a b => cases atom
  | neg a => cases atom
  | case cs => cases atom
  | _ =>
    rw [CondTree.unchecked] at clear
    · exact ⟨clear, by simp [CondTree.nested]⟩
    all_goals simp

theorem unmarked_tests {ts us : List CondTree} (left : Unmarked (ts.flatMap CondTree.testTexts))
    (right : Unmarked (us.flatMap CondTree.testTexts)) :
    Unmarked ((ts ++ us).flatMap CondTree.testTexts) := by
  rw [List.flatMap_append]
  exact unmarked_append.mpr ⟨left, right⟩

theorem divides_branches {cs : List CaseCall}
    (each : ∀ t v, CaseCall.when t v ∈ cs → t.Divides) (clear : Unmarked (uncheckedBranches cs)) :
    Unmarked ((branchTests cs).flatMap CondTree.testTexts) ∧
      ∀ ds ∈ branchNested cs, Unmarked (uncheckedOf ds) := by
  induction cs with
  | nil => exact ⟨clear, by simp [branchNested]⟩
  | cons c cs ih =>
    obtain ⟨first, later⟩ := unmarked_append.mp clear
    have rest := ih (fun t v member => each t v (List.mem_cons_of_mem c member)) later
    cases c with
    | otherwise v => exact rest
    | when t v =>
      have own := each t v List.mem_cons_self first
      rw [branchTests, branchNested]
      exact ⟨unmarked_tests own.1 rest.1, List.forall_mem_append.mpr ⟨own.2, rest.2⟩⟩

theorem divides (t : CondTree) : t.Divides := by
  induction t using tree_induction with
  | atom t atom => exact divides_atom atom
  | conj a b left right =>
    intro clear
    rw [CondTree.unchecked] at clear
    have first := left (unmarked_append.mp clear).1
    have second := right (unmarked_append.mp clear).2
    rw [CondTree.ownTexts, CondTree.tests, CondTree.nested]
    exact ⟨unmarked_tests first.1 second.1, List.forall_mem_append.mpr ⟨first.2, second.2⟩⟩
  | disj a b left right =>
    intro clear
    rw [CondTree.unchecked] at clear
    have first := left (unmarked_append.mp clear).1
    have second := right (unmarked_append.mp clear).2
    rw [CondTree.ownTexts, CondTree.tests, CondTree.nested]
    exact ⟨unmarked_tests first.1 second.1, List.forall_mem_append.mpr ⟨first.2, second.2⟩⟩
  | neg a operand =>
    intro clear
    rw [CondTree.unchecked] at clear
    rw [CondTree.ownTexts, CondTree.tests, CondTree.nested]
    exact operand clear
  | case cs branches =>
    intro clear
    rw [CondTree.unchecked] at clear
    obtain ⟨own, nested⟩ := divides_branches branches clear
    rw [CondTree.ownTexts, CondTree.tests, CondTree.nested]
    refine ⟨?_, nested⟩
    split
    · exact own
    · simp [Unmarked, CondTree.testTexts]

/-- A part without surplus marks, and a query that is balanced itself. -/
theorem parts_balanced {ps : List Part} {n : Nat} (surplus : Surplus ps n) :
    (∀ p ∈ ps, p.Balanced) ↔ n = 0 := by
  induction surplus with
  | nil => simp
  | @text sql values ps n extra marks _ ih =>
    rw [List.forall_mem_cons, ih, Nat.add_eq_zero_iff]
    refine and_congr_left fun _ => ?_
    change markCount sql = values.length ↔ extra = 0
    omega
  | @subquery s ps n _ ih =>
    rw [List.forall_mem_cons, ih]
    exact and_iff_right trivial

theorem script_balanced {p : Predicate} (parts : ∀ r ∈ p.parts, r.Balanced)
    (queries : ∀ s, Part.subquery s ∈ p.parts → (Select.script s).Each Piece.Balanced) :
    p.script.Each Piece.Balanced := by
  rw [Predicate.script_eq]
  apply each_flatMap
  intro r inside
  cases r with
  | text sql values => exact List.forall_mem_singleton.mpr (parts _ inside)
  | subquery s => exact undemanding_balanced.each_nested (queries s inside)

/-! Queries whose unchecked texts have no marks. -/

abbrev ExprBalanced (e : ExprTree) : Prop :=
  Unmarked e.unchecked → e.expr.script.Each Piece.Balanced

abbrev QueryBalanced (cs : List QueryCall) : Prop :=
  Unmarked (uncheckedOf cs) → ∀ q, (selectOf cs).state = .ok q → ClausesEach Piece.Balanced q

theorem select_balanced {cs : List QueryCall} (balanced : QueryBalanced cs)
    (clear : Unmarked (uncheckedOf cs)) : (Select.script (selectOf cs)).Each Piece.Balanced :=
  undemanding_balanced.each_select (balanced clear)

theorem condition_balanced {t : CondTree} (nested : ∀ cs ∈ t.nested, QueryBalanced cs)
    (clear : Unmarked t.unchecked) {p : Predicate} (sound : t.condition = .ok p) :
    p.script.Each Piece.Balanced := by
  obtain ⟨own, deeper⟩ := divides t clear
  apply script_balanced
  · apply (parts_balanced (condition_surplus t p sound)).mpr
    exact (strayMarks_eq_zero_iff t.ownTexts).mpr own
  · intro s inside
    obtain ⟨cs, held, rfl⟩ := nested_made sound inside
    exact select_balanced (nested cs held) (deeper cs held)

/-- A call that is passed nothing but what meets the demand keeps the clauses to it. -/
theorem clauses_call {P : Piece → Prop} {c : QueryCall}
    (passes : c.Passes (fun e => e.expr.script.Each P)
      (fun t => ∀ p, t.condition = .ok p → p.script.Each P)
      fun cs => ∀ q, (selectOf cs).state = .ok q → ClausesEach P q)
    {q q' : Query} (held : ClausesEach P q) (effect : c.Effect q q') : ClausesEach P q' := by
  cases c with
  | columns es =>
    cases effect
    have added : ∀ e ∈ exprsOf es, e.script.Each P := by
      rw [exprsOf_eq_map]
      intro e member
      obtain ⟨tree, inside, rfl⟩ := List.mem_map.mp member
      exact passes tree inside
    exact { held with columns := List.forall_mem_append.mpr ⟨held.columns, added⟩ }
  | source e =>
    cases effect
    refine { held with source := ?_ }
    rintro _ ⟨⟩
    exact passes
  | join kind target left right =>
    cases effect
    have last : (Query.joined kind target.expr left right).target.script.Each P := passes
    exact { held with joins := forall_mem_concat held.joins last }
  | filter t =>
    obtain ⟨p, sound, rfl⟩ := effect
    exact { held with filters := forall_mem_concat held.filters (passes p sound) }
  | groupFilter t =>
    obtain ⟨p, sound, rfl⟩ := effect
    exact { held with groupFilters := forall_mem_concat held.groupFilters (passes p sound) }
  | compose other =>
    cases other with
    | none => cases effect; exact held
    | some cs =>
      obtain ⟨r, composed, rfl⟩ := effect
      exact held.merge (passes cs rfl r composed)
  | groupBy es => obtain ⟨ts, -, rfl⟩ := effect; exact { held with }
  | orderBy e asked => obtain ⟨t, -, rfl⟩ := effect; exact { held with }
  | _ => cases effect; exact { held with }

theorem clauses_empty (P : Piece → Prop) : ClausesEach P .empty :=
  ⟨by simp [Query.empty], by simp [Query.empty], by simp [Query.empty], by simp [Query.empty],
    by simp [Query.empty]⟩

theorem call_balanced {c : QueryCall}
    (passes : c.Passes (fun e => ExprBalanced e ∧ ∀ cs ∈ e.nested, QueryBalanced cs)
      (fun t => ∀ cs ∈ t.nested, QueryBalanced cs) QueryBalanced)
    (clear : Unmarked c.unchecked) {q q' : Query} (held : ClausesEach Piece.Balanced q)
    (effect : c.Effect q q') : ClausesEach Piece.Balanced q' := by
  refine clauses_call ?_ held effect
  cases c with
  | columns es => exact fun e inside => (passes e inside).1 (unmarked_exprs clear e inside)
  | source e => exact passes.1 clear
  | join kind target left right => exact passes.1 clear
  | filter t => exact fun p sound => condition_balanced passes clear sound
  | groupFilter t => exact fun p sound => condition_balanced passes clear sound
  | groupBy es => exact fun e inside => (passes e inside).1 (unmarked_exprs clear e inside)
  | orderBy e asked => exact passes.1 clear
  | compose other =>
    rintro cs rfl r composed
    exact passes cs rfl clear r composed
  | _ => trivial

theorem balanced_compositional :
    Compositional (fun e => ExprBalanced e ∧ ∀ cs ∈ e.nested, QueryBalanced cs)
      (fun t => ∀ cs ∈ t.nested, QueryBalanced cs) QueryBalanced := by
  apply compositional_of_nested
  · intro t _
    exact undemanding_balanced.each_of_unloaded (payload_term t)
  · intro cs inner clear
    exact undemanding_balanced.each_nested (select_balanced inner clear)
  · intro e label inner clear
    exact each_append.mpr ⟨inner clear, undemanding_balanced.each_of_unloaded rfl⟩
  · intro cs passes clear q state
    exact selectOf_invariant
      (fun c member q held q' effect =>
        call_balanced (passes c member) (unmarked_calls clear c member) held effect)
      (clauses_empty Piece.Balanced) state

theorem raw_balanced {t : CondTree} {p : Predicate} (sound : t.condition = .ok p) {sql : String}
    {values : List Value} (inside : .raw sql values ∈ t.tests) :
    markCount sql = values.length := by
  have faultless : t.fault? = none := by
    rw [← condition_error, sound]
    rfl
  rw [CondTree.fault?, List.findSome?_eq_none_iff] at faultless
  have checked := faultless _ inside
  rw [CondTree.testFault?] at checked
  split at checked
  · rename_i balanced
    exact balanced
  · cases checked

/-- Raw tests are balanced wherever they stand. A condition that is accepted is balanced when the
    texts it takes unchecked have no marks, and only then: under a numbered dialect each mark in
    them shifts the numbers of the arguments behind it by one. -/
theorem stray_marks_shift_later_numbers {t : CondTree} {p : Predicate}
    (sound : t.condition = .ok p) :
    (∀ sql values, .raw sql values ∈ t.tests → markCount sql = values.length) ∧
      ((∀ r ∈ p.parts, r.Balanced) ↔ Unmarked t.ownTexts) ∧
      ∀ (ctx ctx' : Context) (lead : String), ctx.dialect.placeholder = .numbered lead →
        (∀ cs ∈ t.nested, Unmarked (uncheckedOf cs)) → ctx.run p.script = (ctx', none) →
        ctx.Shifted ctx' (strayMarks t.ownTexts) := by
  have surplus := condition_surplus t p sound
  refine ⟨fun sql values => raw_balanced sound, ?_, ?_⟩
  · rw [parts_balanced surplus, strayMarks_eq_zero_iff]
  · intro ctx ctx' lead numbered clear finished
    rw [Predicate.script_eq] at finished
    refine Context.shifted_parts numbered surplus ?_ finished
    intro s inside
    obtain ⟨cs, held, rfl⟩ := nested_made sound inside
    exact select_balanced (balanced_compositional.query cs) (clear cs held)

/-- A mark that no value belongs to, in front of a test with a value. -/
def unboundMark : CondTree :=
  .conj (.existence .plain (.term (.raw "SELECT 1 FROM u WHERE v = ?"))) (.compare "a" .eq (.int 1))

theorem unbound_mark_takes_the_number :
    Context.Shifted { dialect := .postgres }
      ⟨.postgres, "EXISTS (SELECT 1 FROM u WHERE v = $1) AND a = $2", [.int 1], 3⟩ 1 :=
  (stray_marks_shift_later_numbers (t := unboundMark) rfl).2.2 _ _ "$" rfl
    (by simp [unboundMark, CondTree.nested, ExprTree.nested]) (by decide)

theorem unbound_mark_is_accepted :
    ¬ ∀ (t : CondTree) (p : Predicate), t.condition = .ok p → ∀ r ∈ p.parts, r.Balanced := by
  intro every
  have balanced := every unboundMark _ rfl _ List.mem_cons_self
  revert balanced
  change ¬ markCount "EXISTS (SELECT 1 FROM u WHERE v = ?) AND a = ?" = 1
  decide

end SqlAssembly
