import Mathlib.Data.List.Chain
import SqlAssembly.Proofs.AnyDialect
import SqlAssembly.Proofs.FirstFault

/-! A condition grows piece by piece, and a text that comes behind a text is joined to it. No
   dialect can tell the joined parts from the pieces. -/
namespace SqlAssembly

namespace Part

def isText : Part → Bool
  | .text _ _ => true
  | .subquery _ => false

/-- No two texts stand side by side. -/
def Merged (ps : List Part) : Prop := ps.IsChain fun p q => (p.isText && q.isText) = false

/-- The second parts are added to the first ones, one after the other. -/
def added (ps qs : List Part) : List Part := qs.foldl (fun ps q => glue ps [q]) ps

def merged (ps : List Part) : List Part := added [] ps

theorem nil_glue (ps : List Part) : glue [] ps = ps := rfl

theorem glueAll_nil : glueAll [] = [] := rfl

theorem glueAll_cons (ps : List Part) (pss : List (List Part)) :
    glueAll (ps :: pss) = glue ps (glueAll pss) := rfl

theorem merged_append (ps qs : List Part) : merged (ps ++ qs) = added (merged ps) qs :=
  List.foldl_append

/-- Only the seam with the parts that were there is new. -/
theorem added_eq_glue (ps qs : List Part) : added ps qs = glue ps (merged qs) := by
  induction qs generalizing ps with
  | nil => exact (glue_nil ps).symm
  | cons q qs ih =>
    have first : added ps (q :: qs) = added (glue ps [q]) qs := rfl
    have alone : merged (q :: qs) = added [q] qs := rfl
    rw [first, alone, ih, ih, glue_assoc]

theorem merged_cons (p : Part) (ps : List Part) : merged (p :: ps) = glue [p] (merged ps) :=
  added_eq_glue [p] ps

theorem glue_head (p : Part) (ps qs : List Part) :
    ∃ q rest, glue (p :: ps) qs = q :: rest ∧ q.isText = p.isText := by
  cases ps with
  | cons r ps => exact ⟨p, _, glue_cons_cons p r ps qs, rfl⟩
  | nil =>
    cases p with
    | subquery s => exact ⟨_, _, glue_subquery s [] qs, rfl⟩
    | text sql values =>
      match qs with
      | [] => exact ⟨_, _, rfl, rfl⟩
      | .subquery s :: qs => exact ⟨_, _, rfl, rfl⟩
      | .text more extra :: qs => exact ⟨_, _, rfl, rfl⟩

theorem merged_single (p : Part) : Merged [p] := List.isChain_singleton p

theorem merged_glue {ps qs : List Part} (left : Merged ps) (right : Merged qs) :
    Merged (glue ps qs) := by
  induction ps with
  | nil => exact right
  | cons p ps ih =>
    cases ps with
    | cons r ps =>
      obtain ⟨apart, later⟩ := List.isChain_cons_cons.mp left
      obtain ⟨q, rest, joined, kind⟩ := glue_head r ps qs
      have whole := ih later
      rw [glue_cons_cons, joined]
      rw [joined] at whole
      rw [← kind] at apart
      exact List.isChain_cons_cons.mpr ⟨apart, whole⟩
    | nil =>
      -- Only here can two texts meet. The joined text takes the place of the second one.
      match p, qs, right with
      | p, [], _ =>
        rw [glue_nil]
        exact merged_single p
      | .subquery s, q :: qs, right => exact List.isChain_cons_cons.mpr ⟨rfl, right⟩
      | .text sql values, .subquery s :: qs, right =>
        exact List.isChain_cons_cons.mpr ⟨rfl, right⟩
      | .text sql values, [.text more extra], _ => exact merged_single _
      | .text sql values, .text more extra :: r :: qs, right =>
        obtain ⟨apart, later⟩ := List.isChain_cons_cons.mp right
        exact List.isChain_cons_cons.mpr ⟨apart, later⟩

theorem merged_merged (ps : List Part) : Merged (merged ps) := by
  induction ps with
  | nil => exact List.isChain_nil
  | cons p ps ih =>
    rw [merged_cons]
    exact merged_glue (merged_single p) ih

theorem merged_of_merged {ps : List Part} (h : Merged ps) : merged ps = ps := by
  induction ps with
  | nil => rfl
  | cons p ps ih =>
    rw [merged_cons, ih h.tail]
    match p, ps, h with
    | p, [], _ => exact glue_nil [p]
    | .subquery s, q :: ps, _ => rfl
    | .text sql values, .subquery s :: ps, _ => rfl
    | .text sql values, .text more extra :: ps, h =>
      cases (List.isChain_cons_cons.mp h).1

theorem added_merged (ps qs : List Part) : added ps (merged qs) = added ps qs := by
  rw [added_eq_glue, merged_of_merged (merged_merged qs), added_eq_glue]

end Part

theorem Seamless.merged {M : Type} {view : Script → M} (h : Seamless view) (ps : List Part) :
    view ((Part.merged ps).flatMap Part.script) = view (ps.flatMap Part.script) := by
  induction ps with
  | nil => rfl
  | cons p ps ih =>
    rw [Part.merged_cons, h.glue, List.flatMap_singleton, List.flatMap_cons]
    exact h.prepend p.script ih

/-- A condition as its calls leave it. One that failed has parts as well, though none of them is
    ever written. The pieces are all that was added, before any texts were joined. -/
structure Draft where
  pieces : List Part := []
  parts : List Part := []
  disjunction : Bool := false
  error : Option BuildError := none

namespace Draft

def add (c : Draft) (p : Part) : Draft :=
  { c with pieces := c.pieces ++ [p], parts := Part.glue c.parts [p] }

def text (c : Draft) (sql : String) : Draft := c.add (.text sql [])

def argument (c : Draft) (v : Value) : Draft := c.add (.text "?" [v])

/-- The first error stays. The parts are added all the same. -/
def append (c other : Draft) : Draft :=
  { c with
    pieces := c.pieces ++ other.pieces
    parts := Part.added c.parts other.parts
    error := c.error.or other.error }

def operand (c other : Draft) : Draft :=
  if other.disjunction then ((c.text "(").append other).text ")" else c.append other

def conj (a b : Draft) : Draft := ((operand {} a).text " AND ").operand b

def disj (a b : Draft) : Draft :=
  ((((text { disjunction := true } "(").append a).text ") OR (").append b).text ")"

def neg (a : Draft) : Draft := ((text {} "NOT (").append a).text ")"

def branch (c test : Draft) (v : Value) : Draft :=
  (((c.text " WHEN ").append test).text " THEN ").argument v

def closed (c : Draft) : Option Value → Draft
  | none => c.text " END"
  | some v => ((c.text " ELSE ").argument v).text " END"

def failed (e : BuildError) : Draft := { error := some e }

def ofTest : Condition → Draft
  | .ok p => { pieces := p.parts, parts := p.parts, disjunction := p.disjunction }
  | .error e => failed e

def condition (c : Draft) : Condition :=
  match c.error with
  | none => .ok ⟨c.parts, c.disjunction⟩
  | some e => .error e

/-- What would be written if no texts were joined. -/
def unjoined (c : Draft) : Script :=
  match c.error with
  | none => c.pieces.flatMap Part.script
  | some e => [.fail e]

end Draft

mutual

def CondTree.draft : CondTree → Draft
  | .conj a b => a.draft.conj b.draft
  | .disj a b => a.draft.disj b.draft
  | .neg a => a.draft.neg
  | .case cs =>
    if isBranched cs then
      (branchDrafts (Draft.text {} "CASE") cs).closed (lastOtherwise cs)
    else .failed .emptyCase
  | t => .ofTest t.condition

def branchDrafts (c : Draft) : List CaseCall → Draft
  | [] => c
  | call :: cs => branchDrafts (call.draft c) cs

def CaseCall.draft (c : Draft) : CaseCall → Draft
  | .when t v => c.branch t.draft v
  | .otherwise _ => c

end

namespace Draft

/-- The parts are the pieces, joined where texts meet. -/
def Sound (c : Draft) : Prop := c.parts = Part.merged c.pieces

variable {c a b : Draft}

theorem Sound.add (h : c.Sound) (p : Part) : (c.add p).Sound := by
  change Part.glue c.parts [p] = Part.merged (c.pieces ++ [p])
  rw [Part.merged_append, ← h]
  rfl

theorem Sound.append (h : c.Sound) (other : a.Sound) : (c.append a).Sound := by
  change Part.added c.parts a.parts = Part.merged (c.pieces ++ a.pieces)
  rw [Part.merged_append, h, other, Part.added_merged]

theorem Sound.operand (h : c.Sound) (other : a.Sound) : (c.operand a).Sound := by
  unfold Draft.operand
  split
  · exact ((h.add _).append other).add _
  · exact h.append other

theorem sound_empty (disjunction : Bool) : Sound { disjunction } := rfl

theorem Sound.conj (left : a.Sound) (right : b.Sound) : (a.conj b).Sound :=
  (((sound_empty false).operand left).add _).operand right

theorem Sound.disj (left : a.Sound) (right : b.Sound) : (a.disj b).Sound :=
  (((((sound_empty true).add _).append left).add _).append right).add _

theorem Sound.neg (inner : a.Sound) : a.neg.Sound :=
  (((sound_empty false).add _).append inner).add _

theorem Sound.branch (h : c.Sound) (test : a.Sound) (v : Value) : (c.branch a v).Sound :=
  (((h.add _).append test).add _).add _

theorem Sound.closed (h : c.Sound) (v : Option Value) : (c.closed v).Sound := by
  cases v with
  | none => exact h.add _
  | some v => exact ((h.add _).add _).add _

theorem sound_failed (e : BuildError) : (failed e).Sound := rfl

theorem sound_test {t : CondTree} (atom : t.isAtom = true) : (ofTest t.condition).Sound := by
  cases made : t.condition with
  | error e => exact sound_failed e
  | ok p => cases atom_simple atom made <;> rfl

theorem Sound.merged (h : c.Sound) : Part.Merged c.parts := by
  rw [h]
  exact Part.merged_merged c.pieces

/-! What a draft is as a condition. -/

theorem errorOf_condition (c : Draft) : errorOf c.condition = c.error := by
  unfold condition
  cases c.error <;> rfl

theorem condition_of_error {e : BuildError} (h : c.error = some e) : c.condition = .error e := by
  rw [condition, h]

theorem condition_of_none (h : c.error = none) : c.condition = .ok ⟨c.parts, c.disjunction⟩ := by
  rw [condition, h]

theorem condition_ofTest (x : Condition) : (ofTest x).condition = x := by
  cases x with
  | error e => rfl
  | ok p => cases p; rfl

theorem condition_eq_ok {p : Predicate} (h : c.condition = .ok p) :
    c.error = none ∧ p = ⟨c.parts, c.disjunction⟩ := by
  unfold condition at h
  cases none : c.error with
  | some e => rw [none] at h; cases h
  | none => rw [none] at h; cases h; exact ⟨rfl, rfl⟩

theorem text_parts (c : Draft) (sql : String) :
    (c.text sql).parts = Part.glue c.parts (Part.plain sql) := rfl

theorem argument_parts (c : Draft) (v : Value) :
    (c.argument v).parts = Part.glue c.parts [.text "?" [v]] := rfl

theorem append_parts (other : a.Sound) : (c.append a).parts = Part.glue c.parts a.parts := by
  change Part.added c.parts a.parts = _
  rw [Part.added_eq_glue, Part.merged_of_merged other.merged]

/-- A text, an operand and a text behind what is there. -/
theorem enclosed_parts (other : a.Sound) (before after : String) :
    (((c.text before).append a).text after).parts =
      Part.glue c.parts (Part.glueAll [Part.plain before, a.parts, Part.plain after]) := by
  rw [text_parts, append_parts other, text_parts]
  simp only [Part.glueAll_cons, Part.glueAll_nil, Part.glue_nil, Part.glue_assoc]

theorem operand_error (c a : Draft) : (c.operand a).error = c.error.or a.error := by
  unfold operand
  split <;> rfl

theorem operand_parts (other : a.Sound) :
    (c.operand a).parts = Part.glue c.parts (Predicate.guarded ⟨a.parts, a.disjunction⟩) := by
  unfold operand Predicate.guarded
  cases a.disjunction with
  | false => exact append_parts other
  | true => exact enclosed_parts other "(" ")"

/-- The first error of two operands counts, and without one their predicates are combined. -/
theorem condition_both {combine : Predicate → Predicate → Predicate}
    (error : c.error = a.error.or b.error)
    (made : (⟨c.parts, c.disjunction⟩ : Predicate) =
      combine ⟨a.parts, a.disjunction⟩ ⟨b.parts, b.disjunction⟩) :
    c.condition = (do return combine (← a.condition) (← b.condition)) := by
  unfold condition
  rw [error, made]
  cases a.error with
  | some e => rfl
  | none => cases b.error <;> rfl

theorem operand_disjunction (c a : Draft) : (c.operand a).disjunction = c.disjunction := by
  unfold operand
  split <;> rfl

theorem conj_condition (left : a.Sound) (right : b.Sound) :
    (a.conj b).condition = a.condition.conj b.condition := by
  apply condition_both
  · exact (operand_error _ b).trans (congrArg (Option.or · b.error) (operand_error {} a))
  · have tag : (a.conj b).disjunction = false :=
      (operand_disjunction _ b).trans (operand_disjunction {} a)
    have parts : (a.conj b).parts =
        Part.glueAll [Predicate.guarded ⟨a.parts, a.disjunction⟩, Part.plain " AND ",
          Predicate.guarded ⟨b.parts, b.disjunction⟩] := by
      rw [conj, operand_parts right, text_parts, operand_parts left]
      simp only [Part.glueAll_cons, Part.glueAll_nil, Part.nil_glue, Part.glue_nil,
        Part.glue_assoc]
    rw [tag, parts]
    rfl

theorem disj_condition (left : a.Sound) (right : b.Sound) :
    (a.disj b).condition = a.condition.disj b.condition := by
  apply condition_both
  · rfl
  · have between : Part.glue (Part.plain ")") (Part.glue (Part.plain " OR ") (Part.plain "(")) =
        Part.plain ") OR (" := rfl
    have parts : (a.disj b).parts =
        Part.glueAll [Predicate.wrapped ⟨a.parts, a.disjunction⟩, Part.plain " OR ",
          Predicate.wrapped ⟨b.parts, b.disjunction⟩] := by
      rw [disj, enclosed_parts right, append_parts left, text_parts, ← between]
      simp only [Predicate.wrapped, Part.glueAll_cons, Part.glueAll_nil, Part.nil_glue,
        Part.glue_nil, Part.glue_assoc]
    rw [parts]
    rfl

theorem neg_condition (inner : a.Sound) : a.neg.condition = a.condition.neg := by
  have lead : Part.glue (Part.plain "NOT ") (Part.plain "(") = Part.plain "NOT (" := rfl
  have parts : a.neg.parts =
      Part.glueAll [Part.plain "NOT ", Predicate.wrapped ⟨a.parts, a.disjunction⟩] := by
    rw [neg, enclosed_parts inner, ← lead]
    simp only [Predicate.wrapped, Part.glueAll_cons, Part.glueAll_nil, Part.nil_glue,
      Part.glue_nil, Part.glue_assoc]
  have error : a.neg.error = a.error := rfl
  unfold condition
  rw [parts, error]
  cases a.error <;> rfl

theorem branch_parts (test : a.Sound) (v : Value) :
    (c.branch a v).parts =
      Part.glue c.parts (Part.glueAll [Part.plain " WHEN ", a.parts, Part.plain " THEN ",
        [.text "?" [v]]]) := by
  rw [branch, argument_parts, enclosed_parts test]
  simp only [Part.glueAll_cons, Part.glueAll_nil, Part.glue_nil, Part.glue_assoc]

theorem closed_parts (c : Draft) (v : Option Value) :
    (c.closed v).parts =
      Part.glue c.parts (Part.glueAll [CaseExpr.fallbackParts v, Part.plain " END"]) := by
  cases v with
  | none => rfl
  | some v =>
    rw [closed, text_parts, argument_parts, text_parts, Part.glue_assoc, Part.glue_assoc]
    rfl

theorem closed_error (c : Draft) (v : Option Value) : (c.closed v).error = c.error := by
  cases v <;> rfl

theorem closed_disjunction (c : Draft) (v : Option Value) :
    (c.closed v).disjunction = c.disjunction := by
  cases v <;> rfl

end Draft

/-- What the calls leave is the condition they make, and its parts are the pieces joined. -/
structure CondTree.Drafted (t : CondTree) : Prop where
  sound : t.draft.Sound
  condition : t.draft.condition = t.condition

section Branches

variable {cs : List CaseCall} (each : ∀ t v, CaseCall.when t v ∈ cs → t.Drafted)

include each

theorem drafts_sound {c : Draft} (h : c.Sound) : (branchDrafts c cs).Sound := by
  induction cs generalizing c with
  | nil => exact h
  | cons call cs ih =>
    have later := fun t v member => each t v (List.mem_cons_of_mem call member)
    cases call with
    | otherwise v => exact ih later h
    | when t v => exact ih later (h.branch (each t v List.mem_cons_self).sound v)

theorem drafts_error (c : Draft) :
    (branchDrafts c cs).error =
      c.error.or (errorOf (CaseExpr.branchParts (cs.flatMap CaseCall.branch))) := by
  induction cs generalizing c with
  | nil => exact Option.or_none.symm
  | cons call cs ih =>
    have later := fun t v member => each t v (List.mem_cons_of_mem call member)
    cases call with
    | otherwise v => exact ih later c
    | when t v =>
      have own : t.draft.error = errorOf t.condition := by
        rw [← Draft.errorOf_condition, (each t v List.mem_cons_self).condition]
      have whole :
          errorOf (CaseExpr.branchParts ((CaseCall.when t v :: cs).flatMap CaseCall.branch)) =
            (errorOf t.condition).or
              (errorOf (CaseExpr.branchParts (cs.flatMap CaseCall.branch))) := errorOf_both _ _ _
      rw [branchDrafts, ih later, whole, ← own, ← Option.or_assoc]
      rfl

theorem drafts_parts {parts : List Part}
    (made : CaseExpr.branchParts (cs.flatMap CaseCall.branch) = .ok parts) (c : Draft) :
    (branchDrafts c cs).parts = Part.glue c.parts parts := by
  induction cs generalizing c parts with
  | nil =>
    cases made
    exact (Part.glue_nil c.parts).symm
  | cons call cs ih =>
    have later := fun t v member => each t v (List.mem_cons_of_mem call member)
    cases call with
    | otherwise v => exact ih later made c
    | when t v =>
      obtain ⟨sound, condition⟩ := each t v List.mem_cons_self
      obtain ⟨p, rest, first, others, rfl⟩ := branchParts_cons_eq_ok made
      obtain ⟨-, rfl⟩ := Draft.condition_eq_ok (condition.trans first)
      rw [branchDrafts, ih later others, CaseCall.draft, Draft.branch_parts sound]
      simp only [Part.glueAll_cons, Part.glueAll_nil, Part.glue_nil, Part.glue_assoc]

end Branches

theorem drafts_disjunction (cs : List CaseCall) (c : Draft) :
    (branchDrafts c cs).disjunction = c.disjunction := by
  induction cs generalizing c with
  | nil => rfl
  | cons call cs ih =>
    rw [branchDrafts, ih]
    cases call <;> rfl

theorem closed_condition {cs : List CaseCall}
    (each : ∀ t v, CaseCall.when t v ∈ cs → t.Drafted) :
    ((branchDrafts (Draft.text {} "CASE") cs).closed (lastOtherwise cs)).condition =
      (do
        let parts ← CaseExpr.branchParts (cs.flatMap CaseCall.branch)
        return .leaf (Part.glueAll [Part.plain "CASE", parts,
          CaseExpr.fallbackParts (lastOtherwise cs), Part.plain " END"])) := by
  have error := (Draft.closed_error _ (lastOtherwise cs)).trans
    (drafts_error each (Draft.text {} "CASE"))
  have tag := (Draft.closed_disjunction _ (lastOtherwise cs)).trans
    (drafts_disjunction cs (Draft.text {} "CASE"))
  cases made : CaseExpr.branchParts (cs.flatMap CaseCall.branch) with
  | error e =>
    rw [made] at error
    exact Draft.condition_of_error error
  | ok parts =>
    rw [made] at error
    rw [Draft.condition_of_none error, tag, Draft.closed_parts, drafts_parts each made]
    simp only [Part.glueAll_cons, Part.glueAll_nil, Part.glue_assoc]
    rfl

theorem drafted_case {cs : List CaseCall} (each : ∀ t v, CaseCall.when t v ∈ cs → t.Drafted) :
    (CondTree.case cs).Drafted := by
  have condition : (CondTree.case cs).condition =
      if isBranched cs then (do
        let parts ← CaseExpr.branchParts (cs.flatMap CaseCall.branch)
        return .leaf (Part.glueAll [Part.plain "CASE", parts,
          CaseExpr.fallbackParts (lastOtherwise cs), Part.plain " END"]))
      else .error .emptyCase := by
    rw [CondTree.condition, caseExpr_eq]
    simp only [CaseExpr.condition, List.nil_append, Option.or_none, branches_isEmpty]
    cases isBranched cs <;> rfl
  constructor
  · rw [CondTree.draft]
    split
    · exact (drafts_sound each ((Draft.sound_empty false).add _)).closed _
    · exact Draft.sound_failed .emptyCase
  · rw [condition, CondTree.draft]
    split
    · exact closed_condition each
    · rfl

theorem drafted (t : CondTree) : t.Drafted := by
  induction t using tree_induction with
  | atom t atom =>
    have draft : t.draft = .ofTest t.condition := by
      cases t with
      | conj a b => cases atom
      | disj a b => cases atom
      | neg a => cases atom
      | case cs => cases atom
      | _ => rw [CondTree.draft] <;> simp
    constructor
    · rw [draft]
      exact Draft.sound_test atom
    · rw [draft]
      exact Draft.condition_ofTest t.condition
  | conj a b left right =>
    constructor
    · rw [CondTree.draft]
      exact left.sound.conj right.sound
    · rw [CondTree.draft, Draft.conj_condition left.sound right.sound, left.condition,
        right.condition]
      rfl
  | disj a b left right =>
    constructor
    · rw [CondTree.draft]
      exact left.sound.disj right.sound
    · rw [CondTree.draft, Draft.disj_condition left.sound right.sound, left.condition,
        right.condition]
      rfl
  | neg a inner =>
    constructor
    · rw [CondTree.draft]
      exact inner.sound.neg
    · rw [CondTree.draft, Draft.neg_condition inner.sound, inner.condition]
      rfl
  | case cs branches => exact drafted_case branches

theorem writtenAlike_of_merged {ps qs : List Part} (merged : ps = Part.merged qs) :
    WrittenAlike (ps.flatMap Part.script) (qs.flatMap Part.script) := by
  apply writtenAlike_of_any
  intro d page
  rw [merged]
  exact congrFun (d.seamless_run.merged qs) page

theorem writtenAlike_unjoined {c : Draft} (sound : c.Sound) :
    WrittenAlike c.condition.script c.unjoined := by
  unfold Draft.unjoined
  cases error : c.error with
  | some e =>
    rw [Draft.condition_of_error error]
    exact ⟨fun _ _ => rfl, fun _ => rfl⟩
  | none =>
    rw [Draft.condition_of_none error, Condition.script, Predicate.script_eq]
    exact writtenAlike_of_merged sound

/-- Two fragments in a row are one, so a condition may join its texts wherever they meet. It never
    keeps two texts side by side, not even after an error, and every dialect writes the same into
    every context as if each piece had been kept on its own. -/
theorem merging_texts_is_unobservable :
    (∀ (d : AnyDialect) (page : Page) (s t : String) (vs ws : List Value),
      d.fragment (d.fragment page s vs) t ws = d.fragment page (s ++ t) (vs ++ ws)) ∧
    (∀ (ctx : Context) (s t : String) (vs ws : List Value),
      (ctx.fragment s vs).fragment t ws = ctx.fragment (s ++ t) (vs ++ ws)) ∧
    ∀ t : CondTree, t.draft.condition = t.condition ∧ Part.Merged t.draft.parts ∧
      WrittenAlike (t.draft.parts.flatMap Part.script) (t.draft.pieces.flatMap Part.script) ∧
      WrittenAlike t.condition.script t.draft.unjoined := by
  refine ⟨fun d page => d.fragment_fragment page, fun ctx => ctx.fragment_fragment, fun t => ?_⟩
  obtain ⟨sound, condition⟩ := drafted t
  refine ⟨condition, sound.merged, writtenAlike_of_merged sound, ?_⟩
  rw [← condition]
  exact writtenAlike_unjoined sound

/-- The texts behind the query are joined, the query keeps them apart from the one before it. -/
example (cs : List QueryCall) :
    let c := (CondTree.conj (.memberOf "a" .plain cs) (.compare "b" .lt (.int 1))).draft
    c.pieces = [.text "a IN " [], .subquery (selectOf cs), .text " AND " [],
      .text "b < ?" [.int 1]] ∧
    c.parts = [.text "a IN " [], .subquery (selectOf cs), .text " AND b < ?" [.int 1]] :=
  ⟨rfl, rfl⟩

end SqlAssembly
