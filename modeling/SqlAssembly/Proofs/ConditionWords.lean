import SqlAssembly.Proofs.Construction
import SqlAssembly.Proofs.Grammar
import SqlAssembly.Proofs.Seams

/-! A condition as the words it is written with. The tests are atoms, and everything that combines
   them is a word of its own, so what a condition writes can be read without its text. -/
namespace SqlAssembly

abbrev Word := Lexeme CondTree Value

namespace CondTree

def isDisjunction : CondTree → Bool
  | .disj _ _ => true
  | _ => false

def isAtom : CondTree → Bool
  | .conj _ _ => false
  | .disj _ _ => false
  | .neg _ => false
  | .case _ => false
  | _ => true

end CondTree

/-- The last fallback given counts. -/
def lastOtherwise : List CaseCall → Option Value
  | [] => none
  | .when _ _ :: cs => lastOtherwise cs
  | .otherwise v :: cs => (lastOtherwise cs).or (some v)

def fallbackWords : Option Value → List Word
  | none => []
  | some v => [.elseWord, .value v]

def bracketed (ts : List Word) : List Word := .opening :: (ts ++ [.closing])

mutual

def CondTree.words : CondTree → List Word
  | .conj a b =>
    (if a.isDisjunction then bracketed a.words else a.words) ++
      .conj :: (if b.isDisjunction then bracketed b.words else b.words)
  | .disj a b => bracketed a.words ++ .disj :: bracketed b.words
  | .neg a => .neg :: bracketed a.words
  | .case cs =>
    .caseWord :: (branchWords cs ++ (fallbackWords (lastOtherwise cs) ++ [.endWord]))
  | t => [.atom t]

def branchWords : List CaseCall → List Word
  | [] => []
  | c :: cs => c.words ++ branchWords cs

def CaseCall.words : CaseCall → List Word
  | .when t v => .whenWord :: (t.words ++ [.thenWord, .value v])
  | .otherwise _ => []

end

def CondTree.guardedWords (t : CondTree) : List Word :=
  if t.isDisjunction then bracketed t.words else t.words

def Word.script : Word → Script
  | .atom t => t.condition.script
  | .value v => Script.argument v
  | .neg => [.text "NOT "]
  | .conj => [.text " AND "]
  | .disj => [.text " OR "]
  | .opening => [.text "("]
  | .closing => [.text ")"]
  | .caseWord => [.text "CASE"]
  | .whenWord => [.text " WHEN "]
  | .thenWord => [.text " THEN "]
  | .elseWord => [.text " ELSE "]
  | .endWord => [.text " END"]

def wordsScript (ts : List Word) : Script := ts.flatMap Word.script

theorem wordsScript_append (ts us : List Word) :
    wordsScript (ts ++ us) = wordsScript ts ++ wordsScript us := List.flatMap_append

theorem wordsScript_cons (t : Word) (ts : List Word) :
    wordsScript (t :: ts) = t.script ++ wordsScript ts := List.flatMap_cons

theorem wordsScript_bracketed (ts : List Word) :
    wordsScript (bracketed ts) = (wordsScript ts).parenthesized := by
  rw [bracketed, wordsScript_cons, wordsScript_append]
  rfl

theorem words_conj (a b : CondTree) :
    (CondTree.conj a b).words = a.guardedWords ++ .conj :: b.guardedWords := by
  rw [CondTree.words]
  rfl

theorem words_disj (a b : CondTree) :
    (CondTree.disj a b).words = bracketed a.words ++ .disj :: bracketed b.words := by
  rw [CondTree.words]

theorem words_neg (a : CondTree) : (CondTree.neg a).words = .neg :: bracketed a.words := by
  rw [CondTree.words]

theorem words_case (cs : List CaseCall) :
    (CondTree.case cs).words =
      .caseWord :: (branchWords cs ++ (fallbackWords (lastOtherwise cs) ++ [.endWord])) := by
  rw [CondTree.words]

theorem words_atom {t : CondTree} (atom : t.isAtom = true) : t.words = [.atom t] := by
  cases t with
  | conj a b => cases atom
  | disj a b => cases atom
  | neg a => cases atom
  | case cs => cases atom
  | _ => rw [CondTree.words] <;> simp

theorem wordsScript_atom {t : CondTree} (atom : t.isAtom = true) :
    wordsScript t.words = t.condition.script := by
  rw [words_atom atom]
  exact List.append_nil _

theorem script_before (sql : String) (q : Select) :
    Condition.script (.ok (.leaf [.text sql [], .subquery q])) =
      [.fragment sql []] ++ Expr.script (.subquery q) := by
  change Predicate.script _ = _
  rw [Predicate.script_eq]
  exact congrArg (Piece.fragment sql [] :: ·) (List.append_nil (Expr.script (.subquery q)))

def CaseCall.branch : CaseCall → List (Condition × Value)
  | .when t v => [(t.condition, v)]
  | .otherwise _ => []

theorem caseExpr_eq (c : CaseExpr) (cs : List CaseCall) :
    caseExpr c cs =
      ⟨c.branches ++ cs.flatMap CaseCall.branch, (lastOtherwise cs).or c.fallback⟩ := by
  induction cs generalizing c with
  | nil => simp [caseExpr, lastOtherwise]
  | cons call cs ih =>
    rw [caseExpr, ih]
    cases call with
    | when t v =>
      simp [CaseCall.apply, CaseExpr.when, CaseCall.branch, lastOtherwise]
    | otherwise v =>
      simp [CaseCall.apply, CaseExpr.otherwise, CaseCall.branch, lastOtherwise]

/-- What a condition writes is what its words write, and its tag says whether the outermost of them
    is an OR. -/
def CondTree.Worded (t : CondTree) : Prop :=
  ∀ p, t.condition = .ok p → p.disjunction = t.isDisjunction ∧
    ∀ {M : Type} {view : Script → M}, Seamless view → view p.script = view (wordsScript t.words)

theorem worded_guarded {M : Type} {view : Script → M} (h : Seamless view) {t : CondTree}
    {p : Predicate} (worded : t.Worded) (sound : t.condition = .ok p) :
    view p.operand.guarded = view (wordsScript t.guardedWords) := by
  obtain ⟨tag, same⟩ := worded p sound
  have reads : view p.script = view (wordsScript t.words) := same h
  rcases p with ⟨parts, disjunction⟩
  subst tag
  unfold CondTree.guardedWords
  cases t.isDisjunction with
  | false => exact reads
  | true =>
    rw [if_pos rfl, wordsScript_bracketed]
    exact h.prepend [.text "("] (h.extend [.text ")"] reads)

theorem worded_parenthesized {M : Type} {view : Script → M} (h : Seamless view) {t : CondTree}
    {p : Predicate} (worded : t.Worded) (sound : t.condition = .ok p) :
    view p.script.parenthesized = view (wordsScript (bracketed t.words)) := by
  rw [wordsScript_bracketed]
  exact h.prepend [.text "("] (h.extend [.text ")"] ((worded p sound).2 h))

/-- What a test comes to is one text, or a text in front of a query. -/
inductive Predicate.Simple : Predicate → Prop where
  | text (sql : String) (values : List Value) : Simple (.leaf [.text sql values])
  | query (sql : String) (q : Select) : Simple (.leaf [.text sql [], .subquery q])

theorem simple_leaf {sql : String} {values : List Value} {p : Predicate}
    (h : Condition.leaf sql values = .ok p) : p.Simple := by
  cases h
  exact .text sql values

theorem atom_simple {t : CondTree} (atom : t.isAtom = true) {p : Predicate}
    (sound : t.condition = .ok p) : p.Simple := by
  cases t with
  | compare column op value =>
    simp only [CondTree.condition, Condition.compare, Condition.nullTest] at sound
    split at sound
    · split at sound
      · exact simple_leaf sound
      · exact simple_leaf sound
      · cases sound
    · exact simple_leaf sound
  | member column polarity values =>
    simp only [CondTree.condition, Condition.member] at sound
    split at sound
    · cases sound
    · split at sound
      · cases sound
      · exact simple_leaf sound
  | memberOf column polarity query => cases sound; exact .query _ _
  | between column polarity low high =>
    simp only [CondTree.condition, Condition.between] at sound
    split at sound
    · cases sound
    · exact simple_leaf sound
  | nullTest column polarity => exact simple_leaf sound
  | existence polarity target =>
    simp only [CondTree.condition, Condition.existence] at sound
    split at sound
    · cases sound; exact .query _ _
    · exact simple_leaf sound
    · cases sound
  | raw sql values =>
    simp only [CondTree.condition, Condition.raw] at sound
    split at sound
    · exact simple_leaf sound
    · cases sound
  | conj a b => cases atom
  | disj a b => cases atom
  | neg a => cases atom
  | case cs => cases atom

theorem atom_disjunction {t : CondTree} (atom : t.isAtom = true) {p : Predicate}
    (sound : t.condition = .ok p) : p.disjunction = false := by
  cases atom_simple atom sound <;> rfl

theorem worded_atom {t : CondTree} (atom : t.isAtom = true) : t.Worded := by
  intro p sound
  have plain : t.isDisjunction = false := by
    cases t with
    | disj a b => cases atom
    | _ => rfl
  constructor
  · exact (atom_disjunction atom sound).trans plain.symm
  · intro M view h
    rw [wordsScript_atom atom, sound]
    rfl

theorem conj_eq_ok {a b : Condition} {p : Predicate} (h : a.conj b = .ok p) :
    ∃ q r, a = .ok q ∧ b = .ok r ∧ p = q.conj r := by
  cases a with
  | error e => cases h
  | ok q =>
    cases b with
    | error e => cases h
    | ok r => cases h; exact ⟨q, r, rfl, rfl, rfl⟩

theorem disj_eq_ok {a b : Condition} {p : Predicate} (h : a.disj b = .ok p) :
    ∃ q r, a = .ok q ∧ b = .ok r ∧ p = q.disj r := by
  cases a with
  | error e => cases h
  | ok q =>
    cases b with
    | error e => cases h
    | ok r => cases h; exact ⟨q, r, rfl, rfl, rfl⟩

theorem neg_eq_ok {a : Condition} {p : Predicate} (h : a.neg = .ok p) :
    ∃ q, a = .ok q ∧ p = q.neg := by
  cases a with
  | error e => cases h
  | ok q => cases h; exact ⟨q, rfl, rfl⟩

theorem branchParts_cons_eq_ok {c : Condition} {v : Value} {rest : List (Condition × Value)}
    {parts : List Part} (h : CaseExpr.branchParts ((c, v) :: rest) = .ok parts) :
    ∃ p later, c = .ok p ∧ CaseExpr.branchParts rest = .ok later ∧
      parts = Part.glueAll [Part.plain " WHEN ", p.parts, Part.plain " THEN ",
        [.text "?" [v]], later] := by
  cases c with
  | error e => cases h
  | ok p =>
    unfold CaseExpr.branchParts at h
    cases others : CaseExpr.branchParts rest with
    | error e => rw [others] at h; cases h
    | ok later =>
      rw [others] at h
      cases h
      exact ⟨p, later, rfl, rfl, rfl⟩

theorem worded_branches {M : Type} {view : Script → M} (h : Seamless view) {cs : List CaseCall}
    (worded : ∀ t v, CaseCall.when t v ∈ cs → t.Worded) {parts : List Part}
    (sound : CaseExpr.branchParts (cs.flatMap CaseCall.branch) = .ok parts) :
    view (parts.flatMap Part.script) = view (wordsScript (branchWords cs)) := by
  induction cs generalizing parts with
  | nil => cases sound; rfl
  | cons c cs ih =>
    have later_worded := fun t v member => worded t v (List.mem_cons_of_mem c member)
    cases c with
    | otherwise v => exact ih later_worded sound
    | when t v =>
      obtain ⟨p, later, branch, others, rfl⟩ := branchParts_cons_eq_ok sound
      have condition := (worded t v List.mem_cons_self p branch).2 h
      rw [h.glueAll, branchWords, CaseCall.words, wordsScript_append, wordsScript_cons,
        wordsScript_append]
      rw [Predicate.script_eq] at condition
      simp only [List.flatMap_cons, List.flatMap_nil, List.append_nil]
      change _ = view ((([.text " WHEN "] : Script) ++
        (wordsScript t.words ++ ([.text " THEN "] ++ [.fragment "?" [v]]))) ++ _)
      rw [List.append_assoc, List.append_assoc, List.append_assoc]
      exact h.congr (h.plain (by decide)) (h.congr condition
        (h.congr (h.plain (by decide)) (h.prepend _ (ih later_worded others))))

theorem worded_fallback {M : Type} {view : Script → M} (h : Seamless view) (v : Option Value) :
    view ((CaseExpr.fallbackParts v).flatMap Part.script) =
      view (wordsScript (fallbackWords v)) := by
  cases v with
  | none => rfl
  | some v =>
    have cut : view [.fragment " ELSE ?" [v]] = view [.fragment " ELSE " [], .fragment "?" [v]] :=
      h.merge " ELSE " "?" [] [v]
    have lead : view [.fragment " ELSE " []] = view [.text " ELSE "] := h.bare _ (by decide)
    exact cut.trans (h.extend [.fragment "?" [v]] lead)

theorem case_eq_ok {cs : List CaseCall} {p : Predicate}
    (h : (CondTree.case cs).condition = .ok p) :
    ∃ parts, CaseExpr.branchParts (cs.flatMap CaseCall.branch) = .ok parts ∧
      p = .leaf (Part.glueAll [Part.plain "CASE", parts,
        CaseExpr.fallbackParts (lastOtherwise cs), Part.plain " END"]) := by
  rw [CondTree.condition, caseExpr_eq] at h
  simp only [CaseExpr.condition, List.nil_append, Option.or_none] at h
  split at h
  · cases h
  · cases made : CaseExpr.branchParts (cs.flatMap CaseCall.branch) with
    | error e => rw [made] at h; cases h
    | ok parts =>
      rw [made] at h
      cases h
      exact ⟨parts, rfl, rfl⟩

theorem worded_case {cs : List CaseCall} (worded : ∀ t v, CaseCall.when t v ∈ cs → t.Worded) :
    (CondTree.case cs).Worded := by
  intro p sound
  obtain ⟨parts, branches, rfl⟩ := case_eq_ok sound
  constructor
  · rfl
  · intro M view h
    rw [Predicate.script_eq, Predicate.leaf, h.glueAll, words_case, wordsScript_cons,
      wordsScript_append, wordsScript_append]
    simp only [List.flatMap_cons, List.flatMap_nil, List.append_nil]
    exact h.congr (h.plain (by decide)) (h.congr (worded_branches h worded branches)
      (h.congr (worded_fallback h _) (h.plain (by decide))))

theorem worded_conj {a b : CondTree} (left : a.Worded) (right : b.Worded) :
    (CondTree.conj a b).Worded := by
  intro p sound
  obtain ⟨q, r, hq, hr, rfl⟩ := conj_eq_ok sound
  constructor
  · rfl
  · intro M view h
    rw [h.conj, words_conj, wordsScript_append, wordsScript_cons]
    exact h.congr (worded_guarded h left hq)
      (h.prepend [.text " AND "] (worded_guarded h right hr))

theorem worded_disj {a b : CondTree} (left : a.Worded) (right : b.Worded) :
    (CondTree.disj a b).Worded := by
  intro p sound
  obtain ⟨q, r, hq, hr, rfl⟩ := disj_eq_ok sound
  constructor
  · rfl
  · intro M view h
    rw [h.disj, words_disj, wordsScript_append, wordsScript_cons]
    exact h.congr (worded_parenthesized h left hq)
      (h.prepend [.text " OR "] (worded_parenthesized h right hr))

theorem worded_neg {a : CondTree} (inner : a.Worded) : (CondTree.neg a).Worded := by
  intro p sound
  obtain ⟨q, hq, rfl⟩ := neg_eq_ok sound
  constructor
  · rfl
  · intro M view h
    rw [h.neg, words_neg, wordsScript_cons]
    exact h.prepend [.text "NOT "] (worded_parenthesized h inner hq)

/-- Induction over a condition that does not look into its tests. -/
theorem tree_induction {C : CondTree → Prop} (atom : ∀ t : CondTree, t.isAtom = true → C t)
    (conj : ∀ a b, C a → C b → C (.conj a b)) (disj : ∀ a b, C a → C b → C (.disj a b))
    (neg : ∀ a, C a → C (.neg a))
    (case : ∀ cs, (∀ t v, CaseCall.when t v ∈ cs → C t) → C (.case cs)) (t : CondTree) : C t := by
  have all : Compositional (fun _ => True) C (fun _ => True) := {
    term := fun _ => trivial
    subquery := fun _ _ => trivial
    aliased := fun _ _ _ => trivial
    compare := fun _ _ _ => atom _ rfl
    member := fun _ _ _ => atom _ rfl
    memberOf := fun _ _ _ _ => atom _ rfl
    between := fun _ _ _ _ => atom _ rfl
    nullTest := fun _ _ => atom _ rfl
    existence := fun _ _ _ => atom _ rfl
    raw := fun _ _ => atom _ rfl
    conj := conj
    disj := disj
    neg := neg
    case := case
    calls := fun _ _ => trivial }
  exact all.cond t

theorem worded (t : CondTree) : t.Worded := by
  induction t using tree_induction with
  | atom t atom => exact worded_atom atom
  | conj a b left right => exact worded_conj left right
  | disj a b left right => exact worded_disj left right
  | neg a operand => exact worded_neg operand
  | case cs branches => exact worded_case branches

end SqlAssembly
