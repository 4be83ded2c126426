import SqlAssembly.Proofs.CallEffects
import SqlAssembly.Proofs.ConditionWords

/-! Parentheses stand where they are needed: what a condition writes has one reading in the grammar
   of search conditions, and that reading is true exactly when the condition is. A clause is read
   as all its conditions together, also when some of them came with another query. -/
namespace SqlAssembly

abbrev Assignment := Valuation CondTree Value

mutual

/-- The truth of a condition as it was put together, without regard to what it writes. -/
def CondTree.truth (ν : Assignment) : CondTree → Truth
  | .conj a b => (a.truth ν).both (b.truth ν)
  | .disj a b => (a.truth ν).either (b.truth ν)
  | .neg a => (a.truth ν).negated
  | .case cs => caseTruth ν (ν.result (lastOtherwise cs)) cs
  | t => ν.atom t

def caseTruth (ν : Assignment) (fallback : Truth) : List CaseCall → Truth
  | [] => fallback
  | c :: cs => c.truth ν (caseTruth ν fallback cs)

def CaseCall.truth (ν : Assignment) (rest : Truth) : CaseCall → Truth
  | .when t v => if t.truth ν = .holds then ν.result (some v) else rest
  | .otherwise _ => rest

end

inductive CondTree.ErrorFree : CondTree → Prop where
  | atom {t p} (atom : t.isAtom = true) (sound : t.condition = .ok p) : ErrorFree t
  | conj {a b} (left : ErrorFree a) (right : ErrorFree b) : ErrorFree (.conj a b)
  | disj {a b} (left : ErrorFree a) (right : ErrorFree b) : ErrorFree (.disj a b)
  | neg {a} (operand : ErrorFree a) : ErrorFree (.neg a)
  | case {cs} (branched : ∃ t v, CaseCall.when t v ∈ cs)
      (sound : ∀ t v, CaseCall.when t v ∈ cs → ErrorFree t) : ErrorFree (.case cs)

theorem truth_atom {t : CondTree} (atom : t.isAtom = true) (ν : Assignment) :
    t.truth ν = ν.atom t := by
  cases t with
  | conj a b => cases atom
  | disj a b => cases atom
  | neg a => cases atom
  | case cs => cases atom
  | _ => rw [CondTree.truth] <;> simp

theorem branches_sound {cs : List CaseCall}
    (sound : ∀ t v, CaseCall.when t v ∈ cs → ∃ p, t.condition = .ok p) :
    ∃ parts, CaseExpr.branchParts (cs.flatMap CaseCall.branch) = .ok parts := by
  induction cs with
  | nil => exact ⟨[], rfl⟩
  | cons c cs ih =>
    obtain ⟨parts, others⟩ := ih fun t v member => sound t v (List.mem_cons_of_mem c member)
    cases c with
    | otherwise v => exact ⟨parts, others⟩
    | when t v =>
      obtain ⟨p, first⟩ := sound t v List.mem_cons_self
      change ∃ parts, CaseExpr.branchParts ((t.condition, v) :: cs.flatMap CaseCall.branch) = _
      rw [CaseExpr.branchParts, first, others]
      exact ⟨_, rfl⟩

theorem case_sound {cs : List CaseCall} (branched : ∃ t v, CaseCall.when t v ∈ cs)
    (sound : ∀ t v, CaseCall.when t v ∈ cs → ∃ p, t.condition = .ok p) :
    ∃ p, (CondTree.case cs).condition = .ok p := by
  obtain ⟨parts, made⟩ := branches_sound sound
  have some_branch : (cs.flatMap CaseCall.branch).isEmpty = false := by
    obtain ⟨t, v, member⟩ := branched
    rw [List.isEmpty_eq_false_iff_exists_mem]
    exact ⟨(t.condition, v), List.mem_flatMap.mpr ⟨_, member, List.mem_singleton_self _⟩⟩
  rw [CondTree.condition, caseExpr_eq]
  simp only [CaseExpr.condition, List.nil_append, some_branch]
  rw [made]
  exact ⟨_, rfl⟩

theorem errorFree_sound {t : CondTree} (h : t.ErrorFree) : ∃ p, t.condition = .ok p := by
  induction h with
  | atom atom sound => exact ⟨_, sound⟩
  | @conj a b left right ihl ihr =>
    obtain ⟨p, hp⟩ := ihl
    obtain ⟨q, hq⟩ := ihr
    exact ⟨p.conj q, by rw [CondTree.condition, hp, hq]; rfl⟩
  | @disj a b left right ihl ihr =>
    obtain ⟨p, hp⟩ := ihl
    obtain ⟨q, hq⟩ := ihr
    exact ⟨p.disj q, by rw [CondTree.condition, hp, hq]; rfl⟩
  | @neg a operand ih =>
    obtain ⟨p, hp⟩ := ih
    exact ⟨p.neg, by rw [CondTree.condition, hp]; rfl⟩
  | case branched sound ih => exact case_sound branched ih

theorem branch_of_sound {cs : List CaseCall} {parts : List Part}
    (h : CaseExpr.branchParts (cs.flatMap CaseCall.branch) = .ok parts) (t : CondTree) (v : Value)
    (member : CaseCall.when t v ∈ cs) : ∃ p, t.condition = .ok p := by
  induction cs generalizing parts with
  | nil => cases member
  | cons c cs ih =>
    cases c with
    | otherwise w =>
      rcases List.mem_cons.mp member with first | later
      · cases first
      · exact ih h later
    | when u w =>
      obtain ⟨p, rest, branch, others, -⟩ := branchParts_cons_eq_ok h
      rcases List.mem_cons.mp member with first | later
      · cases first; exact ⟨p, branch⟩
      · exact ih others later

theorem branched_of_sound {cs : List CaseCall} {p : Predicate}
    (h : (CondTree.case cs).condition = .ok p) : ∃ t v, CaseCall.when t v ∈ cs := by
  rw [CondTree.condition, caseExpr_eq] at h
  simp only [CaseExpr.condition, List.nil_append] at h
  split at h
  · cases h
  · rename_i some_branch
    rw [Bool.not_eq_true, List.isEmpty_eq_false_iff_exists_mem] at some_branch
    obtain ⟨branch, inside⟩ := some_branch
    obtain ⟨c, member, made⟩ := List.mem_flatMap.mp inside
    cases c with
    | when t v => exact ⟨t, v, member⟩
    | otherwise v => cases made

theorem errorFree_of_sound {t : CondTree} {p : Predicate} (sound : t.condition = .ok p) :
    t.ErrorFree := by
  induction t using tree_induction generalizing p with
  | atom t atom => exact .atom atom sound
  | conj a b left right =>
    obtain ⟨q, r, hq, hr, -⟩ := conj_eq_ok sound
    exact .conj (left hq) (right hr)
  | disj a b left right =>
    obtain ⟨q, r, hq, hr, -⟩ := disj_eq_ok sound
    exact .disj (left hq) (right hr)
  | neg a operand =>
    obtain ⟨q, hq, -⟩ := neg_eq_ok sound
    exact .neg (operand hq)
  | case cs branches =>
    obtain ⟨parts, made, -⟩ := case_eq_ok sound
    apply CondTree.ErrorFree.case (branched_of_sound sound)
    intro t v member
    obtain ⟨q, hq⟩ := branch_of_sound made t v member
    exact branches t v member hq

/-- The words are a formula of this level, and it has this truth. -/
def Reads (l : Level) (ts : List Word) (value : Assignment → Truth) : Prop :=
  ∃ f, Parses l ts f ∧ ∀ ν, f.truth ν = value ν

theorem reads_atom (t : CondTree) : Reads .negation [.atom t] fun ν => ν.atom t :=
  ⟨.atom t, .atom t, fun _ => rfl⟩

theorem reads_conjunction {ts : List Word} {a : Assignment → Truth} (h : Reads .negation ts a) :
    Reads .conjunction ts a := by
  obtain ⟨f, parses, same⟩ := h
  exact ⟨f, .single parses, same⟩

theorem reads_disjunction {ts : List Word} {a : Assignment → Truth}
    (h : Reads .conjunction ts a) : Reads .disjunction ts a := by
  obtain ⟨f, parses, same⟩ := h
  exact ⟨f, .lone parses, same⟩

theorem reads_bracketed {ts : List Word} {a : Assignment → Truth} (h : Reads .disjunction ts a) :
    Reads .negation (bracketed ts) a := by
  obtain ⟨f, parses, same⟩ := h
  exact ⟨f, .bracketed parses, same⟩

theorem reads_neg {ts : List Word} {a : Assignment → Truth} (h : Reads .negation ts a) :
    Reads .negation (.neg :: ts) fun ν => (a ν).negated := by
  obtain ⟨f, parses, same⟩ := h
  exact ⟨.neg f, .neg parses, fun ν => congrArg Truth.negated (same ν)⟩

theorem reads_disj {ts us : List Word} {a b : Assignment → Truth} (left : Reads .disjunction ts a)
    (right : Reads .conjunction us b) :
    Reads .disjunction (ts ++ .disj :: us) fun ν => (a ν).either (b ν) := by
  obtain ⟨f, hf, sameLeft⟩ := left
  obtain ⟨g, hg, sameRight⟩ := right
  refine ⟨.disj f g, .disj hf hg, fun ν => ?_⟩
  rw [Formula.truth, sameLeft, sameRight]

theorem reads_conj {ts us : List Word} {a b : Assignment → Truth} (left : Reads .conjunction ts a)
    (right : Reads .conjunction us b) :
    Reads .conjunction (ts ++ .conj :: us) fun ν => (a ν).both (b ν) := by
  obtain ⟨f, hf, sameLeft⟩ := left
  obtain ⟨g, hg, sameRight⟩ := right
  obtain ⟨h, parses, same⟩ := conj_regroups hf hg
  refine ⟨h, parses, fun ν => ?_⟩
  rw [same, sameLeft, sameRight]

theorem only_fallbacks {cs : List CaseCall} (unbranched : ¬ ∃ t v, CaseCall.when t v ∈ cs) :
    branchWords cs = [] ∧ ∀ ν fallback, caseTruth ν fallback cs = fallback := by
  induction cs with
  | nil => exact ⟨rfl, fun _ _ => rfl⟩
  | cons c cs ih =>
    cases c with
    | when t v => exact absurd ⟨t, v, List.mem_cons_self⟩ unbranched
    | otherwise w =>
      apply ih
      rintro ⟨t, v, member⟩
      exact unbranched ⟨t, v, List.mem_cons_of_mem _ member⟩

theorem parses_last {ts : List Word} {f : Formula CondTree Value} (h : Parses .disjunction ts f)
    (v : Value) (fallback : Option Value) :
    ParsesBranches
      (.whenWord :: (ts ++ .thenWord :: .value v :: (fallbackWords fallback ++ [.endWord])))
      (.last f v fallback) := by
  cases fallback with
  | none => exact .last v h
  | some w => exact .fallback v w h

theorem reads_branches {cs : List CaseCall} (branched : ∃ t v, CaseCall.when t v ∈ cs)
    (inner : ∀ t v, CaseCall.when t v ∈ cs → Reads .disjunction t.words fun ν => t.truth ν)
    (fallback : Option Value) :
    ∃ b, ParsesBranches (branchWords cs ++ (fallbackWords fallback ++ [.endWord])) b ∧
      ∀ ν, b.truth ν = caseTruth ν (ν.result fallback) cs := by
  induction cs with
  | nil =>
    obtain ⟨t, v, member⟩ := branched
    cases member
  | cons c cs ih =>
    have rest := fun t v member => inner t v (List.mem_cons_of_mem c member)
    cases c with
    | otherwise w =>
      obtain ⟨t, v, member⟩ := branched
      rcases List.mem_cons.mp member with first | later
      · cases first
      · exact ih ⟨t, v, later⟩ rest
    | when t v =>
      obtain ⟨f, parses, same⟩ := inner t v List.mem_cons_self
      have words (ending : List Word) : branchWords (.when t v :: cs) ++ ending =
          .whenWord :: (t.words ++ .thenWord :: .value v :: (branchWords cs ++ ending)) := by
        simp [branchWords, CaseCall.words]
      rw [words]
      by_cases more : ∃ t v, CaseCall.when t v ∈ cs
      · obtain ⟨b, hb, agrees⟩ := ih more rest
        refine ⟨.next f v b, .next v parses hb, fun ν => ?_⟩
        rw [Branches.truth, same, agrees]
        rfl
      · obtain ⟨wordless, passes⟩ := only_fallbacks more
        rw [wordless]
        refine ⟨.last f v fallback, parses_last parses v fallback, fun ν => ?_⟩
        rw [Branches.truth, same, caseTruth, passes]
        rfl

def CondTree.level (t : CondTree) : Level := if t.isDisjunction then .disjunction else .conjunction

theorem reads_lone {t : CondTree} {value : Assignment → Truth} (h : Reads t.level t.words value) :
    Reads .disjunction t.words value := by
  unfold CondTree.level at h
  split at h
  · exact h
  · exact reads_disjunction h

theorem reads_guarded {t : CondTree} {value : Assignment → Truth}
    (h : Reads t.level t.words value) : Reads .conjunction t.guardedWords value := by
  unfold CondTree.level at h
  unfold CondTree.guardedWords
  split at h
  · rename_i disjunction
    rw [if_pos disjunction]
    exact reads_conjunction (reads_bracketed h)
  · rename_i other
    rw [if_neg other]
    exact h

theorem reads_tree {t : CondTree} (h : t.ErrorFree) :
    Reads t.level t.words fun ν => t.truth ν := by
  induction h with
  | @atom t p atom sound =>
    have level : t.level = .conjunction := by
      cases t with
      | disj a b => cases atom
      | _ => rfl
    rw [level, words_atom atom]
    simp only [truth_atom atom]
    exact reads_conjunction (reads_atom t)
  | conj left right ihl ihr =>
    rw [words_conj]
    exact reads_conj (reads_guarded ihl) (reads_guarded ihr)
  | disj left right ihl ihr =>
    rw [words_disj]
    exact reads_disj (reads_disjunction (reads_conjunction (reads_bracketed (reads_lone ihl))))
      (reads_conjunction (reads_bracketed (reads_lone ihr)))
  | neg operand ih =>
    rw [words_neg]
    exact reads_conjunction (reads_neg (reads_bracketed (reads_lone ih)))
  | @case cs branched sound ih =>
    obtain ⟨b, parses, same⟩ :=
      reads_branches branched (fun t v member => reads_lone (ih t v member)) (lastOtherwise cs)
    rw [words_case]
    exact reads_conjunction ⟨.case b, .case parses, same⟩

/-- The words have one reading, and it has this truth. -/
def ReadOnlyAs (ts : List Word) (value : Assignment → Truth) : Prop :=
  ∃ f, (∀ g, Parses .disjunction ts g ↔ g = f) ∧ ∀ ν, f.truth ν = value ν

theorem read_only_of_reads {ts : List Word} {value : Assignment → Truth}
    (h : Reads .disjunction ts value) : ReadOnlyAs ts value := by
  obtain ⟨f, parses, same⟩ := h
  refine ⟨f, fun g => ⟨fun other => parses_unique other parses, ?_⟩, same⟩
  rintro rfl
  exact parses

/-- What several conditions are written with, side by side in one clause. -/
def joinedWords : List CondTree → List Word
  | [] => []
  | [t] => t.guardedWords
  | t :: u :: ts => t.guardedWords ++ .conj :: joinedWords (u :: ts)

def clauseWords : List CondTree → List Word
  | [t] => t.words
  | ts => joinedWords ts

def allTruths (ts : List CondTree) (ν : Assignment) : Truth := Truth.all (ts.map (CondTree.truth ν))

theorem reads_joined {t : CondTree} {ts : List CondTree}
    (sound : ∀ u ∈ t :: ts, u.ErrorFree) :
    Reads .conjunction (joinedWords (t :: ts)) (allTruths (t :: ts)) := by
  induction ts generalizing t with
  | nil =>
    have single : allTruths [t] = fun ν => t.truth ν := funext fun ν => Truth.both_holds _
    rw [single]
    exact reads_guarded (reads_tree (sound t List.mem_cons_self))
  | cons u ts ih =>
    have rest := ih fun w member => sound w (List.mem_cons_of_mem t member)
    exact reads_conj (reads_guarded (reads_tree (sound t List.mem_cons_self))) rest

theorem reads_clause {ts : List CondTree} (some_condition : ts ≠ [])
    (sound : ∀ t ∈ ts, t.ErrorFree) : Reads .disjunction (clauseWords ts) (allTruths ts) := by
  match ts with
  | [] => exact absurd rfl some_condition
  | [t] =>
    have single : allTruths [t] = fun ν => t.truth ν := funext fun ν => Truth.both_holds _
    rw [single]
    exact reads_lone (reads_tree (sound t List.mem_cons_self))
  | t :: u :: ts => exact reads_disjunction (reads_joined sound)

def clauseScript (keyword : String) : List CondTree → Script
  | [] => []
  | ts => .text (" " ++ keyword ++ " ") :: wordsScript (clauseWords ts)

theorem writes_joined {M : Type} {view : Script → M} (h : Seamless view) {ts : List CondTree}
    {ps : List Predicate} (made : ts.map CondTree.condition = ps.map .ok) :
    view (Script.separated " AND " (ps.map fun p => p.operand.guarded)) =
      view (wordsScript (joinedWords ts)) := by
  induction ts generalizing ps with
  | nil =>
    have empty : ps = [] := List.map_eq_nil_iff.mp made.symm
    rw [empty]
    rfl
  | cons t ts ih =>
    obtain ⟨p, ps, rfl, first, rest⟩ := List.map_eq_cons_iff.mp made.symm
    have guarded := worded_guarded h (worded t) first.symm
    match ts, ps, rest with
    | [], [], _ => exact guarded
    | u :: ts, q :: ps, rest =>
      have later := ih rest.symm
      rw [joinedWords, wordsScript_append, wordsScript_cons]
      exact h.congr guarded (h.prepend [.text " AND "] later)

theorem writes_clause {M : Type} {view : Script → M} (h : Seamless view) (keyword : String)
    {ts : List CondTree} {ps : List Predicate} (made : ts.map CondTree.condition = ps.map .ok) :
    view (filterClause keyword (ps.map Predicate.operand)) = view (clauseScript keyword ts) := by
  match ts, ps, made with
  | [], [], _ => rfl
  | [t], [p], made =>
    have sound : t.condition = .ok p := (List.cons.inj made).1
    exact h.prepend [.text (" " ++ keyword ++ " ")] ((worded t p sound).2 h)
  | t :: u :: ts, p :: q :: ps, made =>
    have joined := writes_joined h made
    have guarded := List.map_map (l := p :: q :: ps) (g := Operand.guarded) (f := Predicate.operand)
    rw [Function.comp_def] at guarded
    rw [← guarded] at joined
    exact h.prepend [.text (" " ++ keyword ++ " ")] joined
  | [t], p :: q :: ps, made => simp at made
  | t :: u :: ts, [p], made => simp at made

theorem sound_of_made {ts : List CondTree} {ps : List Predicate}
    (made : ts.map CondTree.condition = ps.map .ok) : ∀ t ∈ ts, t.ErrorFree := by
  intro t member
  have inside : t.condition ∈ ps.map Except.ok := by
    rw [← made]
    exact List.mem_map_of_mem member
  obtain ⟨p, _, same⟩ := List.mem_map.mp inside
  exact errorFree_of_sound same.symm

/-- In every context the clause is written as the words of these conditions, and the words are
    read as all of them together. -/
def ClauseReads (keyword : String) (s : Script) (ts : List CondTree) : Prop :=
  (∀ ctx : Context, ctx.run s = ctx.run (clauseScript keyword ts)) ∧
    (ts ≠ [] → ReadOnlyAs (clauseWords ts) (allTruths ts))

theorem clause_reads {keyword : String} {ts : List CondTree} {ps : List Predicate}
    (made : ts.map CondTree.condition = ps.map .ok) :
    ClauseReads keyword (filterClause keyword (ps.map Predicate.operand)) ts := by
  constructor
  · exact congrFun (writes_clause seamless_run keyword made)
  · intro some_condition
    exact read_only_of_reads (reads_clause some_condition (sound_of_made made))

inductive Clause where
  | rows : Clause
  | groups : Clause
  deriving DecidableEq, Repr

namespace Clause

def keyword : Clause → String
  | .rows => "WHERE"
  | .groups => "HAVING"

def filters : Clause → Query → List Predicate
  | .rows, q => q.filters
  | .groups, q => q.groupFilters

def script (k : Clause) (q : Query) : Script :=
  filterClause k.keyword ((k.filters q).map Predicate.operand)

end Clause

mutual

/-- The conditions that the calls give to a clause, with those of the queries they compose. -/
def clauseTrees (k : Clause) : List QueryCall → List CondTree
  | [] => []
  | c :: cs => c.clauseTrees k ++ clauseTrees k cs

def QueryCall.clauseTrees (k : Clause) : QueryCall → List CondTree
  | .filter t => if k = .rows then [t] else []
  | .groupFilter t => if k = .groups then [t] else []
  | .compose other => composedTrees k other
  | _ => []

def composedTrees (k : Clause) : Option (List QueryCall) → List CondTree
  | none => []
  | some cs => clauseTrees k cs

end

theorem clauseTrees_eq_flatMap (k : Clause) (cs : List QueryCall) :
    clauseTrees k cs = cs.flatMap (QueryCall.clauseTrees k) := by
  induction cs with
  | nil => rfl
  | cons c cs ih => rw [clauseTrees, ih, List.flatMap_cons]

theorem clause_within (k : Clause) (q : Query) : k.script q <:+: q.script := by
  rw [Query.script_eq]
  simp only [List.append_assoc]
  apply List.infix_cons
  cases k with
  | rows =>
    iterate 3 apply List.infix_append_of_infix_right
    exact List.infix_append_left
  | groups =>
    iterate 5 apply List.infix_append_of_infix_right
    exact List.infix_append_left

def ClauseHolds (k : Clause) (cs : List QueryCall) : Prop :=
  ∀ q, (selectOf cs).state = .ok q →
    (clauseTrees k cs).map CondTree.condition = (k.filters q).map .ok

theorem clause_step {k : Clause} {c : QueryCall}
    (passes : c.Passes (fun _ => True) (fun _ => True) (ClauseHolds k)) {q q' : Query}
    {ts : List CondTree} (held : ts.map CondTree.condition = (k.filters q).map .ok)
    (effect : c.Effect q q') :
    (ts ++ c.clauseTrees k).map CondTree.condition = (k.filters q').map .ok := by
  rw [List.map_append, held]
  cases c with
  | filter t =>
    obtain ⟨p, sound, rfl⟩ := effect
    cases k <;> simp [Clause.filters, QueryCall.clauseTrees, sound]
  | groupFilter t =>
    obtain ⟨p, sound, rfl⟩ := effect
    cases k <;> simp [Clause.filters, QueryCall.clauseTrees, sound]
  | compose other =>
    cases other with
    | none => cases effect; simp [QueryCall.clauseTrees, composedTrees]
    | some cs =>
      obtain ⟨r, composed, rfl⟩ := effect
      have inner := passes cs rfl r composed
      rw [QueryCall.clauseTrees, composedTrees, inner]
      cases k <;> simp [Clause.filters, Query.merge]
  | groupBy es =>
    obtain ⟨ts, _, rfl⟩ := effect
    cases k <;> simp [Clause.filters, QueryCall.clauseTrees]
  | orderBy e asked =>
    obtain ⟨t, _, rfl⟩ := effect
    cases k <;> simp [Clause.filters, QueryCall.clauseTrees]
  | _ =>
    cases effect
    cases k <;> simp [Clause.filters, QueryCall.clauseTrees]

theorem clause_compositional (k : Clause) :
    Compositional (fun _ => True) (fun _ => True) (ClauseHolds k) where
  term _ := trivial
  subquery _ _ := trivial
  aliased _ _ _ := trivial
  compare _ _ _ := trivial
  member _ _ _ := trivial
  memberOf _ _ _ _ := trivial
  between _ _ _ _ := trivial
  nullTest _ _ := trivial
  existence _ _ _ := trivial
  raw _ _ := trivial
  conj _ _ _ _ := trivial
  disj _ _ _ _ := trivial
  neg _ _ := trivial
  case _ _ := trivial
  calls cs passes := by
    intro q state
    have run := selectOf_keeps
      (fun q ts => ts.map CondTree.condition = (k.filters q).map .ok)
      (fun ts c => ts ++ c.clauseTrees k) []
      (fun c member q ts held q' effect => clause_step (passes c member) held effect)
      (by cases k <;> rfl) state
    rw [clauseTrees_eq_flatMap, List.flatMap_eq_foldl]
    exact run

def UpdateCall.trees : UpdateCall → List CondTree
  | .filter t => [t]
  | _ => []

def DeleteCall.trees : DeleteCall → List CondTree
  | .filter t => [t]
  | .dialect _ => []

theorem update_filters {table : ExprTree} {cs : List UpdateCall} {c : Changes}
    (h : (updateOf table cs).state = .ok c) :
    (cs.flatMap UpdateCall.trees).map CondTree.condition = c.filters.map .ok := by
  rw [List.flatMap_eq_foldl]
  refine updateOf_keeps (fun c ts => ts.map CondTree.condition = c.filters.map .ok)
    (fun ts u => ts ++ u.trees) [] (fun u _ c ts held c' effect => ?_) (fun _ _ => rfl) h
  rw [List.map_append, held]
  cases u with
  | filter t =>
    obtain ⟨p, sound, rfl⟩ := effect
    simp [UpdateCall.trees, sound]
  | _ => cases effect; exact List.append_nil _

theorem delete_filters {table : ExprTree} {cs : List DeleteCall} {r : Removal}
    (h : (deleteOf table cs).state = .ok r) :
    (cs.flatMap DeleteCall.trees).map CondTree.condition = r.filters.map .ok := by
  rw [List.flatMap_eq_foldl]
  refine deleteOf_keeps (fun r ts => ts.map CondTree.condition = r.filters.map .ok)
    (fun ts d => ts ++ d.trees) [] (fun d _ r ts held r' effect => ?_) (fun _ _ => rfl) h
  rw [List.map_append, held]
  cases d with
  | filter t =>
    obtain ⟨p, sound, rfl⟩ := effect
    simp [DeleteCall.trees, sound]
  | dialect d => cases effect; exact List.append_nil _

theorem where_within_update {c : Changes} (assigned : c.assignments ≠ []) :
    whereClause c.filters <:+: c.script := by
  have some_assignment : ¬c.assignments.isEmpty := by simpa using assigned
  rw [Changes.script, if_neg some_assignment]
  exact (List.suffix_append _ _).isInfix

theorem where_within_delete (r : Removal) : whereClause r.filters <:+: r.script :=
  (List.suffix_append _ _).isInfix

/-- A condition put together from sound tests is written, and read back as what was put together.
    So is every clause of conditions, as all of them together. -/
theorem conditions_keep_their_meaning :
    (∀ t : CondTree, t.ErrorFree → ∃ p, t.condition = .ok p ∧
      (∀ ctx : Context, ctx.run p.script = ctx.run (wordsScript t.words)) ∧
        ReadOnlyAs t.words fun ν => t.truth ν) ∧
      (∀ cs q, (selectOf cs).state = .ok q → ∀ k : Clause,
        k.script q <:+: q.script ∧ ClauseReads k.keyword (k.script q) (clauseTrees k cs)) ∧
      (∀ table cs c, (updateOf table cs).state = .ok c →
        (c.assignments ≠ [] → whereClause c.filters <:+: c.script) ∧
          ClauseReads "WHERE" (whereClause c.filters) (cs.flatMap UpdateCall.trees)) ∧
      ∀ table cs r, (deleteOf table cs).state = .ok r →
        whereClause r.filters <:+: r.script ∧
          ClauseReads "WHERE" (whereClause r.filters) (cs.flatMap DeleteCall.trees) := by
  refine ⟨?_, ?_, ?_, ?_⟩
  · intro t sound
    obtain ⟨p, made⟩ := errorFree_sound sound
    refine ⟨p, made, congrFun ((worded t p made).2 seamless_run), ?_⟩
    exact read_only_of_reads (reads_lone (reads_tree sound))
  · intro cs q state k
    exact ⟨clause_within k q, clause_reads ((clause_compositional k).query cs q state)⟩
  · intro table cs c state
    constructor
    · exact where_within_update
    · rw [whereClause, operands_eq_map]
      exact clause_reads (update_filters state)
  · intro table cs r state
    constructor
    · exact where_within_delete r
    · rw [whereClause, operands_eq_map]
      exact clause_reads (delete_filters state)

/-- An OR that is composed into a query with a filter of its own gets its parentheses. -/
theorem composed_disjunction_keeps_its_meaning :
    (∃ p, (CondTree.disj (.nullTest "a" .plain) (.neg (.nullTest "b" .plain))).condition = .ok p ∧
      ReadOnlyAs
        [.opening, .atom (.nullTest "a" .plain), .closing, .disj, .opening, .neg, .opening,
          .atom (.nullTest "b" .plain), .closing, .closing]
        fun ν => (ν.atom (.nullTest "a" .plain)).either (ν.atom (.nullTest "b" .plain)).negated) ∧
    ∃ q, (selectOf [.filter (.raw "c > ?" [.int 1]),
        .compose (some [.filter (.disj (.nullTest "a" .plain) (.nullTest "b" .plain))])]).state
          = .ok q ∧
      ReadOnlyAs
        [.atom (.raw "c > ?" [.int 1]), .conj, .opening, .opening, .atom (.nullTest "a" .plain),
          .closing, .disj, .opening, .atom (.nullTest "b" .plain), .closing, .closing]
        (allTruths [.raw "c > ?" [.int 1],
          .disj (.nullTest "a" .plain) (.nullTest "b" .plain)]) := by
  have sound : CondTree.ErrorFree (.disj (.nullTest "a" .plain) (.neg (.nullTest "b" .plain))) :=
    .disj (.atom rfl rfl) (.neg (.atom rfl rfl))
  constructor
  · obtain ⟨p, made, -, reads⟩ := conditions_keep_their_meaning.1 _ sound
    exact ⟨p, made, reads⟩
  · refine ⟨_, rfl, ?_⟩
    have clause := conditions_keep_their_meaning.2.1
      [.filter (.raw "c > ?" [.int 1]),
        .compose (some [.filter (.disj (.nullTest "a" .plain) (.nullTest "b" .plain))])]
      _ rfl .rows
    exact clause.2.2 (List.cons_ne_nil _ _)

end SqlAssembly
