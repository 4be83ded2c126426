import SqlAssembly.Proofs.DocumentOrder
import SqlAssembly.Proofs.MarkBalance
import SqlAssembly.Value.Passed

/-! NULL among the values. Raw texts with values and CASE take any value as it is. Every other test
   looks at its values first, so that no NULL is bound as long as only those are used, at any
   depth. -/
namespace SqlAssembly

mutual

def ExprTree.NullAware : ExprTree → Prop
  | .term _ => True
  | .subquery cs => nullAwareCalls cs
  | .aliased e _ => e.NullAware

def nullAwareExprs : List ExprTree → Prop
  | [] => True
  | e :: es => e.NullAware ∧ nullAwareExprs es

def CondTree.NullAware : CondTree → Prop
  | .memberOf _ _ cs => nullAwareCalls cs
  | .existence _ e => e.NullAware
  | .raw _ values => values = []
  | .conj a b => a.NullAware ∧ b.NullAware
  | .disj a b => a.NullAware ∧ b.NullAware
  | .neg a => a.NullAware
  | .case _ => False
  | _ => True

def QueryCall.NullAware : QueryCall → Prop
  | .columns es => nullAwareExprs es
  | .source e => e.NullAware
  | .join _ target _ _ => target.NullAware
  | .filter t => t.NullAware
  | .groupBy es => nullAwareExprs es
  | .groupFilter t => t.NullAware
  | .orderBy e _ => e.NullAware
  | .compose other => nullAwareComposed other
  | _ => True

def nullAwareComposed : Option (List QueryCall) → Prop
  | none => True
  | some cs => nullAwareCalls cs

/-- Every condition in the query, and in the queries in it, looks at its values. -/
def nullAwareCalls : List QueryCall → Prop
  | [] => True
  | c :: cs => c.NullAware ∧ nullAwareCalls cs

end

def DeleteCall.NullAware : DeleteCall → Prop
  | .filter t => t.NullAware
  | .dialect _ => True

namespace CondTree

/-- The values that are passed to a test. -/
def given : CondTree → List Value
  | .compare _ _ v => [v]
  | .member _ _ values => values
  | .between _ _ low high => [low, high]
  | .raw _ values => values
  | _ => []

/-- The operator of a test and the column that it is about. -/
def subject? : CondTree → Option (Operator × String)
  | .compare column op _ => some (.compare op, column)
  | .member column polarity _ => some (.member polarity, column)
  | .between column polarity _ _ => some (.between polarity, column)
  | _ => none

/-- The test writes this text and binds nothing, and it has no marks but those of the column. -/
structure WritesBare (t : CondTree) (column words : String) : Prop where
  script : t.condition.script = [.fragment (column ++ words) []]
  marks : markCount (column ++ words) = markCount column

/-- The condition is refused, and so is every statement that it is attached to. -/
structure Refused (t : CondTree) : Prop where
  recorded : ∃ e, t.condition = .error e
  select : ∀ cs, .filter t ∈ cs ∨ .groupFilter t ∈ cs →
    ∃ e, ∀ d, (Statement.select (selectOf cs)).buildWith d = .error e
  update : ∀ table us, .filter t ∈ us →
    ∃ e, ∀ d, (Statement.update (updateOf table us)).buildWith d = .error e
  delete : ∀ table ds, .filter t ∈ ds →
    ∃ e, ∀ d, (Statement.delete (deleteOf table ds)).buildWith d = .error e

end CondTree

/-! Scripts without NULL. -/

def Piece.NullFree (p : Piece) : Prop := .null ∉ p.values

theorem indifferent_nullFree : Indifferent Piece.NullFree where
  text _ := List.not_mem_nil
  qualified _ := List.not_mem_nil
  failure _ := List.not_mem_nil

theorem nullFree_iff (s : Script) : s.Each Piece.NullFree ↔ .null ∉ s.arguments := by
  simp [Script.Each, Piece.NullFree, Script.arguments]

/-- A build binds what its pieces bind, and a piece is all that it can bind from. -/
theorem nullFree_built {s : Script} (each : s.Each Piece.NullFree) {d : Dialect} {b : Built}
    (built : s.build d = .ok b) : .null ∉ b.arguments := by
  obtain ⟨ctx, run, rfl⟩ := build_eq_ok built
  have reached := Context.run_written { dialect := d } s
  rw [run] at reached
  have written := (Context.written_prefix { dialect := d } s).subset
  have arguments : ctx.arguments = (Context.written { dialect := d } s).arguments := by
    have whole : ctx = _ := reached
    rw [whole]
    exact List.nil_append _
  rw [arguments]
  exact (nullFree_iff _).mp fun p member => each p (written member)

theorem nullFree_leaf (sql : String) {values : List Value} (free : .null ∉ values) :
    (Condition.leaf sql values).script.Each Piece.NullFree := by
  rw [nullFree_iff]
  change .null ∉ values ++ []
  rwa [List.append_nil]

theorem nullFree_failed (e : BuildError) : (Condition.script (.error e)).Each Piece.NullFree :=
  indifferent_nullFree.each_failure e

/-! Tests. -/

theorem nullFree_compare (column : String) (op : Comparison) (v : Value) :
    (Condition.compare column op v).script.Each Piece.NullFree := by
  unfold Condition.compare
  split
  · cases op with
    | eq => exact nullFree_leaf _ List.not_mem_nil
    | ne => exact nullFree_leaf _ List.not_mem_nil
    | _ => exact nullFree_failed _
  · rename_i some
    refine nullFree_leaf _ ?_
    intro null
    rw [List.mem_singleton] at null
    exact some ((isNull_iff v).mpr null.symm)

theorem nullFree_member (column : String) (polarity : Polarity) (values : List Value) :
    (Condition.member column polarity values).script.Each Piece.NullFree := by
  unfold Condition.member
  split
  · exact nullFree_failed _
  · split
    · exact nullFree_failed _
    · rename_i some
      refine nullFree_leaf _ ?_
      intro null
      exact some (List.any_eq_true.mpr ⟨.null, null, rfl⟩)

theorem nullFree_between (column : String) (polarity : Polarity) (low high : Value) :
    (Condition.between column polarity low high).script.Each Piece.NullFree := by
  unfold Condition.between
  split
  · exact nullFree_failed _
  · rename_i some
    refine nullFree_leaf _ ?_
    intro null
    rw [Bool.or_eq_true, isNull_iff, isNull_iff] at some
    rcases List.mem_pair.mp null with same | same
    · exact some (.inl same.symm)
    · exact some (.inr same.symm)

theorem nullFree_raw (sql : String) : (Condition.raw sql []).script.Each Piece.NullFree := by
  simp only [Condition.raw]
  split
  · exact nullFree_leaf _ List.not_mem_nil
  · exact nullFree_failed _

theorem nullFree_before (sql : String) {q : Select}
    (inner : (Expr.script (.subquery q)).Each Piece.NullFree) :
    (Condition.script (.ok (.leaf [.text sql [], .subquery q]))).Each Piece.NullFree := by
  rw [script_before]
  exact each_append.mpr ⟨List.forall_mem_singleton.mpr List.not_mem_nil, inner⟩

theorem nullFree_existence (polarity : Polarity) {e : ExprTree}
    (inner : e.expr.script.Each Piece.NullFree) :
    (Condition.existence polarity e.expr).script.Each Piece.NullFree := by
  cases e with
  | aliased e label => exact nullFree_failed _
  | subquery cs => exact nullFree_before _ inner
  | term t =>
    cases t with
    | raw sql => exact nullFree_leaf _ List.not_mem_nil
    | _ => exact nullFree_failed _

/-! Conditions and queries. -/

abbrev ExprNullFree (e : ExprTree) : Prop := e.NullAware → e.expr.script.Each Piece.NullFree

abbrev CondNullFree (t : CondTree) : Prop :=
  t.NullAware → (wordsScript t.words).Each Piece.NullFree

abbrev QueryNullFree (cs : List QueryCall) : Prop :=
  nullAwareCalls cs → ∀ q, (selectOf cs).state = .ok q → ClausesEach Piece.NullFree q

theorem nullFree_bracketed {ts : List Word} (inner : (wordsScript ts).Each Piece.NullFree) :
    (wordsScript (bracketed ts)).Each Piece.NullFree := by
  rw [nullFree_iff, wordsScript_bracketed, ← arguments_payload, payload_parenthesized,
    arguments_payload]
  exact (nullFree_iff _).mp inner

theorem nullFree_guarded {t : CondTree} (inner : (wordsScript t.words).Each Piece.NullFree) :
    (wordsScript t.guardedWords).Each Piece.NullFree := by
  unfold CondTree.guardedWords
  split
  · exact nullFree_bracketed inner
  · exact inner

theorem nullFree_atom {t : CondTree} (atom : t.isAtom = true)
    (own : t.condition.script.Each Piece.NullFree) : (wordsScript t.words).Each Piece.NullFree := by
  rwa [wordsScript_atom atom]

theorem nullFree_word {word : Word} (bare : word.script.arguments = []) :
    word.script.Each Piece.NullFree := by
  rw [nullFree_iff, bare]
  exact List.not_mem_nil

theorem nullFree_joined {ts us : List Word} (word : Word) (bare : word.script.arguments = [])
    (left : (wordsScript ts).Each Piece.NullFree) (right : (wordsScript us).Each Piece.NullFree) :
    (wordsScript (ts ++ word :: us)).Each Piece.NullFree := by
  rw [wordsScript_append, wordsScript_cons]
  exact each_append.mpr ⟨left, each_append.mpr ⟨nullFree_word bare, right⟩⟩

theorem nullFree_condition {t : CondTree} (free : (wordsScript t.words).Each Piece.NullFree)
    {p : Predicate} (sound : t.condition = .ok p) : p.script.Each Piece.NullFree := by
  obtain ⟨-, reads⟩ := worded t p sound
  rw [nullFree_iff, reads seamless_arguments]
  exact (nullFree_iff _).mp free

theorem nullFree_select {cs : List QueryCall} (free : QueryNullFree cs)
    (aware : nullAwareCalls cs) : (Select.script (selectOf cs)).Each Piece.NullFree :=
  indifferent_nullFree.each_select (free aware)

theorem aware_exprs {es : List ExprTree} (aware : nullAwareExprs es) : ∀ e ∈ es, e.NullAware := by
  induction es with
  | nil => simp
  | cons e es ih => exact List.forall_mem_cons.mpr ⟨aware.1, ih aware.2⟩

theorem aware_calls {cs : List QueryCall} (aware : nullAwareCalls cs) : ∀ c ∈ cs, c.NullAware := by
  induction cs with
  | nil => simp
  | cons c cs ih => exact List.forall_mem_cons.mpr ⟨aware.1, ih aware.2⟩

theorem call_nullFree {c : QueryCall} (passes : c.Passes ExprNullFree CondNullFree QueryNullFree)
    (aware : c.NullAware) {q q' : Query} (held : ClausesEach Piece.NullFree q)
    (effect : c.Effect q q') : ClausesEach Piece.NullFree q' := by
  refine clauses_call ?_ held effect
  cases c with
  | columns es => exact fun e inside => passes e inside (aware_exprs aware e inside)
  | source e => exact passes aware
  | join kind target left right => exact passes aware
  | filter t => exact fun p sound => nullFree_condition (passes aware) sound
  | groupFilter t => exact fun p sound => nullFree_condition (passes aware) sound
  | groupBy es => exact fun e inside => passes e inside (aware_exprs aware e inside)
  | orderBy e asked => exact passes aware
  | compose other =>
    rintro cs rfl
    exact passes cs rfl aware
  | _ => trivial

theorem nullFree_compositional : Compositional ExprNullFree CondNullFree QueryNullFree where
  term t _ := indifferent_nullFree.each_of_unloaded (payload_term t)
  subquery cs inner aware := indifferent_nullFree.each_nested (nullFree_select inner aware)
  aliased e label inner aware :=
    each_append.mpr ⟨inner aware, indifferent_nullFree.each_of_unloaded rfl⟩
  compare column op v _ := nullFree_atom rfl (nullFree_compare column op v)
  member column polarity values _ := nullFree_atom rfl (nullFree_member column polarity values)
  memberOf column polarity cs inner aware :=
    nullFree_atom rfl (nullFree_before _
      (indifferent_nullFree.each_nested (nullFree_select inner aware)))
  between column polarity low high _ :=
    nullFree_atom rfl (nullFree_between column polarity low high)
  nullTest column polarity _ := nullFree_atom rfl (nullFree_leaf _ List.not_mem_nil)
  existence polarity e inner aware := nullFree_atom rfl (nullFree_existence polarity (inner aware))
  raw sql values aware := by
    cases (aware : values = [])
    exact nullFree_atom rfl (nullFree_raw sql)
  conj a b left right aware := by
    rw [words_conj]
    exact nullFree_joined .conj rfl (nullFree_guarded (left aware.1))
      (nullFree_guarded (right aware.2))
  disj a b left right aware := by
    rw [words_disj]
    exact nullFree_joined .disj rfl (nullFree_bracketed (left aware.1))
      (nullFree_bracketed (right aware.2))
  neg a inner aware := by
    rw [words_neg, wordsScript_cons]
    exact each_append.mpr ⟨nullFree_word rfl, nullFree_bracketed (inner aware)⟩
  case cs _ aware := aware.elim
  calls cs passes aware q state :=
    selectOf_invariant
      (fun c member q held q' effect =>
        call_nullFree (passes c member) (aware_calls aware c member) held effect)
      (clauses_empty Piece.NullFree) state

/-! Tests that are passed a NULL. -/

theorem aware_tests {t : CondTree} (aware : t.NullAware) :
    ∀ leaf ∈ t.tests, leaf.isAtom = true ∧ leaf.NullAware := by
  induction t using tree_induction with
  | atom t atom =>
    rw [tests_atom atom]
    exact List.forall_mem_singleton.mpr ⟨atom, aware⟩
  | conj a b left right =>
    rw [CondTree.tests]
    exact List.forall_mem_append.mpr ⟨left aware.1, right aware.2⟩
  | disj a b left right =>
    rw [CondTree.tests]
    exact List.forall_mem_append.mpr ⟨left aware.1, right aware.2⟩
  | neg a inner =>
    rw [CondTree.tests]
    exact inner aware
  | case cs _ => exact aware.elim

theorem refused_of_fault {t leaf : CondTree} (inside : leaf ∈ t.tests) {e : BuildError}
    (fault : leaf.testFault? = some e) : t.Refused := by
  -- The first fault of the condition can be another one than this, but there is one.
  have found : t.fault?.isSome = true :=
    List.findSome?_isSome_iff.mpr ⟨leaf, inside, by rw [fault]; rfl⟩
  obtain ⟨cause, first⟩ := Option.isSome_iff_exists.mp found
  refine ⟨⟨cause, errorOf_eq_some.mp ((condition_error t).trans first)⟩, ?_, ?_, ?_⟩
  · rintro cs (member | member)
    · exact select_faults_stay.fails member first
    · exact select_faults_stay.fails member first
  · intro table us member
    exact (update_faults_stay table).fails member first
  · intro table ds member
    exact (delete_faults_stay table).fails member first

theorem null_compare (column : String) (polarity : Polarity) {t : CondTree}
    (same : t.condition = Condition.nullTest column polarity) :
    t.WritesBare column (" IS " ++ polarity.keyword "NULL") := by
  have words : markCount (" IS " ++ polarity.keyword "NULL") = 0 := by cases polarity <;> decide
  constructor
  · rw [same, ← String.append_assoc]
    rfl
  · rw [markCount_append, words, Nat.add_zero]

/-- What becomes of a test that is passed a NULL. -/
theorem null_given {leaf : CondTree} (aware : leaf.NullAware) (null : .null ∈ leaf.given) :
    (∃ column, leaf = .compare column .eq .null ∧ leaf.WritesBare column " IS NULL") ∨
      (∃ column, leaf = .compare column .ne .null ∧ leaf.WritesBare column " IS NOT NULL") ∨
      ∃ op column, leaf.subject? = some (op, column) ∧
        leaf.testFault? = some (.nullValue op column) := by
  cases leaf with
  | compare column op v =>
    cases List.mem_singleton.mp null
    cases op with
    | eq => exact .inl ⟨column, rfl, null_compare column .plain rfl⟩
    | ne => exact .inr (.inl ⟨column, rfl, null_compare column .negated rfl⟩)
    | _ => exact .inr (.inr ⟨_, column, rfl, rfl⟩)
  | member column polarity values =>
    have some : values ≠ [] := List.ne_nil_of_mem null
    have listed : .null ∈ values := null
    refine .inr (.inr ⟨.member polarity, column, rfl, ?_⟩)
    rw [CondTree.testFault?, if_neg some, if_pos listed]
  | between column polarity low high =>
    have either : low = .null ∨ high = .null := by
      rcases List.mem_pair.mp null with same | same
      · exact .inl same.symm
      · exact .inr same.symm
    refine .inr (.inr ⟨.between polarity, column, rfl, ?_⟩)
    rw [CondTree.testFault?, if_pos either]
  | raw sql values =>
    cases (aware : values = [])
    cases null
  | _ => cases null

/-- Conditions of tests that look at their values, and the queries and deletions whose conditions
    are all of this kind, bind no NULL. A test that is passed one asks whether the column is NULL,
    or it is refused, and with it the condition and the statement. -/
theorem predicates_never_bind_null :
    (∀ p : Passed, p.value = .null ↔ p.IsNull) ∧
    (∀ t : CondTree, t.NullAware → ∀ d b, t.condition.script.build d = .ok b →
      .null ∉ b.arguments) ∧
    (∀ cs, nullAwareCalls cs → ∀ d b, (Statement.select (selectOf cs)).buildWith d = .ok b →
      .null ∉ b.arguments) ∧
    (∀ table cs, (∀ c ∈ cs, c.NullAware) → ∀ d b,
      (Statement.delete (deleteOf table cs)).buildWith d = .ok b → .null ∉ b.arguments) ∧
    ∀ t : CondTree, t.NullAware → ∀ leaf ∈ t.tests, .null ∈ leaf.given →
      (∃ column, leaf = .compare column .eq .null ∧ leaf.WritesBare column " IS NULL") ∨
      (∃ column, leaf = .compare column .ne .null ∧ leaf.WritesBare column " IS NOT NULL") ∨
      ∃ op column, leaf.subject? = some (op, column) ∧
        leaf.condition = .error (.nullValue op column) ∧ t.Refused := by
  refine ⟨value_eq_null_iff, ?_, ?_, ?_, ?_⟩
  · intro t aware d b built
    refine nullFree_built ?_ built
    cases sound : t.condition with
    | error e => exact nullFree_failed e
    | ok p => exact nullFree_condition (nullFree_compositional.cond t aware) sound
  · intro cs aware d b built
    exact nullFree_built (nullFree_select (nullFree_compositional.query cs) aware) built
  · intro table cs aware d b built
    refine nullFree_built (indifferent_nullFree.each_delete ?_) built
    intro r made
    refine deleteOf_invariant (I := fun r => ∀ p ∈ r.filters, p.script.Each Piece.NullFree)
      (fun c member r held r' effect => ?_) (fun _ _ => by simp) made
    cases c with
    | dialect d =>
      cases effect
      exact held
    | filter t =>
      obtain ⟨p, sound, rfl⟩ := effect
      have free := nullFree_compositional.cond t (aware _ member)
      exact forall_mem_concat held (nullFree_condition free sound)
  · intro t aware leaf inside null
    obtain ⟨atom, own⟩ := aware_tests aware leaf inside
    rcases null_given own null with equal | unequal | ⟨op, column, subject, fault⟩
    · exact .inl equal
    · exact .inr (.inl unequal)
    · have failed : errorOf leaf.condition = some (.nullValue op column) := by
        rw [condition_error, fault_atom atom, fault]
      exact .inr (.inr ⟨op, column, subject, errorOf_eq_some.mp failed,
        refused_of_fault inside fault⟩)

/-- The first test is passed something absent, the second a NULL among other values. -/
def nullsPassed : CondTree :=
  .conj (.compare "a" .eq (Passed.present (.present .absent)).value)
    (.neg (.member "b" .negated [.int 1, .null]))

theorem listed_null_is_refused :
    (CondTree.compare "a" .eq (Passed.present (.present .absent)).value).condition.script =
      [.fragment "a IS NULL" []] ∧
    (CondTree.member "b" .negated [.int 1, .null]).condition =
      .error (.nullValue (.member .negated) "b") ∧
    ∃ e, ∀ d, (Statement.select (selectOf [.source (.term (.name "t")),
      .filter nullsPassed])).buildWith d = .error e := by
  obtain ⟨passed, -, -, -, given⟩ := predicates_never_bind_null
  have absent : (Passed.present (.present .absent)).value = .null :=
    (passed _).mpr (.present (.present .absent))
  have fate := given nullsPassed ⟨trivial, trivial⟩
  refine ⟨?_, ?_⟩
  · have inside : CondTree.compare "a" .eq .null ∈ nullsPassed.tests := List.mem_cons_self
    rw [absent]
    rcases fate _ inside List.mem_cons_self with ⟨_, ⟨⟩, bare⟩ | ⟨_, ⟨⟩, _⟩ | ⟨_, _, _, failed, _⟩
    · exact bare.script
    · cases failed
  · have inside : CondTree.member "b" .negated [.int 1, .null] ∈ nullsPassed.tests :=
      List.mem_cons_of_mem _ List.mem_cons_self
    have null : Value.null ∈ (CondTree.member "b" .negated [.int 1, .null]).given :=
      List.mem_cons_of_mem _ List.mem_cons_self
    rcases fate _ inside null with ⟨_, ⟨⟩, _⟩ | ⟨_, ⟨⟩, _⟩ | ⟨_, _, ⟨⟩, failed, refused⟩
    exact ⟨failed, refused.select _ (.inl (List.mem_cons_of_mem _ List.mem_cons_self))⟩

end SqlAssembly
