import SqlAssembly.Proofs.Tidiness

/-! The texts that a caller supplies. Where all of them keep clear of the reserved characters, but
   for the marks of raw tests, a condition that is made of them is tidy. -/
namespace SqlAssembly

inductive CallerText where
  | plain : String → CallerText
  /-- The text of a raw test, with its marks -/
  | marked : String → CallerText
  deriving DecidableEq, Repr

def CallerText.Clear (bad : List Char) : CallerText → Prop
  | .plain sql => ClearText bad sql
  | .marked sql => MarkedText bad sql

instance (bad : List Char) : (x : CallerText) → Decidable (x.Clear bad)
  | .plain sql => inferInstanceAs (Decidable (ClearText bad sql))
  | .marked sql => inferInstanceAs (Decidable (MarkedText bad sql))

mutual

def ExprTree.texts : ExprTree → List CallerText
  | .term t => [.plain t.text]
  | .subquery cs => textsOf cs
  | .aliased e label => e.texts ++ [.plain label]

def exprTexts : List ExprTree → List CallerText
  | [] => []
  | e :: es => e.texts ++ exprTexts es

def CondTree.texts : CondTree → List CallerText
  | .compare column _ _ => [.plain column]
  | .member column _ _ => [.plain column]
  | .memberOf column _ cs => .plain column :: textsOf cs
  | .between column _ _ _ => [.plain column]
  | .nullTest column _ => [.plain column]
  | .existence _ e => e.texts
  | .raw sql _ => [.marked sql]
  | .conj a b => a.texts ++ b.texts
  | .disj a b => a.texts ++ b.texts
  | .neg a => a.texts
  | .case cs => caseTexts cs

def CaseCall.texts : CaseCall → List CallerText
  | .when t _ => t.texts
  | .otherwise _ => []

def caseTexts : List CaseCall → List CallerText
  | [] => []
  | c :: cs => c.texts ++ caseTexts cs

def QueryCall.texts : QueryCall → List CallerText
  | .columns es => exprTexts es
  | .source e => e.texts
  | .join _ target left right => target.texts ++ [.plain left, .plain right]
  | .filter t => t.texts
  | .groupBy es => exprTexts es
  | .groupFilter t => t.texts
  | .orderBy e _ => e.texts
  | .compose other => composedTexts other
  | _ => []

def composedTexts : Option (List QueryCall) → List CallerText
  | none => []
  | some cs => textsOf cs

def textsOf : List QueryCall → List CallerText
  | [] => []
  | c :: cs => c.texts ++ textsOf cs

end

def rowTexts : Builder.Call Rows.Edit → List CallerText
  | .edit (.columns names) => names.map .plain
  | _ => []

def UpdateCall.texts : UpdateCall → List CallerText
  | .set column _ => [.plain column]
  | .setRaw column sql => [.plain column, .plain sql]
  | .filter t => t.texts
  | .dialect _ => []

def DeleteCall.texts : DeleteCall → List CallerText
  | .filter t => t.texts
  | .dialect _ => []

def conflictTexts : Builder.Call Conflict.Edit → List CallerText
  | .edit (.target names) => names.map .plain
  | .edit (.overwrite names) => names.map .plain
  | _ => []

def StatementTree.texts : StatementTree → List CallerText
  | .select cs => textsOf cs
  | .insert table cs => table.texts ++ cs.flatMap rowTexts
  | .update table cs => table.texts ++ cs.flatMap UpdateCall.texts
  | .delete table cs => table.texts ++ cs.flatMap DeleteCall.texts
  | .upsert table cs conflicts =>
    table.texts ++ cs.flatMap rowTexts ++ conflicts.flatMap conflictTexts
  | .returning inner columns _ => inner.texts ++ columns.map .plain

variable {bad : List Char}

def AllClear (bad : List Char) (texts : List CallerText) : Prop := ∀ x ∈ texts, x.Clear bad

instance (bad : List Char) (texts : List CallerText) : Decidable (AllClear bad texts) :=
  List.decidableBAll _ texts

theorem allClear_append {a b : List CallerText} :
    AllClear bad (a ++ b) ↔ AllClear bad a ∧ AllClear bad b := List.forall_mem_append

theorem allClear_cons {x : CallerText} {b : List CallerText} :
    AllClear bad (x :: b) ↔ x.Clear bad ∧ AllClear bad b := List.forall_mem_cons

theorem allClear_names {ns : List String} (h : AllClear bad (ns.map .plain)) :
    ∀ n ∈ ns, ClearText bad n := by
  intro n member
  exact h (.plain n) (List.mem_map_of_mem member)

theorem allClear_flatMap {α : Type} {f : α → List CallerText} {xs : List α}
    (h : AllClear bad (xs.flatMap f)) : ∀ x ∈ xs, AllClear bad (f x) := by
  intro x inside text found
  exact h text (List.mem_flatMap.mpr ⟨x, inside, found⟩)

theorem exprTexts_eq_flatMap (es : List ExprTree) : exprTexts es = es.flatMap ExprTree.texts := by
  induction es with
  | nil => rfl
  | cons e es ih => rw [exprTexts, ih, List.flatMap_cons]

theorem caseTexts_eq_flatMap (cs : List CaseCall) : caseTexts cs = cs.flatMap CaseCall.texts := by
  induction cs with
  | nil => rfl
  | cons c cs ih => rw [caseTexts, ih, List.flatMap_cons]

theorem textsOf_eq_flatMap (cs : List QueryCall) : textsOf cs = cs.flatMap QueryCall.texts := by
  induction cs with
  | nil => rfl
  | cons c cs ih => rw [textsOf, ih, List.flatMap_cons]

theorem tidy_bracketed (reserved : Reserved bad) {ts : List Word}
    (h : Tidy bad (wordsScript ts)) : Tidy bad (wordsScript (bracketed ts)) := by
  rw [wordsScript_bracketed]
  exact tidy_parenthesized reserved h

theorem tidy_guarded (reserved : Reserved bad) {t : CondTree}
    (h : Tidy bad (wordsScript t.words)) : Tidy bad (wordsScript t.guardedWords) := by
  unfold CondTree.guardedWords
  split
  · exact tidy_bracketed reserved h
  · exact h

theorem tidy_words {t : CondTree} {p : Predicate} (sound : t.condition = .ok p)
    (h : Tidy bad (wordsScript t.words)) : Tidy bad p.script := by
  obtain ⟨-, reads⟩ := worded t p sound
  exact tidy_of_same (reads seamless_glyphs) (reads seamless_arguments) h

theorem tidy_atom {t : CondTree} (atom : t.isAtom = true) (h : Tidy bad t.condition.script) :
    Tidy bad (wordsScript t.words) := by
  rw [wordsScript_atom atom]
  exact h

/-- The texts of the library have no reserved characters but their marks, and no digits. -/
def LibraryText (sql : String) : Prop :=
  ∀ c ∈ sql.toList, (c = '?' ∨ c ∉ special) ∧ c.isDigit = false

instance (sql : String) : Decidable (LibraryText sql) :=
  decidable_of_iff (sql.toList.all fun c => (c == '?' || !special.contains c) && !c.isDigit)
    (by simp [LibraryText])

theorem library_append {a b : String} (left : LibraryText a) (right : LibraryText b) :
    LibraryText (a ++ b) := by
  intro c member
  rw [String.toList_append] at member
  rcases List.mem_append.mp member with first | later
  · exact left c first
  · exact right c later

/-- A column without reserved characters, and after it text of the library. -/
theorem marked_column (reserved : Reserved bad) {column lib : String}
    (clear : ClearText bad column) (library : LibraryText lib) :
    MarkedText bad (column ++ lib) := by
  constructor
  · intro c member
    rw [String.toList_append] at member
    rcases List.mem_append.mp member with first | later
    · exact .inr (clear c first)
    · exact (library c later).1.imp_right fun other inside => other (reserved.only inside)
  · rw [String.toList_append]
    have text : lib.toList.IsChain fun a b => a = '?' → b.isDigit = false :=
      chain_of_right fun b member _ _ => (library b member).2
    apply (marked_of_clear reserved clear).apart.append text
    intro a last b _ same
    rw [same] at last
    exact absurd (List.mem_of_getLast? last) (unmarked_of_clear reserved clear)

/-- A test on a column is tidy when the text of the library has a mark for each value. -/
theorem tidy_test (reserved : Reserved bad) {column lib : String} {values : List Value}
    (clear : ClearText bad column) (library : LibraryText lib)
    (balanced : lib.toList.count '?' = values.length) :
    Tidy bad (Condition.leaf (column ++ lib) values).script := by
  have script : (Condition.leaf (column ++ lib) values).script =
      [.fragment (column ++ lib) values] := rfl
  rw [script]
  refine tidy_fragment (marked_column reserved clear library) ?_
  rw [String.toList_append, List.count_append,
    List.count_eq_zero.mpr (unmarked_of_clear reserved clear), Nat.zero_add]
  exact balanced

theorem tidy_failure (e : BuildError) : Tidy bad [.fail e] := tidy_of_bare (bare_failure e)

theorem tidy_nullTest (reserved : Reserved bad) {column : String} (clear : ClearText bad column)
    (polarity : Polarity) : Tidy bad (Condition.nullTest column polarity).script := by
  unfold Condition.nullTest
  rw [String.append_assoc]
  cases polarity with
  | plain => exact tidy_test reserved clear (by decide) rfl
  | negated => exact tidy_test reserved clear (by decide) rfl

theorem tidy_compare (reserved : Reserved bad) {column : String} (clear : ClearText bad column)
    (op : Comparison) (v : Value) : Tidy bad (Condition.compare column op v).script := by
  unfold Condition.compare
  cases v.isNull with
  | true =>
    cases op with
    | eq => exact tidy_nullTest reserved clear .plain
    | ne => exact tidy_nullTest reserved clear .negated
    | _ => exact tidy_failure _
  | false =>
    rw [if_neg Bool.false_ne_true, String.append_assoc, String.append_assoc]
    cases op <;> exact tidy_test reserved clear (by decide) rfl

theorem marks_library (n : Nat) : LibraryText (Condition.marks n) := by
  intro c member
  rw [Condition.marks, String.toList_intercalate, List.map_replicate] at member
  have found : c ∈ ", ".toList ∨ ∃ l ∈ List.replicate n "?".toList, c ∈ l :=
    mem_intercalate member
  have cases_of : c = ',' ∨ c = ' ' ∨ c = '?' := by
    rcases found with between | ⟨l, inside, here⟩
    · have listed : c ∈ [',', ' '] := between
      simp only [List.mem_cons, List.not_mem_nil, or_false] at listed
      rcases listed with comma | blank
      · exact .inl comma
      · exact .inr (.inl blank)
    · rw [List.eq_of_mem_replicate inside] at here
      exact .inr (.inr (List.mem_singleton.mp here))
  rcases cases_of with rfl | rfl | rfl <;> decide

theorem tidy_member (reserved : Reserved bad) {column : String} (clear : ClearText bad column)
    (polarity : Polarity) (values : List Value) :
    Tidy bad (Condition.member column polarity values).script := by
  unfold Condition.member
  split
  · exact tidy_failure _
  · split
    · exact tidy_failure _
    · obtain ⟨lead, library, unmarked, text⟩ : ∃ lead : String, LibraryText lead ∧
          lead.toList.count '?' = 0 ∧
          column ++ " " ++ (Operator.member polarity).keyword ++ " (" ++
            Condition.marks values.length ++ ")" =
            column ++ (lead ++ (Condition.marks values.length ++ ")")) := by
        refine ⟨" " ++ ((Operator.member polarity).keyword ++ " ("), ?_, ?_, ?_⟩
        · cases polarity <;> decide
        · cases polarity <;> rfl
        · simp only [String.append_assoc]
      rw [text]
      refine tidy_test reserved clear
        (library_append library (library_append (marks_library _) (by decide))) ?_
      rw [String.toList_append, String.toList_append, List.count_append, List.count_append,
        unmarked, Condition.count_marks]
      exact Nat.zero_add _

theorem tidy_between (reserved : Reserved bad) {column : String} (clear : ClearText bad column)
    (polarity : Polarity) (low high : Value) :
    Tidy bad (Condition.between column polarity low high).script := by
  unfold Condition.between
  split
  · exact tidy_failure _
  · rw [String.append_assoc, String.append_assoc]
    cases polarity <;> exact tidy_test reserved clear (by decide) rfl

theorem tidy_raw {sql : String} (marked : MarkedText bad sql) (values : List Value) :
    Tidy bad (Condition.raw sql values).script := by
  simp only [Condition.raw]
  split
  · rename_i balanced
    exact tidy_fragment marked balanced
  · exact tidy_failure _

/-- Unmarked text in front of a nested query. -/
theorem tidy_before {sql : String} {q : Select} (reserved : Reserved bad)
    (clear : ClearText bad sql) (h : Tidy bad (Expr.script (.subquery q))) :
    Tidy bad (Condition.script (.ok (.leaf [.text sql [], .subquery q]))) := by
  have unmarked := unmarked_of_clear reserved clear
  rw [script_before]
  refine tidy_joined (tidy_fragment (marked_of_clear reserved clear)
    (List.count_eq_zero.mpr unmarked)) h (.inl ?_)
  have glyphs : Script.glyphs [.fragment sql []] = Glyph.fragment sql.toList := List.append_nil _
  rw [glyphs, ← List.count_eq_zero, count_fragment, List.count_eq_zero]
  exact unmarked

theorem tidy_existence (reserved : Reserved bad) (polarity : Polarity) {e : ExprTree}
    (clear : AllClear bad e.texts) (h : Tidy bad e.expr.script) :
    Tidy bad (Condition.existence polarity e.expr).script := by
  have lead : ClearText bad ((StrictClause.exists polarity).keyword ++ " ") := by
    cases polarity <;> exact clear_library reserved (by decide)
  cases e with
  | aliased e label => exact tidy_failure _
  | subquery cs => exact tidy_before reserved lead h
  | term t =>
    cases t with
    | raw sql =>
      have own : ClearText bad sql := clear (.plain sql) List.mem_cons_self
      have opening : ClearText bad ((StrictClause.exists polarity).keyword ++ " (") := by
        cases polarity <;> exact clear_library reserved (by decide)
      have closing : ClearText bad ")" := clear_library reserved (by decide)
      have whole := clear_append (clear_append opening own) closing
      exact tidy_fragment (marked_of_clear reserved whole)
        (List.count_eq_zero.mpr (unmarked_of_clear reserved whole))
    | _ => exact tidy_failure _

/-- Two scripts with text of the library between them. -/
theorem tidy_between_text (reserved : Reserved bad) {a b : Script} (lib : String)
    (library : ClearText special lib) {c : Char}
    (first : lib.toList.head? = some c) (apart : c.isDigit = false) (left : Tidy bad a)
    (right : Tidy bad b) : Tidy bad (a ++ .text lib :: b) := by
  have lead : Bare bad [.text lib] := bare_library reserved library
  exact tidy_append left (tidy_lead lead right) (opens_text lib b first apart)

theorem tidy_conj (reserved : Reserved bad) {a b : CondTree} (left : Tidy bad (wordsScript a.words))
    (right : Tidy bad (wordsScript b.words)) :
    Tidy bad (wordsScript (CondTree.conj a b).words) := by
  rw [words_conj, wordsScript_append]
  exact tidy_between_text reserved " AND " (by decide) rfl rfl
    (tidy_guarded reserved left) (tidy_guarded reserved right)

theorem tidy_disj (reserved : Reserved bad) {a b : CondTree} (left : Tidy bad (wordsScript a.words))
    (right : Tidy bad (wordsScript b.words)) :
    Tidy bad (wordsScript (CondTree.disj a b).words) := by
  rw [words_disj, wordsScript_append]
  exact tidy_between_text reserved " OR " (by decide) rfl rfl
    (tidy_bracketed reserved left) (tidy_bracketed reserved right)

theorem tidy_neg (reserved : Reserved bad) {a : CondTree} (h : Tidy bad (wordsScript a.words)) :
    Tidy bad (wordsScript (CondTree.neg a).words) := by
  have lead : Bare bad [.text "NOT "] := bare_library reserved (by decide)
  rw [words_neg]
  exact tidy_lead lead (tidy_bracketed reserved h)

theorem opens_branches (cs : List CaseCall) : Opens (wordsScript (branchWords cs)) := by
  induction cs with
  | nil => exact opens_nil
  | cons c cs ih =>
    cases c with
    | otherwise v => exact ih
    | when t v => exact opens_text " WHEN " _ rfl rfl

theorem tidy_branches (reserved : Reserved bad) {cs : List CaseCall}
    (each : ∀ t v, CaseCall.when t v ∈ cs → Tidy bad (wordsScript t.words)) :
    Tidy bad (wordsScript (branchWords cs)) := by
  induction cs with
  | nil => exact tidy_of_bare bare_nil
  | cons c cs ih =>
    have rest := ih fun t v member => each t v (List.mem_cons_of_mem c member)
    cases c with
    | otherwise v => exact rest
    | when t v =>
      have lead : Bare bad [.text " WHEN "] := bare_library reserved (by decide)
      have branch : Tidy bad (wordsScript t.words ++ .text " THEN " :: Script.argument v) :=
        tidy_between_text reserved " THEN " (by decide) rfl rfl (each t v List.mem_cons_self)
          (tidy_argument v)
      rw [branchWords, CaseCall.words, wordsScript_append, wordsScript_cons, wordsScript_append]
      exact tidy_append (tidy_lead lead branch) rest (opens_branches cs)

theorem tidy_case (reserved : Reserved bad) {cs : List CaseCall}
    (each : ∀ t v, CaseCall.when t v ∈ cs → Tidy bad (wordsScript t.words)) :
    Tidy bad (wordsScript (CondTree.case cs).words) := by
  have lead : Bare bad [.text "CASE"] := bare_library reserved (by decide)
  have closing : Bare bad [.text " END"] := bare_library reserved (by decide)
  have ending : Tidy bad (wordsScript (fallbackWords (lastOtherwise cs) ++ [.endWord])) ∧
      Opens (wordsScript (fallbackWords (lastOtherwise cs) ++ [.endWord])) := by
    cases lastOtherwise cs with
    | none => exact ⟨tidy_of_bare closing, opens_text " END" [] rfl rfl⟩
    | some v =>
      have word : Bare bad [.text " ELSE "] := bare_library reserved (by decide)
      have whole : Tidy bad (([.text " ELSE "] ++ Script.argument v) ++ [.text " END"]) :=
        tidy_append (tidy_lead word (tidy_argument v)) (tidy_of_bare closing)
          (opens_text " END" [] rfl rfl)
      exact ⟨whole, opens_text " ELSE " _ rfl rfl⟩
  rw [words_case, wordsScript_cons, wordsScript_append]
  exact tidy_lead lead (tidy_append (tidy_branches reserved each) ending.1 ending.2)

end SqlAssembly
