import SqlAssembly.Proofs.MarkBalance

/-! A context that is written to again and again, also after a call has failed half-way. As long as
   every fragment has a value for each of its marks, the next number stays one ahead of the
   arguments. -/
namespace SqlAssembly

inductive ContextCall where
  | text : String → ContextCall
  | name : String → ContextCall
  | names : List String → ContextCall
  | fragment : String → List Value → ContextCall
  | argument : Value → ContextCall
  | subquery : List QueryCall → ContextCall
  | condition : CondTree → ContextCall
  | expr : ExprTree → ContextCall
  | statement : StatementTree → ContextCall

def ContextCall.script : ContextCall → Script
  | .text sql => [.text sql]
  | .name n => [.qualified n]
  | .names ns => Script.names ns
  | .fragment sql values => [.fragment sql values]
  | .argument v => Script.argument v
  | .subquery cs => Script.nested (Select.script (selectOf cs))
  | .condition t => t.condition.script
  | .expr e => e.expr.script
  | .statement t => t.statement.script

def UpdateCall.unchecked : UpdateCall → List String
  | .filter t => t.unchecked
  | _ => []

def DeleteCall.unchecked : DeleteCall → List String
  | .filter t => t.unchecked
  | .dialect _ => []

/-- The texts that the conditions of a statement take unchecked. -/
def StatementTree.unchecked : StatementTree → List String
  | .select cs => uncheckedOf cs
  | .insert _ _ => []
  | .update _ cs => cs.flatMap UpdateCall.unchecked
  | .delete _ cs => cs.flatMap DeleteCall.unchecked
  | .upsert _ _ _ => []
  | .returning inner _ _ => inner.unchecked

/-- Whatever else is wrong with a call, it brings no mark without its value. -/
def ContextCall.Proper : ContextCall → Prop
  | .fragment sql values => markCount sql = values.length
  | .subquery cs => Unmarked (uncheckedOf cs)
  | .condition t => Unmarked t.unchecked
  | .expr e => Unmarked e.unchecked
  | .statement t => Unmarked t.unchecked
  | _ => True

instance : (c : ContextCall) → Decidable c.Proper
  | .fragment sql values => inferInstanceAs (Decidable (markCount sql = values.length))
  | .subquery cs => inferInstanceAs (Decidable (Unmarked (uncheckedOf cs)))
  | .condition t => inferInstanceAs (Decidable (Unmarked t.unchecked))
  | .expr e => inferInstanceAs (Decidable (Unmarked e.unchecked))
  | .statement t => inferInstanceAs (Decidable (Unmarked t.unchecked))
  | .text _ => isTrue trivial
  | .name _ => isTrue trivial
  | .names _ => isTrue trivial
  | .argument _ => isTrue trivial

namespace Context

/-- A call that fails leaves what it has written, and the context is used again. -/
def after (ctx : Context) (calls : List ContextCall) : Context :=
  calls.foldl (fun ctx c => (ctx.run c.script).1) ctx

/-- All that the calls have written, failed ones included. -/
def emitted (ctx : Context) : List ContextCall → List Glyph
  | [] => []
  | c :: calls => (ctx.written c.script).glyphs ++ (ctx.run c.script).1.emitted calls

/-- There is an argument for each marker, and the next number comes right after them. -/
structure Aligned (ctx : Context) (gs : List Glyph) : Prop where
  markers : gs.count .marker = ctx.arguments.length
  next : ctx.next = ctx.arguments.length + 1
  sql : ctx.sql = String.ofList (ctx.dialect.spell 1 gs)

end Context

/-! Statements. -/

theorem unmarked_flatMap {α : Type} {f : α → List String} {xs : List α}
    (clear : Unmarked (xs.flatMap f)) : ∀ x ∈ xs, Unmarked (f x) := by
  intro x inside sql member
  exact clear sql (List.mem_flatMap.mpr ⟨x, inside, member⟩)

theorem entered_balanced {t : CondTree} (clear : Unmarked t.unchecked) {p : Predicate}
    (sound : t.condition = .ok p) : p.script.Each Piece.Balanced :=
  condition_balanced (balanced_compositional.cond t) clear sound

theorem update_balanced {table : ExprTree} {cs : List UpdateCall}
    (clear : Unmarked (cs.flatMap UpdateCall.unchecked)) :
    (Update.script (updateOf table cs)).Each Piece.Balanced := by
  apply undemanding_balanced.each_update
  intro c state
  refine updateOf_invariant (I := fun c => ∀ p ∈ c.filters, p.script.Each Piece.Balanced)
    (fun u member c held c' effect => ?_) (fun _ _ => List.forall_mem_nil _) state
  have own := unmarked_flatMap clear u member
  cases u with
  | filter t =>
    obtain ⟨p, sound, rfl⟩ := effect
    exact forall_mem_concat held (entered_balanced own sound)
  | _ =>
    cases effect
    exact held

theorem delete_balanced {table : ExprTree} {cs : List DeleteCall}
    (clear : Unmarked (cs.flatMap DeleteCall.unchecked)) :
    (Delete.script (deleteOf table cs)).Each Piece.Balanced := by
  apply undemanding_balanced.each_delete
  intro r state
  refine deleteOf_invariant (I := fun r => ∀ p ∈ r.filters, p.script.Each Piece.Balanced)
    (fun d member r held r' effect => ?_) (fun _ _ => List.forall_mem_nil _) state
  have own := unmarked_flatMap clear d member
  cases d with
  | filter t =>
    obtain ⟨p, sound, rfl⟩ := effect
    exact forall_mem_concat held (entered_balanced own sound)
  | dialect d =>
    cases effect
    exact held

theorem conflict_balanced (c : Conflict) : c.script.Each Piece.Balanced := by
  rw [undemanding_balanced.each_iff_payload, payload_conflict]
  split
  · exact undemanding_balanced.each_failure .emptyConflictTarget
  · refine List.forall_mem_cons.mpr ⟨trivial, ?_⟩
    cases c.action with
    | keep => exact List.forall_mem_nil _
    | overwrite names =>
      intro p member
      obtain ⟨name, -, inside⟩ := List.mem_flatMap.mp member
      have named : p = .column name := by simpa using inside
      rw [named]
      trivial

theorem statement_balanced (t : StatementTree) (clear : Unmarked t.unchecked) :
    t.statement.script.Each Piece.Balanced := by
  induction t with
  | select cs => exact select_balanced (balanced_compositional.query cs) clear
  | insert table cs => exact undemanding_balanced.each_insert _
  | update table cs => exact update_balanced clear
  | delete table cs => exact delete_balanced clear
  | upsert table cs conflicts =>
    rw [StatementTree.statement, Statement.script, Upsert.script]
    refine each_append.mpr ⟨undemanding_balanced.each_insert _, ?_⟩
    split
    · exact conflict_balanced _
    · exact undemanding_balanced.each_failure _
  | returning inner columns dialects ih =>
    have suffix : (Statement.returningScript columns).Each Piece.Balanced := by
      rw [undemanding_balanced.each_iff_payload, payload_returning]
      exact List.forall_mem_singleton.mpr trivial
    rw [StatementTree.statement, script_withDialects]
    exact each_append.mpr ⟨ih clear, suffix⟩

theorem proper_balanced {c : ContextCall} (proper : c.Proper) : c.script.Each Piece.Balanced := by
  cases c with
  | text sql => exact List.forall_mem_singleton.mpr trivial
  | name n => exact List.forall_mem_singleton.mpr trivial
  | names ns => exact undemanding_balanced.each_of_unloaded (payload_names ns)
  | fragment sql values => exact List.forall_mem_singleton.mpr proper
  | argument v => exact undemanding_balanced.each_argument v
  | subquery cs =>
    exact undemanding_balanced.each_nested
      (select_balanced (balanced_compositional.query cs) proper)
  | condition t =>
    rw [ContextCall.script]
    cases sound : t.condition with
    | error e => exact undemanding_balanced.each_failure e
    | ok p => exact entered_balanced proper sound
  | expr e => exact (balanced_compositional.expr e).1 proper
  | statement t => exact statement_balanced t proper

/-! Runs of calls. -/

namespace Context

variable {ctx : Context} {lead : String} {gs : List Glyph}

theorem aligned_fresh (d : Dialect) : Aligned { dialect := d } [] := ⟨rfl, rfl, rfl⟩

/-- Text that comes next is spelled from the number after the arguments on. -/
theorem Aligned.run_sql (h : ctx.Aligned gs) (s : Script) :
    (ctx.run s).1.sql = ctx.sql ++ String.ofList
      (ctx.dialect.spell (ctx.arguments.length + 1) (ctx.written s).glyphs) := by
  rw [run_written, extended, h.next]

theorem Aligned.run (h : ctx.Aligned gs) (numbered : ctx.dialect.placeholder = .numbered lead)
    {s : Script} (balanced : s.Each Piece.Balanced) :
    (ctx.run s).1.Aligned (gs ++ (ctx.written s).glyphs) := by
  have written : (ctx.written s).Each Piece.Balanced :=
    fun p member => balanced p ((ctx.written_prefix s).subset member)
  have arguments : (ctx.run s).1.arguments = ctx.arguments ++ (ctx.written s).arguments := by
    rw [run_written]
    rfl
  constructor
  · rw [List.count_append, h.markers, markers_balanced written, arguments, List.length_append]
  · have shifted := shifted_run numbered balanced
    have start := h.next
    unfold Shifted at shifted
    omega
  · rw [h.run_sql, h.sql, run_dialect, spell_append, h.markers, Nat.add_comm 1,
      String.ofList_append]

theorem Aligned.after (h : ctx.Aligned gs) (numbered : ctx.dialect.placeholder = .numbered lead)
    {calls : List ContextCall} (proper : ∀ c ∈ calls, c.Proper) :
    (ctx.after calls).Aligned (gs ++ ctx.emitted calls) := by
  induction calls generalizing ctx gs with
  | nil =>
    rw [emitted, List.append_nil]
    exact h
  | cons c calls ih =>
    obtain ⟨first, later⟩ := List.forall_mem_cons.mp proper
    have same : (ctx.run c.script).1.dialect.placeholder = .numbered lead := by
      rw [run_dialect, numbered]
    rw [emitted, ← List.append_assoc]
    exact ih (h.run numbered (proper_balanced first)) same later

theorem after_dialect (ctx : Context) (calls : List ContextCall) :
    (ctx.after calls).dialect = ctx.dialect := by
  induction calls generalizing ctx with
  | nil => rfl
  | cons c calls ih => exact (ih _).trans (run_dialect ctx c.script)

end Context

/-- After any calls, failed ones among them, the markers written are as many as the arguments, the
    next one is spelled with the number that follows, and no call takes anything back. -/
theorem context_stays_aligned {d : Dialect} {lead : String}
    (numbered : d.placeholder = .numbered lead) (calls : List ContextCall)
    (proper : ∀ c ∈ calls, c.Proper) :
    let ctx := Context.after { dialect := d } calls
    ctx.Aligned (Context.emitted { dialect := d } calls) ∧
      (∀ v, (ctx.run (Script.argument v)).1.sql =
        ctx.sql ++ d.placeholderText (ctx.arguments.length + 1)) ∧
      ∀ c : ContextCall, ctx.Begins (ctx.run c.script).1 ∧
        (ctx.run c.script).1.sql = ctx.sql ++ String.ofList
          (d.spell (ctx.arguments.length + 1) (ctx.written c.script).glyphs) := by
  intro ctx
  have aligned : ctx.Aligned (Context.emitted { dialect := d } calls) :=
    (Context.aligned_fresh d).after numbered proper
  have same : ctx.dialect = d := Context.after_dialect { dialect := d } calls
  refine ⟨aligned, fun v => ?_, fun c => ⟨ctx.begins_run c.script, ?_⟩⟩
  · have one : (ctx.written (Script.argument v)).glyphs = [.marker] := rfl
    rw [aligned.run_sql, one, same]
    simp [Dialect.spell, Dialect.placeholderText]
  · rw [aligned.run_sql, same]

/-- A query nested in HAVING is wrong, and the dialect has neither clause. Each of the three has
    bound its arguments by then. -/
def halfWritten : List ContextCall := [
  .fragment "a = ?" [.int 1],
  .subquery [.columns [.term (.name "x")], .filter (.compare "k" .eq (.int 2)),
    .groupFilter (.memberOf "g" .plain [.groupBy [.subquery []]])],
  .statement (.upsert (.term (.name "t")) [.edit (.columns ["c"]), .edit (.values [.int 3])]
    [.edit (.target ["c"])]),
  .text " ? ",
  .statement (.returning (.delete (.term (.name "t")) [.filter (.compare "d" .eq (.int 4))]) [] [])]

def colons : Dialect := { name := "colons", placeholder := .numbered ":" }

theorem numbers_go_on_after_failures :
    ((Context.after { dialect := colons } halfWritten).run (Script.argument (.int 5))).1.sql =
      "a = :1(SELECT \"x\" WHERE k = :2 HAVING g IN (INSERT INTO \"t\" (\"c\") VALUES (:3) ? " ++
        "DELETE FROM \"t\" WHERE d = :4:5" := by
  have numbered : colons.placeholder = .numbered ":" := rfl
  refine ((context_stays_aligned numbered halfWritten (by decide)).2.1 (.int 5)).trans ?_
  decide

end SqlAssembly
