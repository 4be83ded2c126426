import SqlAssembly.Proofs.DocumentOrder

/-! Clauses behind a statement: what is to become of rows that are already there, and what is to be
   returned. They leave the statement in front as it is, and its errors come before theirs. -/
namespace SqlAssembly

namespace Dialect

def nameList (d : Dialect) (names : List String) : String :=
  ", ".intercalate (names.map d.quoteQualified)

def actionText (d : Dialect) : ConflictAction → String
  | .keep => " DO NOTHING"
  | .overwrite names =>
    " DO UPDATE SET " ++
      ", ".intercalate (names.map fun n => d.quoteName n ++ " = excluded." ++ d.quoteName n)

def conflictText (d : Dialect) (c : Conflict) : String :=
  " ON CONFLICT (" ++ d.nameList c.target ++ ")" ++ d.actionText c.action

def returningText (d : Dialect) (columns : List String) : String :=
  " RETURNING " ++ if columns.isEmpty then "*" else d.nameList columns

end Dialect

/-! What the clauses write. -/

/-- In this dialect the script comes to this text and to nothing else. -/
def Script.Writes (s : Script) (d : Dialect) (text : String) : Prop :=
  ∀ ctx : Context, ctx.dialect = d → ctx.run s = (ctx.append text, none)

variable {d : Dialect}

theorem writes_text (sql : String) : Script.Writes [.text sql] d sql := fun _ _ => rfl

theorem writes_qualified (name : String) :
    Script.Writes [.qualified name] d (d.quoteQualified name) := by
  rintro ctx rfl
  rfl

theorem writes_column (name : String) : Script.Writes [.column name] d (d.quoteName name) := by
  rintro ctx rfl
  rfl

theorem writes_append {a b : Script} {x y : String} (left : a.Writes d x) (right : b.Writes d y) :
    Script.Writes (a ++ b) d (x ++ y) := by
  intro ctx own
  rw [Context.run_append, left ctx own]
  change (ctx.append x).run b = _
  rw [right (ctx.append x) own, Context.append, Context.append, Context.append, String.append_assoc]

theorem writes_separated (separator : String) {α : Type} {f : α → Script} {g : α → String}
    (each : ∀ x, (f x).Writes d (g x)) (xs : List α) :
    Script.Writes (Script.separated separator (xs.map f)) d (separator.intercalate (xs.map g)) := by
  induction xs with
  | nil =>
    intro ctx _
    simp [Script.separated, Context.run, Context.append]
  | cons x xs ih =>
    cases xs with
    | nil => simpa [Script.separated] using each x
    | cons y xs =>
      rw [List.map_cons, List.map_cons, List.map_cons, List.map_cons, String.intercalate_cons_cons,
        String.append_assoc]
      exact writes_append (each x) (writes_append (writes_text separator) ih)

theorem writes_names (names : List String) : (Script.names names).Writes d (d.nameList names) :=
  writes_separated ", " writes_qualified names

theorem writes_action (action : ConflictAction) :
    (Conflict.actionScript action).Writes d (d.actionText action) := by
  cases action with
  | keep => exact writes_text " DO NOTHING"
  | overwrite names =>
    have assigned (name : String) : (Conflict.overwriteScript name).Writes d
        (d.quoteName name ++ " = excluded." ++ d.quoteName name) :=
      writes_append (writes_append (writes_column name) (writes_text " = excluded."))
        (writes_column name)
    exact writes_append (writes_text " DO UPDATE SET ") (writes_separated ", " assigned names)

theorem writes_conflict (c : Conflict) :
    Script.Writes (.text " ON CONFLICT (" :: Script.names c.target ++
      .text ")" :: Conflict.actionScript c.action) d (d.conflictText c) := by
  have closed := writes_append (writes_text (d := d) ")") (writes_action c.action)
  have named := writes_append (writes_text (d := d) " ON CONFLICT (") (writes_names c.target)
  have whole := writes_append named closed
  rw [← String.append_assoc] at whole
  exact whole

theorem writes_columns (columns : List String) :
    Script.Writes (.text " RETURNING " ::
      if columns.isEmpty then [.text "*"] else Script.names columns) d
      (d.returningText columns) := by
  cases columns with
  | nil => exact writes_append (writes_text " RETURNING ") (writes_text "*")
  | cons n ns => exact writes_append (writes_text " RETURNING ") (writes_names (n :: ns))

/-! How a build goes on behind the statement. -/

/-- A clause that needs a feature is added to the text, or the feature is missed. The arguments stay
    as they are. -/
theorem build_clause {clause : Script} {text : String} (written : clause.Writes d text) (s : Script)
    (f : Feature) :
    Script.build (s ++ .need f :: clause) d =
      (s.build d).bind fun b =>
        if d.supports f then .ok ⟨b.sql ++ text, b.arguments⟩
        else .error (.unsupported d.name f) := by
  have own := run_dialect { dialect := d } s
  rw [Script.build, Script.build, Context.run_append]
  rcases reached : Context.run { dialect := d } s with ⟨ctx, none | e⟩
  · rw [reached] at own
    have kept : ctx.dialect = d := own
    by_cases known : d.supports f
    · simp [Context.run, Context.write, Context.outcome, Except.bind, kept, known,
        written ctx kept, Context.append]
    · simp [Context.run, Context.write, Context.outcome, Except.bind, kept, known]
  · rfl

theorem build_failed (s : Script) (e : BuildError) :
    Script.build (s ++ [.fail e]) d = (s.build d).bind fun _ => .error e := by
  rw [Script.build, Script.build, Context.run_append]
  rcases Context.run { dialect := d } s with ⟨ctx, none | cause⟩ <;> rfl

/-! Wrappers. -/

/-- Each wrapper has its columns and the dialect chosen for it, the innermost wrapper first. -/
def Statement.wrapped (s : Statement) (ws : List (List String × Option Dialect)) : Statement :=
  ws.foldl (fun s w => .returning s w.1 w.2) s

def Dialect.returningTexts (d : Dialect) (ws : List (List String × Option Dialect)) : String :=
  String.join (ws.map fun w => d.returningText w.1)

/-- One wrapper is as much as many. -/
def returningRefusal? (d : Dialect) (ws : List (List String × Option Dialect)) :
    Option BuildError :=
  if ws.isEmpty || d.hasReturning then none else some (.unsupported d.name .returning)

theorem build_returning (s : Statement) (columns : List String) (own : Option Dialect) :
    (Statement.returning s columns own).buildWith d =
      (s.buildWith d).bind fun b =>
        if d.hasReturning then .ok ⟨b.sql ++ d.returningText columns, b.arguments⟩
        else .error (.unsupported d.name .returning) :=
  build_clause (writes_columns columns) s.script .returning

theorem build_wrapped (s : Statement) (ws : List (List String × Option Dialect)) :
    (s.wrapped ws).buildWith d =
      (s.buildWith d).bind fun b =>
        match returningRefusal? d ws with
        | some e => .error e
        | none => .ok ⟨b.sql ++ d.returningTexts ws, b.arguments⟩ := by
  induction ws generalizing s with
  | nil =>
    change s.buildWith d = _
    cases s.buildWith d with
    | error e => rfl
    | ok b => simp [Except.bind, returningRefusal?, Dialect.returningTexts]
  | cons w ws ih =>
    change ((Statement.returning s w.1 w.2).wrapped ws).buildWith d = _
    rw [ih, build_returning]
    cases s.buildWith d with
    | error e => rfl
    | ok b =>
      cases known : d.hasReturning with
      | false => simp [Except.bind, returningRefusal?, known]
      | true =>
        simp [Except.bind, returningRefusal?, known, Dialect.returningTexts, String.append_assoc]

/-! Conflict calls. -/

def conflictFault? : Builder.Call Conflict.Edit → Option BuildError
  | .edit (.target []) => some .emptyConflictTarget
  | .edit (.overwrite []) => some .missingAssignments
  | _ => none

def givenTarget? : Builder.Call Conflict.Edit → Option (List String)
  | .edit (.target names) => some names
  | _ => none

def givenAction? : Builder.Call Conflict.Edit → Option ConflictAction
  | .edit .keep => some .keep
  | .edit (.overwrite names) => some (.overwrite names)
  | _ => none

/-- The conflict as the last calls leave it. -/
def Conflict.updated (c : Conflict) (cs : List (Builder.Call Conflict.Edit)) : Conflict where
  target := (cs.reverse.findSome? givenTarget?).getD c.target
  action := (cs.reverse.findSome? givenAction?).getD c.action

theorem updated_cons (c : Conflict) (call : Builder.Call Conflict.Edit)
    (cs : List (Builder.Call Conflict.Edit)) :
    c.updated (call :: cs) = (c.updated [call]).updated cs := by
  simp only [Conflict.updated, List.reverse_cons, List.findSome?_append, List.reverse_nil,
    List.nil_append, Option.getD_or]

/-- A conflict call fails by its own arguments or sets what it names. -/
theorem upsertCall_conflict (u : Upsert) (call : Builder.Call Conflict.Edit) :
    (upsertCall u call).conflict =
      u.conflict.bind fun c =>
        match conflictFault? call with
        | some e => .error e
        | none => .ok (c.updated [call]) := by
  cases call with
  | dialect d => cases known : u.conflict <;> exact known
  | edit e =>
    cases known : u.conflict with
    | error cause => simp [upsertCall, Upsert.edit, known, Except.bind]
    | ok c =>
      cases e with
      | keep => simp [upsertCall, Upsert.edit, known]; rfl
      | target names => cases names <;> simp [upsertCall, Upsert.edit, known] <;> rfl
      | overwrite names => cases names <;> simp [upsertCall, Upsert.edit, known] <;> rfl

theorem upsertCalls_conflict (u : Upsert) (cs : List (Builder.Call Conflict.Edit)) :
    (cs.foldl upsertCall u).conflict =
      u.conflict.bind fun c =>
        match cs.findSome? conflictFault? with
        | some e => .error e
        | none => .ok (c.updated cs) := by
  induction cs generalizing u with
  | nil => cases known : u.conflict <;> exact known
  | cons call cs ih =>
    rw [List.foldl_cons, ih, upsertCall_conflict, List.findSome?_cons]
    cases u.conflict with
    | error e => rfl
    | ok c =>
      cases conflictFault? call with
      | some e => rfl
      | none =>
        simp only [Except.bind, updated_cons c call cs]

/-- A target that was given without a fault has a column. -/
theorem updated_target {cs : List (Builder.Call Conflict.Edit)}
    (faultless : cs.findSome? conflictFault? = none) :
    (Conflict.updated {} cs).target.isEmpty = (cs.reverse.findSome? givenTarget?).isNone := by
  rw [Conflict.updated]
  cases given : cs.reverse.findSome? givenTarget? with
  | none => rfl
  | some names =>
    obtain ⟨call, member, named⟩ := List.exists_of_findSome?_eq_some given
    have sound := List.findSome?_eq_none_iff.mp faultless call (List.mem_reverse.mp member)
    cases names with
    | cons n ns => rfl
    | nil =>
      have empty : call = .edit (.target []) := by
        cases call with
        | dialect d => cases named
        | edit e =>
          cases e with
          | target names => cases named; rfl
          | keep => cases named
          | overwrite names => cases named
      rw [empty] at sound
      cases sound

/-- What speaks against the conflict clause: a call that was wrong, a target that no call gave, or
    the dialect. -/
def conflictRefusal? (d : Dialect) (cs : List (Builder.Call Conflict.Edit)) : Option BuildError :=
  (cs.findSome? conflictFault?).or
    (if (cs.reverse.findSome? givenTarget?).isNone then some .emptyConflictTarget
    else if d.hasUpsert then none
    else some (.unsupported d.name .onConflict))

theorem build_upsert (s : Insert) (cs : List (Builder.Call Conflict.Edit)) :
    (Statement.upsert (cs.foldl upsertCall { insert := s })).buildWith d =
      ((Statement.insert s).buildWith d).bind fun b =>
        match conflictRefusal? d cs with
        | some e => .error e
        | none => .ok ⟨b.sql ++ d.conflictText (Conflict.updated {} cs), b.arguments⟩ := by
  have conflict : (cs.foldl upsertCall { insert := s }).conflict =
      match cs.findSome? conflictFault? with
      | some e => .error e
      | none => .ok (Conflict.updated {} cs) := upsertCalls_conflict { insert := s } cs
  rw [Statement.buildWith, Statement.script, Upsert.script, upserted_insert, conflict,
    conflictRefusal?]
  cases faulty : cs.findSome? conflictFault? with
  | some e => exact build_failed s.script e
  | none =>
    simp only [Conflict.script, updated_target faulty, Option.none_or]
    cases (cs.reverse.findSome? givenTarget?).isNone with
    | true => exact build_failed s.script .emptyConflictTarget
    | false =>
      refine (build_clause (writes_conflict _) s.script .onConflict).trans ?_
      cases known : d.hasUpsert <;> simp only [Dialect.supports, known] <;> rfl

/-- An upsert fails like its insert, or else with what speaks against its conflict clause, or else
    for want of RETURNING if it is wrapped. Built, it is the insert with the last target and the
    last action behind it, and then the columns of each wrapper from the innermost on; the arguments
    are those of the insert. Wrappers do the same to any other statement. -/
theorem clauses_stand_behind_the_statement :
    (∀ (s : Insert) (cs : List (Builder.Call Conflict.Edit))
        (ws : List (List String × Option Dialect)) (d : Dialect),
      (Statement.wrapped (.upsert (cs.foldl upsertCall { insert := s })) ws).buildWith d =
        ((Statement.insert s).buildWith d).bind fun b =>
          match (conflictRefusal? d cs).or (returningRefusal? d ws) with
          | some e => .error e
          | none =>
            .ok ⟨b.sql ++ d.conflictText (Conflict.updated {} cs) ++ d.returningTexts ws,
              b.arguments⟩) ∧
      ∀ (s : Statement) (ws : List (List String × Option Dialect)) (d : Dialect),
        (s.wrapped ws).buildWith d =
          (s.buildWith d).bind fun b =>
            match returningRefusal? d ws with
            | some e => .error e
            | none => .ok ⟨b.sql ++ d.returningTexts ws, b.arguments⟩ := by
  refine ⟨fun s cs ws d => ?_, fun s ws d => build_wrapped s ws⟩
  rw [build_wrapped, build_upsert]
  cases (Statement.insert s).buildWith d with
  | error e => rfl
  | ok b => cases conflictRefusal? d cs <;> rfl

end SqlAssembly
