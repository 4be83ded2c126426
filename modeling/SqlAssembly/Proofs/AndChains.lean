import SqlAssembly.Proofs.Parenthesization

/-! Conditions that are given to a statement one by one, and the same conditions joined by AND. The
   statement writes the same for both, however the joins are grouped, and writes all of them. -/
namespace SqlAssembly

/-- One way of joining conditions in a row. -/
inductive Conjunction where
  | single : Condition → Conjunction
  | conj : Conjunction → Conjunction → Conjunction

namespace Conjunction

def row : Conjunction → List Condition
  | .single c => [c]
  | .conj a b => a.row ++ b.row

def condition : Conjunction → Condition
  | .single c => c
  | .conj a b => a.condition.conj b.condition

/-- Each condition is joined to all those before it. -/
def chained (c : Condition) (cs : List Condition) : Conjunction :=
  cs.foldl (fun a c => .conj a (.single c)) (.single c)

end Conjunction

def Condition.chain (c : Condition) (cs : List Condition) : Condition := cs.foldl Condition.conj c

namespace Predicate

/-- The operands with AND between them. -/
def joinedParts : List Predicate → List Part
  | [] => []
  | [p] => p.guarded
  | p :: q :: ps => Part.glueAll [p.guarded, Part.plain " AND ", joinedParts (q :: ps)]

/-- A single predicate stays as it is, also when it is a disjunction. -/
def joined : List Predicate → Predicate
  | [p] => p
  | ps => ⟨joinedParts ps, false⟩

theorem joinedParts_cons (p : Predicate) {ps : List Predicate} (more : ps ≠ []) :
    joinedParts (p :: ps) = Part.glueAll [p.guarded, Part.plain " AND ", joinedParts ps] := by
  cases ps with
  | nil => exact absurd rfl more
  | cons q ps => rfl

theorem joinedParts_append {ps qs : List Predicate} (left : ps ≠ []) (right : qs ≠ []) :
    joinedParts (ps ++ qs) =
      Part.glueAll [joinedParts ps, Part.plain " AND ", joinedParts qs] := by
  induction ps with
  | nil => exact absurd rfl left
  | cons p ps ih =>
    rw [List.cons_append, joinedParts_cons p (List.append_ne_nil_of_right_ne_nil ps right)]
    by_cases last : ps = []
    · rw [last]
      rfl
    · rw [ih last, joinedParts_cons p last]
      simp only [Part.glueAll, List.foldr_cons, List.foldr_nil, Part.glue_nil, Part.glue_assoc]

theorem joined_guarded {ps : List Predicate} (some_predicate : ps ≠ []) :
    (joined ps).guarded = joinedParts ps := by
  match ps with
  | [] => exact absurd rfl some_predicate
  | [p] => rfl
  | p :: q :: ps => rfl

theorem conj_joined {ps qs : List Predicate} (left : ps ≠ []) (right : qs ≠ []) :
    (joined ps).conj (joined qs) = joined (ps ++ qs) := by
  have several : joined (ps ++ qs) = ⟨joinedParts (ps ++ qs), false⟩ := by
    match ps, qs with
    | [], _ => exact absurd rfl left
    | _, [] => exact absurd rfl right
    | [p], q :: qs => rfl
    | p :: q :: ps, r :: qs => rfl
  rw [several, Predicate.conj, joined_guarded left, joined_guarded right,
    joinedParts_append left right]

end Predicate

theorem conjunction_row_ne_nil (a : Conjunction) : a.row ≠ [] := by
  induction a with
  | single c => exact List.cons_ne_nil c []
  | conj a b left _ => exact List.append_ne_nil_of_left_ne_nil left b.row

theorem mapM_ne_nil {cs : List Condition} {ps : List Predicate} (some_condition : cs ≠ [])
    (sound : cs.mapM id = .ok ps) : ps ≠ [] := by
  cases cs with
  | nil => exact absurd rfl some_condition
  | cons c cs =>
    rw [List.mapM_cons] at sound
    obtain ⟨p, -, rest⟩ := bind_eq_ok sound
    obtain ⟨qs, -, rest⟩ := bind_eq_ok rest
    cases rest
    exact List.cons_ne_nil p qs

/-- The grouping is gone: the predicates of the row are joined, unless one of them is missing. -/
theorem conjunction_condition (a : Conjunction) :
    a.condition = (a.row.mapM id).map Predicate.joined := by
  induction a with
  | single c =>
    rw [Conjunction.condition, Conjunction.row, List.mapM_cons, List.mapM_nil]
    cases c <;> rfl
  | conj a b left right =>
    rw [Conjunction.condition, Conjunction.row, left, right, List.mapM_append]
    cases first : a.row.mapM id with
    | error e => rfl
    | ok ps =>
      cases second : b.row.mapM id with
      | error e => rfl
      | ok qs =>
        exact congrArg Except.ok (Predicate.conj_joined
          (mapM_ne_nil (conjunction_row_ne_nil a) first)
          (mapM_ne_nil (conjunction_row_ne_nil b) second))

theorem chained_spec (a : Conjunction) (cs : List Condition) :
    (cs.foldl (fun a c => Conjunction.conj a (.single c)) a).row = a.row ++ cs ∧
      (cs.foldl (fun a c => Conjunction.conj a (.single c)) a).condition =
        a.condition.chain cs := by
  induction cs generalizing a with
  | nil => exact ⟨(List.append_nil a.row).symm, rfl⟩
  | cons c cs ih =>
    obtain ⟨row, condition⟩ := ih (.conj a (.single c))
    refine ⟨?_, condition⟩
    rw [List.foldl_cons, row, Conjunction.row, List.append_assoc]
    rfl

theorem regrouped {a b : Conjunction} (row : a.row = b.row) : a.condition = b.condition := by
  rw [conjunction_condition, conjunction_condition, row]

theorem mapM_ok (ps : List Predicate) :
    (ps.map Except.ok).mapM id = (.ok ps : Except BuildError _) := by
  induction ps with
  | nil => rfl
  | cons p ps ih =>
    rw [List.map_cons, List.mapM_cons, ih]
    rfl

theorem chain_eq_joined {c : Condition} {cs : List Condition} {ps : List Predicate}
    (made : c :: cs = ps.map .ok) : c.chain cs = .ok (Predicate.joined ps) := by
  obtain ⟨row, condition⟩ := chained_spec (.single c) cs
  have grouped := conjunction_condition (Conjunction.chained c cs)
  rw [Conjunction.chained, condition, row] at grouped
  have whole : (Conjunction.single c).row ++ cs = ps.map .ok := made
  rw [whole, mapM_ok] at grouped
  exact grouped

/-! What the joined conditions write. -/

theorem joinedParts_writes {M : Type} {view : Script → M} (h : Seamless view)
    (ps : List Predicate) :
    view ((Predicate.joinedParts ps).flatMap Part.script) =
      view (Script.separated " AND " (ps.map fun p => p.operand.guarded)) := by
  induction ps with
  | nil => rfl
  | cons p ps ih =>
    match ps, ih with
    | [], _ => exact h.guarded p
    | q :: ps, ih =>
      rw [Predicate.joinedParts, h.glueAll]
      simp only [List.flatMap_cons, List.flatMap_nil, List.append_nil]
      exact h.congr (h.guarded p) (h.congr (h.plain (by decide)) ih)

theorem clause_joined {M : Type} {view : Script → M} (h : Seamless view) (keyword : String)
    {ps : List Predicate} (some_predicate : ps ≠ []) :
    view (filterClause keyword (ps.map Predicate.operand)) =
      view (.text (" " ++ keyword ++ " ") :: (Predicate.joined ps).script) := by
  match ps with
  | [] => exact absurd rfl some_predicate
  | [p] => rfl
  | p :: q :: ps =>
    have joined := (joinedParts_writes h (p :: q :: ps)).symm
    have guarded := List.map_map (l := p :: q :: ps) (g := Operand.guarded) (f := Predicate.operand)
    rw [Function.comp_def] at guarded
    rw [← guarded] at joined
    rw [Predicate.script_eq]
    exact h.prepend [.text (" " ++ keyword ++ " ")] joined

/-- The keyword, and behind it the conditions as one chain. -/
def chainClause (keyword : String) (t : CondTree) (ts : List CondTree) : Script :=
  .text (" " ++ keyword ++ " ") :: (t.condition.chain (ts.map CondTree.condition)).script

/-- In every context the clause writes the chain, and so does the statement in its place. -/
structure Chained (keyword : String) (clause whole : Script) (t : CondTree) (ts : List CondTree) :
    Prop where
  alone : ∀ ctx : Context, ctx.run clause = ctx.run (chainClause keyword t ts)
  within : ∃ before after, whole = before ++ clause ++ after ∧
    ∀ ctx : Context, ctx.run whole = ctx.run (before ++ chainClause keyword t ts ++ after)

theorem chained_of_made {keyword : String} {whole : Script} {t : CondTree} {ts : List CondTree}
    {ps : List Predicate} (made : (t :: ts).map CondTree.condition = ps.map .ok)
    (inside : filterClause keyword (ps.map Predicate.operand) <:+: whole) :
    Chained keyword (filterClause keyword (ps.map Predicate.operand)) whole t ts := by
  have some_predicate : ps ≠ [] := by
    rintro rfl
    cases made
  have chain : chainClause keyword t ts =
      .text (" " ++ keyword ++ " ") :: (Predicate.joined ps).script := by
    rw [chainClause, chain_eq_joined made]
    rfl
  have same := clause_joined seamless_run keyword some_predicate
  rw [← chain] at same
  obtain ⟨before, after, whole⟩ := inside
  refine ⟨congrFun same, before, after, whole.symm, ?_⟩
  rw [← whole]
  exact congrFun (seamless_run.extend after (seamless_run.prepend before same))

/-! No condition is left out. -/

/-- Behind a WHERE the condition stands in full, and its arguments are among those bound. -/
def Built.Filtered (b : Built) (d : Dialect) (p : Predicate) : Prop :=
  ∃ ctx ctx' : Context, ctx.dialect = d ∧ ctx.run p.script = (ctx', none) ∧
    (∃ head between, ctx.sql = head ++ " WHERE " ++ between) ∧
    ctx'.sql.toList <+: b.sql.toList ∧ ctx'.arguments <+: b.arguments

theorem separated_holds (separator : String) {ss : List Script} {s : Script} (member : s ∈ ss) :
    ∃ before after, Script.separated separator ss = before ++ (s ++ after) := by
  induction ss with
  | nil => cases member
  | cons r ss ih =>
    match ss, ih, member with
    | [], _, member =>
      cases List.mem_singleton.mp member
      exact ⟨[], [], (List.append_nil s).symm⟩
    | t :: ss, ih, member =>
      rcases List.mem_cons.mp member with first | later
      · exact ⟨[], .text separator :: Script.separated separator (t :: ss), by rw [first]; rfl⟩
      · obtain ⟨before, after, rest⟩ := ih later
        refine ⟨r ++ .text separator :: before, after, ?_⟩
        rw [Script.separated, rest, List.append_assoc]
        rfl

theorem guarded_holds (p : Predicate) :
    ∃ before after, p.operand.guarded = before ++ (p.script ++ after) := by
  rcases p with ⟨parts, disjunction⟩
  cases disjunction with
  | false => exact ⟨[], [], (List.append_nil _).symm⟩
  | true => exact ⟨[.text "("], [.text ")"], rfl⟩

theorem clause_holds (keyword : String) {ps : List Predicate} {p : Predicate} (member : p ∈ ps) :
    ∃ before after, filterClause keyword (ps.map Predicate.operand) =
      .text (" " ++ keyword ++ " ") :: (before ++ (p.script ++ after)) := by
  match ps, member with
  | [q], member =>
    cases List.mem_singleton.mp member
    exact ⟨[], [], congrArg _ (List.append_nil p.script).symm⟩
  | q :: r :: ps, member =>
    have inside : p.operand.guarded ∈ ((q :: r :: ps).map Predicate.operand).map Operand.guarded :=
      List.mem_map_of_mem (List.mem_map_of_mem member)
    obtain ⟨before, after, operand⟩ := separated_holds " AND " inside
    obtain ⟨opening, closing, whole⟩ := guarded_holds p
    refine ⟨before ++ opening, closing ++ after, ?_⟩
    rw [whole] at operand
    simp only [List.append_assoc] at operand ⊢
    exact congrArg (Piece.text (" " ++ keyword ++ " ") :: ·) operand

theorem filtered_of_built {head : Script} {ps : List Predicate} {p : Predicate} {d : Dialect}
    {b : Built} (member : p ∈ ps) (built : Script.build (head ++ whereClause ps) d = .ok b) :
    b.Filtered d p := by
  obtain ⟨before, after, clause⟩ := clause_holds "WHERE" member
  obtain ⟨last, ran, rfl⟩ := build_eq_ok built
  rw [whereClause, operands_eq_map, clause] at ran
  -- The run is followed up to the condition, through it and on to the end.
  obtain ⟨started, begun, ran⟩ := run_append_eq_none ran
  have keyword : started.run (.text " WHERE " :: (before ++ (p.script ++ after))) = (last, none) :=
    ran
  change (started.append " WHERE ").run (before ++ (p.script ++ after)) = _ at keyword
  obtain ⟨reached, led, ran⟩ := run_append_eq_none keyword
  obtain ⟨passed, written, rest⟩ := run_append_eq_none ran
  have own : reached.dialect = d := by
    have first := run_dialect { dialect := d } head
    have second := run_dialect (started.append " WHERE ") before
    rw [begun] at first
    rw [led] at second
    exact second.trans first
  have between := (Context.begins_run (started.append " WHERE ") before).sql
  have ending := Context.begins_run passed after
  rw [led] at between
  rw [rest] at ending
  obtain ⟨cs, text⟩ := between
  refine ⟨reached, passed, own, written, ⟨started.sql, String.ofList cs, ?_⟩, ending.sql,
    ending.arguments⟩
  rw [← String.toList_inj, String.toList_append, String.toList_ofList]
  exact text.symm

theorem filter_of_tree {ts : List CondTree} {ps : List Predicate} {t : CondTree}
    (made : ts.map CondTree.condition = ps.map .ok) (member : t ∈ ts) :
    ∃ p ∈ ps, t.condition = .ok p := by
  have inside : t.condition ∈ ps.map Except.ok := by
    rw [← made]
    exact List.mem_map_of_mem member
  obtain ⟨p, found, same⟩ := List.mem_map.mp inside
  exact ⟨p, found, same.symm⟩

theorem update_filtered {table : ExprTree} {cs : List UpdateCall} {t : CondTree}
    (called : UpdateCall.filter t ∈ cs) {d : Dialect} {b : Built}
    (built : (Statement.update (updateOf table cs)).buildWith d = .ok b) :
    ∃ p, t.condition = .ok p ∧ b.Filtered d p := by
  rw [Statement.buildWith, Statement.script, Update.script] at built
  cases state : (updateOf table cs).state with
  | error e => rw [state] at built; cases built
  | ok c =>
    simp only [state] at built
    have given : t ∈ cs.flatMap UpdateCall.trees :=
      List.mem_flatMap.mpr ⟨_, called, List.mem_singleton_self t⟩
    obtain ⟨p, member, sound⟩ := filter_of_tree (update_filters state) given
    refine ⟨p, sound, ?_⟩
    rw [Changes.script] at built
    split at built
    · cases built
    · exact filtered_of_built member built

theorem delete_filtered {table : ExprTree} {cs : List DeleteCall} {t : CondTree}
    (called : DeleteCall.filter t ∈ cs) {d : Dialect} {b : Built}
    (built : (Statement.delete (deleteOf table cs)).buildWith d = .ok b) :
    ∃ p, t.condition = .ok p ∧ b.Filtered d p := by
  rw [Statement.buildWith, Statement.script, Delete.script] at built
  cases state : (deleteOf table cs).state with
  | error e => rw [state] at built; cases built
  | ok r =>
    simp only [state] at built
    have given : t ∈ cs.flatMap DeleteCall.trees :=
      List.mem_flatMap.mpr ⟨_, called, List.mem_singleton_self t⟩
    obtain ⟨p, member, sound⟩ := filter_of_tree (delete_filters state) given
    exact ⟨p, sound, filtered_of_built member built⟩

/-- Conditions given one by one are written as the one chain that AND makes of them, in every clause
    and every context, and every grouping of the chain is the same condition. An UPDATE or DELETE
    that was given a condition is built with it or not at all. -/
theorem repeated_filters_are_one_chain :
    (∀ (a : Conjunction) (c : Condition) (cs : List Condition), a.row = c :: cs →
      a.condition = c.chain cs) ∧
      (∀ cs q, (selectOf cs).state = .ok q → ∀ (k : Clause) (t : CondTree) (ts : List CondTree),
        clauseTrees k cs = t :: ts → Chained k.keyword (k.script q) q.script t ts) ∧
      (∀ table cs c, (updateOf table cs).state = .ok c → c.assignments ≠ [] →
        ∀ (t : CondTree) (ts : List CondTree), cs.flatMap UpdateCall.trees = t :: ts →
          Chained "WHERE" (whereClause c.filters) c.script t ts) ∧
      (∀ table cs r, (deleteOf table cs).state = .ok r →
        ∀ (t : CondTree) (ts : List CondTree), cs.flatMap DeleteCall.trees = t :: ts →
          Chained "WHERE" (whereClause r.filters) r.script t ts) ∧
      (∀ table cs t, UpdateCall.filter t ∈ cs → ∀ d b,
        (Statement.update (updateOf table cs)).buildWith d = .ok b →
          ∃ p, t.condition = .ok p ∧ b.Filtered d p) ∧
      ∀ table cs t, DeleteCall.filter t ∈ cs → ∀ d b,
        (Statement.delete (deleteOf table cs)).buildWith d = .ok b →
          ∃ p, t.condition = .ok p ∧ b.Filtered d p := by
  refine ⟨?_, ?_, ?_, ?_, fun _ _ _ called _ _ built => update_filtered called built,
    fun _ _ _ called _ _ built => delete_filtered called built⟩
  · intro a c cs row
    obtain ⟨same, condition⟩ := chained_spec (.single c) cs
    exact (regrouped (row.trans same.symm)).trans condition
  · intro cs q state k t ts given
    have made := (clause_compositional k).query cs q state
    rw [given] at made
    exact chained_of_made made (clause_within k q)
  · intro table cs c state assigned t ts given
    have made := update_filters state
    have inside := where_within_update assigned
    rw [given] at made
    rw [whereClause, operands_eq_map] at inside ⊢
    exact chained_of_made made inside
  · intro table cs r state t ts given
    have made := delete_filters state
    have inside := where_within_delete r
    rw [given] at made
    rw [whereClause, operands_eq_map] at inside ⊢
    exact chained_of_made made inside

/-- A disjunction between two other conditions, the last of which holds a query. -/
def guardedUpdate : List UpdateCall :=
  [.filter (.compare "a" .eq (.int 1)), .set "c" (.int 2),
    .filter (.disj (.nullTest "b" .plain) (.compare "d" .gt (.int 3))), .dialect .sqlite,
    .filter (.memberOf "e" .plain [.source (.term (.name "u")), .filter (.raw "f = ?" [.int 4])])]

theorem guarded_update_keeps_its_filters :
    (∃ c, (updateOf (.term (.name "t")) guardedUpdate).state = .ok c ∧
      Chained "WHERE" (whereClause c.filters) c.script (.compare "a" .eq (.int 1))
        [.disj (.nullTest "b" .plain) (.compare "d" .gt (.int 3)),
          .memberOf "e" .plain [.source (.term (.name "u")), .filter (.raw "f = ?" [.int 4])]]) ∧
      (∃ p, (CondTree.disj (.nullTest "b" .plain) (.compare "d" .gt (.int 3))).condition = .ok p ∧
        Built.Filtered
          ⟨"UPDATE \"t\" SET \"c\" = $1 WHERE a = $2 AND ((b IS NULL) OR (d > $3)) AND " ++
            "e IN (SELECT * FROM \"u\" WHERE f = $4)", [.int 2, .int 1, .int 3, .int 4]⟩
          .postgres p) ∧
      (Conjunction.conj (.single (CondTree.nullTest "a" .plain).condition)
        (.conj (.single (CondTree.nullTest "b" .plain).condition)
          (.single (.error .emptyCase)))).condition =
        .error .emptyCase := by
  obtain ⟨regrouped, -, update, -, kept, -⟩ := repeated_filters_are_one_chain
  refine ⟨⟨_, rfl, ?_⟩, ?_, ?_⟩
  · exact update (.term (.name "t")) guardedUpdate _ rfl (List.cons_ne_nil _ _) _ _ rfl
  · exact kept (.term (.name "t")) guardedUpdate _ (by simp [guardedUpdate]) .postgres _ rfl
  · exact regrouped (.conj (.single _) (.conj (.single _) (.single _))) _ _ rfl

end SqlAssembly
