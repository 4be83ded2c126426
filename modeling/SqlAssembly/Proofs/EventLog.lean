import SqlAssembly.Proofs.Construction
import SqlAssembly.Proofs.DialectResolution

/-! What a session logs. A step that builds a statement leaves one report of it, with what the
   caller was told, and a change of the default leaves its entry. Nothing else is logged. -/
namespace SqlAssembly

/-- A step as it was taken. -/
structure Turn where
  move : Move
  outcome : Session.Outcome

def Turn.log (t : Turn) : List LogEntry := t.outcome.events.map Event.entry

/-- A build is reported once. Its text follows on a second entry, which a failed build lacks. -/
def buildReport (d : Dialect) : Except BuildError Built → List LogEntry
  | .ok b =>
    [⟨.debug, some "statement built",
      [("dialect", .text d.name), ("params", .count b.arguments.length)]⟩,
      ⟨.trace, none, [("sql", .text b.sql)]⟩]
  | .error e =>
    [⟨.debug, some "statement build failed",
      [("dialect", .text d.name), ("error", .text e.message)]⟩]

def presetChange (previous current : String) : LogEntry :=
  ⟨.info, some "default dialect changed",
    [("previous", .text previous), ("current", .text current)]⟩

/-- Each change starts from the name that the one before it ended with. -/
def presetChanges : String → List String → List LogEntry
  | _, [] => []
  | previous, current :: later => presetChange previous current :: presetChanges current later

def LogEntry.isInfo (e : LogEntry) : Bool := e.severity == .info

/-- What a step builds, and in which dialect. -/
def Move.builds? (preset : Dialect) (known : String → Option History) :
    Move → Option (History × Dialect)
  | .build slot => (known slot).map fun h => (h, h.dialectFor preset)
  | .buildWith slot d => (known slot).map fun h => (h, d)
  | .preview slot => (known slot).map fun h => (h, h.dialectFor preset)
  | .inner slot => ((known slot).bind History.inner?).map fun h => (h, h.dialectFor preset)
  | _ => none

/-- The caller is told the result, or for a preview its text with the arguments put in. -/
def Turn.Answers (t : Turn) (result : Except BuildError Built) : Prop :=
  match t.move with
  | .preview _ => t.outcome.answer = .preview (result.map fun b => interpolate b.sql b.arguments)
  | _ => t.outcome.answer = .built result

structure Turn.Reports (t : Turn) (h : History) (d : Dialect) (st : Statement) : Prop where
  made : h.statement? = some st
  answers : t.Answers (st.buildWith d)
  log : t.log = buildReport d (st.buildWith d)

/-- What a step logs, by what was done before it. -/
def Turn.Logged (preset : Dialect) (known : String → Option History) (t : Turn) : Prop :=
  match t.move.builds? preset known with
  | some (h, d) => ∃ st, t.Reports h d st
  | none => t.log = t.move.preset?.toList.map fun d => presetChange preset.name d.name

theorem buildEvents_report (d : Dialect) (result : Except BuildError Built) :
    (Session.buildEvents d result).map Event.entry = buildReport d result := by
  cases result <;> rfl

theorem buildReport_info (d : Dialect) (result : Except BuildError Built) :
    (buildReport d result).filter LogEntry.isInfo = [] := by
  cases result <;> rfl

theorem builds_preset {preset : Dialect} {known : String → Option History} {m : Move}
    {target : History × Dialect} (builds : m.builds? preset known = some target) :
    m.preset? = none := by
  cases m with
  | setPreset d => cases builds
  | _ => rfl

theorem logged_of_reports {preset : Dialect} {known : String → Option History} {t : Turn}
    {h : History} {d : Dialect} {st : Statement}
    (builds : t.move.builds? preset known = some (h, d)) (reports : t.Reports h d st) :
    t.Logged preset known := by
  rw [Turn.Logged, builds]
  exact ⟨st, reports⟩

/-- Of one step only a change of the default is an INFO. -/
theorem logged_info {preset : Dialect} {known : String → Option History} {t : Turn}
    (logged : t.Logged preset known) : t.log.filter LogEntry.isInfo =
      t.move.preset?.toList.map fun d => presetChange preset.name d.name := by
  unfold Turn.Logged at logged
  split at logged
  · rename_i h d builds
    obtain ⟨st, reports⟩ := logged
    rw [reports.log, buildReport_info, builds_preset builds]
    rfl
  · rw [logged]
    cases t.move.preset? <;> rfl

namespace Session

variable {s s' : Session} {known : String → Option History}

/-- Steps taken one after the other. -/
inductive Runs : Session → List Turn → Session → Prop where
  | done (s : Session) : Runs s [] s
  | next {s s' : Session} {m : Move} {o : Outcome} {turns : List Turn} :
      m.step?.bind s.step? = some o → Runs o.session turns s' → Runs s (⟨m, o⟩ :: turns) s'

/-- The run that these moves lead to, unless one of them is refused. -/
def record? (s : Session) : List Move → Option (List Turn × Session)
  | [] => some ([], s)
  | m :: ms => do
    let o ← m.step?.bind s.step?
    let later ← o.session.record? ms
    return (⟨m, o⟩ :: later.1, later.2)

theorem runs_of_record {ms : List Move} {turns : List Turn}
    (recorded : s.record? ms = some (turns, s')) : Runs s turns s' ∧ turns.map Turn.move = ms := by
  induction ms generalizing s turns with
  | nil =>
    cases recorded
    exact ⟨.done _, rfl⟩
  | cons m ms ih =>
    obtain ⟨o, taken, rest⟩ := Option.bind_eq_some_iff.mp recorded
    obtain ⟨later, others, whole⟩ := Option.bind_eq_some_iff.mp rest
    cases whole
    obtain ⟨ran, moves⟩ := ih others
    exact ⟨.next taken ran, congrArg (m :: ·) moves⟩

theorem Runs.run {turns : List Turn} (ran : Runs s turns s') :
    s.run? (turns.map Turn.move) = some s' := by
  induction ran with
  | done s => rfl
  | @next s s' m o turns taken _ ih =>
    have moved : s.advance? m = some o.session := by rw [advance?, taken, Option.map_some]
    rw [List.map_cons, run?, List.foldlM_cons, moved]
    exact ih

theorem runs_append {a b : List Turn} (ran : Runs s (a ++ b) s') :
    ∃ between, Runs s a between ∧ Runs between b s' := by
  induction a generalizing s with
  | nil => exact ⟨s, .done s, ran⟩
  | cons t a ih =>
    cases ran with
    | next taken rest =>
      obtain ⟨between, first, later⟩ := ih rest
      exact ⟨between, .next taken first, later⟩

theorem step_logged (traced : s.Traced known) {m : Move} {o : Outcome}
    (taken : m.step?.bind s.step? = some o) : Turn.Logged s.preset known ⟨m, o⟩ := by
  obtain ⟨step, translated, done⟩ := Option.bind_eq_some_iff.mp taken
  cases m with
  | setPreset d => cases translated; cases done; rfl
  | preset => cases translated; cases done; rfl
  | define slot h =>
    obtain ⟨st, -, rfl⟩ := Option.map_eq_some_iff.mp translated
    cases done
    rfl
  | call slot c =>
    cases translated
    obtain ⟨st, -, rest⟩ := Option.bind_eq_some_iff.mp done
    obtain ⟨st', -, stored⟩ := Option.bind_eq_some_iff.mp rest
    cases stored
    rfl
  | copy slot source =>
    cases translated
    obtain ⟨st, -, stored⟩ := Option.bind_eq_some_iff.mp done
    cases stored
    rfl
  | compose slot other =>
    cases translated
    obtain ⟨a, -, rest⟩ := Option.bind_eq_some_iff.mp done
    obtain ⟨b, -, rest⟩ := Option.bind_eq_some_iff.mp rest
    obtain ⟨st, -, stored⟩ := Option.bind_eq_some_iff.mp rest
    cases stored
    rfl
  | build slot =>
    cases translated
    obtain ⟨st, held, answered⟩ := Option.bind_eq_some_iff.mp done
    obtain ⟨h, noted, made⟩ := traced.held held
    cases answered
    refine logged_of_reports (d := st.dialectFor s.preset) ?_ ⟨made, rfl, buildEvents_report _ _⟩
    rw [Move.builds?, noted, history_dialectFor made]
    rfl
  | buildWith slot d =>
    cases translated
    obtain ⟨st, held, answered⟩ := Option.bind_eq_some_iff.mp done
    obtain ⟨h, noted, made⟩ := traced.held held
    cases answered
    refine logged_of_reports (d := d) ?_ ⟨made, rfl, buildEvents_report _ _⟩
    rw [Move.builds?, noted]
    rfl
  | preview slot =>
    cases translated
    obtain ⟨st, held, answered⟩ := Option.bind_eq_some_iff.mp done
    obtain ⟨h, noted, made⟩ := traced.held held
    cases answered
    refine logged_of_reports (d := st.dialectFor s.preset) ?_ ⟨made, rfl, buildEvents_report _ _⟩
    rw [Move.builds?, noted, history_dialectFor made]
    rfl
  | inner slot =>
    cases translated
    obtain ⟨st, held, answered⟩ := Option.bind_eq_some_iff.mp done
    obtain ⟨h, noted, made⟩ := traced.held held
    have wrapped := history_inner h made
    cases inside : st.inner? with
    | none =>
      rw [inside] at answered wrapped
      have bare : h.inner? = none := Option.map_eq_none_iff.mp wrapped
      cases answered
      rw [Turn.Logged, Move.builds?, noted, Option.bind_some, bare]
      rfl
    | some inner =>
      rw [inside] at answered wrapped
      obtain ⟨g, before, made'⟩ := Option.map_eq_some_iff.mp wrapped
      cases answered
      refine logged_of_reports (d := inner.dialectFor s.preset) ?_
        ⟨made', rfl, buildEvents_report _ _⟩
      rw [Move.builds?, noted, Option.bind_some, before, history_dialectFor made']
      rfl

/-- The changes of the default in a run, one after the other. -/
theorem runs_info {turns : List Turn} (ran : Runs s turns s') (traced : s.Traced known) :
    (turns.flatMap Turn.log).filter LogEntry.isInfo =
      presetChanges s.preset.name
        (turns.filterMap fun t => t.move.preset?.map Dialect.name) := by
  induction ran generalizing known with
  | done s => rfl
  | @next s s' m o turns taken _ ih =>
    have moved : s.advance? m = some o.session := by rw [advance?, taken, Option.map_some]
    obtain ⟨later, preset⟩ := advance_traced traced moved
    have first := logged_info (step_logged traced taken)
    rw [List.flatMap_cons, List.filter_append, first, ih later, preset]
    cases changed : m.preset? with
    | none => rw [List.filterMap_cons_none (by rw [changed]; rfl)]; rfl
    | some d => rw [List.filterMap_cons_some (b := d.name) (by rw [changed]; rfl)]; rfl

end Session

/-- In a run from the start each step is logged by what was done before it: a build with the dialect
    that the history settles and the result that the caller gets, a change of the default with the
    names on both sides, everything else with nothing. The changes of the default form a chain that
    begins with MySQL. -/
theorem log_follows_results (turns : List Turn) (s : Session) (ran : Session.Runs {} turns s) :
    (∀ earlier turn later, turns = earlier ++ turn :: later →
      turn.Logged (Move.lastPreset (earlier.map Turn.move))
        (Move.histories (earlier.map Turn.move))) ∧
      (turns.flatMap Turn.log).filter LogEntry.isInfo =
        presetChanges "mysql" (turns.filterMap fun t => t.move.preset?.map Dialect.name) := by
  have empty : Session.Traced {} fun _ => none := fun _ => rfl
  constructor
  · rintro earlier turn later rfl
    obtain ⟨between, first, rest⟩ := Session.runs_append ran
    obtain ⟨traced, preset⟩ := Session.run_traced empty first.run
    cases rest with
    | next taken _ =>
      have logged := Session.step_logged traced taken
      rw [preset] at logged
      exact logged
  · exact Session.runs_info ran empty

/-- A deletion by the keys that a query finds, with a clause that the second default lacks. -/
def wrappedBuilds : List Move := [
  .setPreset .postgres,
  .define "d" ⟨.delete (.term (.name "t")), [.removal (.filter (Condition.memberOf "id" .plain
    (selectOf [.columns [.term (.name "k")], .filter (.compare "v" .eq (.int 1))])))]⟩,
  .call "d" (.returning []),
  .setPreset .generic,
  .build "d",
  .inner "d"]

theorem wrapped_builds_are_logged_once :
    ∃ (turns : List Turn) (s : Session), Session.Runs {} turns s ∧
      turns.map Turn.move = wrappedBuilds ∧
      (turns.flatMap Turn.log).filter LogEntry.isInfo =
        [presetChange "mysql" "postgres", presetChange "postgres" "generic"] ∧
      (turns.flatMap Turn.log).filter (fun e => !e.isInfo) =
        buildReport .generic (.error (.unsupported "generic" .returning)) ++
          buildReport .generic
            (.ok ⟨"DELETE FROM t WHERE id IN (SELECT k WHERE v = ?)", [.int 1]⟩) := by
  obtain ⟨ran, moves⟩ :=
    Session.runs_of_record (rfl : Session.record? {} wrappedBuilds = some (_, _))
  refine ⟨_, _, ran, moves, (log_follows_results _ _ ran).2, ?_⟩
  decide

end SqlAssembly
