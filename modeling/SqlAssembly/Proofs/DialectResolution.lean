import Mathlib.Data.List.Induction
import Mathlib.Data.Option.Basic
import Mathlib.Logic.Function.Basic
import SqlAssembly.Session

/-! Which dialect a statement is built in. It is settled by the calls made on that statement, and
   where they leave it open, by the default at the time of the build. -/
namespace SqlAssembly

/-- What there is of a statement before the first call. -/
inductive Origin where
  | select : Origin
  | insert : Expr → Origin
  | update : Expr → Origin
  | delete : Expr → Origin

def Origin.statement : Origin → Statement
  | .select => .select .empty
  | .insert table => .insert (.into table)
  | .update table => .update (.of table)
  | .delete table => .delete (.of table)

namespace Statement.Call

def chosen? : Statement.Call → Option Dialect
  | .dialect d => some d
  | _ => none

def wraps : Statement.Call → Bool
  | .returning _ => true
  | _ => false

end Statement.Call

/-- All that was done to one statement, in order. -/
structure History where
  origin : Origin
  calls : List Statement.Call := []

namespace History

def statement? (h : History) : Option Statement := h.calls.foldlM Statement.call? h.origin.statement

def followedBy (h : History) (c : Statement.Call) : History := { h with calls := h.calls ++ [c] }

def chosen? (h : History) : Option Dialect := h.calls.reverse.findSome? Statement.Call.chosen?

def dialectFor (h : History) (preset : Dialect) : Dialect := h.chosen?.getD preset

/-- What was done before the last wrap. -/
def inner? (h : History) : Option History :=
  match h.calls.reverse.dropWhile fun c => !c.wraps with
  | [] => none
  | _ :: before => some { h with calls := before.reverse }

/-- For the receiver a composition is one more call. -/
def composed? (h other : History) : Option History :=
  match other.statement? with
  | some (.select s) => some (h.followedBy (.query (.compose (some s))))
  | _ => none

theorem statement_followedBy (h : History) (c : Statement.Call) :
    (h.followedBy c).statement? = h.statement?.bind fun st => st.call? c := by
  simp only [statement?, followedBy, List.foldlM_append, List.foldlM_cons, List.foldlM_nil]
  cases h.calls.foldlM Statement.call? h.origin.statement with
  | none => rfl
  | some st => exact Option.bind_fun_some (st.call? c)

theorem chosen_followedBy (h : History) (c : Statement.Call) :
    (h.followedBy c).chosen? = c.chosen?.or h.chosen? := by
  simp only [chosen?, followedBy, List.reverse_append, List.reverse_singleton,
    List.singleton_append, List.findSome?_cons]
  cases c.chosen? <;> rfl

theorem inner_followedBy (h : History) (c : Statement.Call) :
    (h.followedBy c).inner? = if c.wraps then some h else h.inner? := by
  simp only [inner?, followedBy, List.reverse_append, List.reverse_singleton,
    List.singleton_append, List.dropWhile_cons]
  cases c.wraps with
  | true => simp
  | false => simp

/-- Every history is a beginning with calls after it. -/
theorem induction {P : History → Prop} (begun : ∀ o, P ⟨o, []⟩)
    (called : ∀ h c, P h → P (h.followedBy c)) (h : History) : P h := by
  rcases h with ⟨o, cs⟩
  induction cs using List.reverseRecOn with
  | nil => exact begun o
  | append_singleton cs c ih => exact called ⟨o, cs⟩ c ih

end History

/-- What a call that is not refused does to the override and to what is wrapped. -/
theorem call_effect {st st' : Statement} {c : Statement.Call} (called : st.call? c = some st') :
    st'.dialect? = c.chosen?.or st.dialect? ∧
      st'.inner? = if c.wraps then some st else st.inner? := by
  cases c with
  | dialect d =>
    cases called
    refine ⟨Statement.dialect_withDialect st d, ?_⟩
    cases st <;> rfl
  | returning columns => cases called; exact ⟨rfl, rfl⟩
  | query e =>
    cases st with
    | select s => cases called; exact ⟨rfl, rfl⟩
    | _ => cases called
  | rows e =>
    cases st with
    | insert s => cases called; exact ⟨rfl, rfl⟩
    | _ => cases called
  | changes e =>
    cases st with
    | update s => cases called; exact ⟨rfl, rfl⟩
    | _ => cases called
  | removal e =>
    cases st with
    | delete s => cases called; exact ⟨rfl, rfl⟩
    | _ => cases called
  | conflict e =>
    cases st with
    | insert s => cases called; exact ⟨rfl, rfl⟩
    | upsert u => cases called; exact ⟨rfl, rfl⟩
    | _ => cases called
  | upsert =>
    cases st with
    | insert s => cases called; exact ⟨rfl, rfl⟩
    | _ => cases called

theorem history_dialect (h : History) {st : Statement} (made : h.statement? = some st) :
    st.dialect? = h.chosen? := by
  induction h using History.induction generalizing st with
  | begun o => cases made; cases o <;> rfl
  | called h c ih =>
    rw [History.statement_followedBy] at made
    obtain ⟨before, earlier, called⟩ := Option.bind_eq_some_iff.mp made
    rw [(call_effect called).1, ih earlier, History.chosen_followedBy]

theorem history_dialectFor {h : History} {st : Statement} (made : h.statement? = some st)
    (preset : Dialect) : st.dialectFor preset = h.dialectFor preset := by
  rw [Statement.dialectFor, History.dialectFor, history_dialect h made]

theorem history_inner (h : History) {st : Statement} (made : h.statement? = some st) :
    h.inner?.map History.statement? = st.inner?.map some := by
  induction h using History.induction generalizing st with
  | begun o => cases made; cases o <;> rfl
  | called h c ih =>
    rw [History.statement_followedBy] at made
    obtain ⟨before, earlier, called⟩ := Option.bind_eq_some_iff.mp made
    rw [(call_effect called).2, History.inner_followedBy]
    cases c.wraps with
    | true => exact congrArg some earlier
    | false => exact ih earlier

theorem composed_history {h g : History} {receiver argument st : Statement}
    (made : h.statement? = some receiver) (madeOther : g.statement? = some argument)
    (composed : receiver.compose? argument = some st) :
    ∃ h', h.composed? g = some h' ∧ h'.statement? = some st := by
  cases receiver with
  | select a =>
    cases argument with
    | select b =>
      cases composed
      refine ⟨h.followedBy (.query (.compose (some b))), ?_, ?_⟩
      · rw [History.composed?, madeOther]
      · rw [History.statement_followedBy, made]
        rfl
    | _ => cases composed
  | _ => cases composed

/-- The steps of a session. What is defined comes with its history. -/
inductive Move where
  | setPreset : Dialect → Move
  | preset : Move
  | define (slot : String) (history : History) : Move
  | call (slot : String) (call : Statement.Call) : Move
  | copy (slot source : String) : Move
  | compose (slot other : String) : Move
  | build (slot : String) : Move
  | buildWith (slot : String) (dialect : Dialect) : Move
  | preview (slot : String) : Move
  | inner (slot : String) : Move

namespace Move

def step? : Move → Option Session.Step
  | .setPreset d => some (.setPreset d)
  | .preset => some .preset
  | .define slot h => h.statement?.map (.define slot)
  | .call slot c => some (.call slot c)
  | .copy slot source => some (.copy slot source)
  | .compose slot other => some (.compose slot other)
  | .build slot => some (.build slot)
  | .buildWith slot d => some (.buildWith slot d)
  | .preview slot => some (.preview slot)
  | .inner slot => some (.inner slot)

def preset? : Move → Option Dialect
  | .setPreset d => some d
  | _ => none

/-- The move stores a statement. -/
def stores : Move → Bool
  | .define _ _ => true
  | .call _ _ => true
  | .copy _ _ => true
  | .compose _ _ => true
  | _ => false

/-- The history in each slot after the move. -/
def noted (known : String → Option History) : Move → String → Option History
  | .define slot h => Function.update known slot (some h)
  | .call slot c => Function.update known slot ((known slot).map fun h => h.followedBy c)
  | .copy slot source => Function.update known slot (known source)
  | .compose slot other =>
    Function.update known slot ((known slot).bind fun h => (known other).bind h.composed?)
  | _ => known

def histories (ms : List Move) : String → Option History := ms.foldl noted fun _ => none

/-- The default set last. -/
def lastPreset (ms : List Move) : Dialect := (ms.reverse.findSome? preset?).getD .mysql

end Move

namespace Session

def advance? (s : Session) (m : Move) : Option Session :=
  (m.step?.bind s.step?).map Outcome.session

def run? (s : Session) (ms : List Move) : Option Session := ms.foldlM advance? s

def answer? (s : Session) (step : Step) : Option Answer := (s.step? step).map Outcome.answer

/-- Each slot holds what the history noted for it makes. -/
def Traced (s : Session) (known : String → Option History) : Prop :=
  ∀ slot, (known slot).map History.statement? = (s.statement? slot).map some

variable {s s' : Session} {known : String → Option History}

theorem Traced.put (traced : s.Traced known) (slot : String) {h : History} {st : Statement}
    (made : h.statement? = some st) :
    (s.put slot st).Traced (Function.update known slot (some h)) := by
  intro other
  by_cases same : other = slot
  · rw [same, Function.update_self, statement_put, Option.map_some, Option.map_some, made]
  · rw [Function.update_of_ne same, statement_put_other s slot other st same]
    exact traced other

theorem Traced.held (traced : s.Traced known) {slot : String} {st : Statement}
    (held : s.statement? slot = some st) : ∃ h, known slot = some h ∧ h.statement? = some st := by
  have noted := traced slot
  rw [held, Option.map_some] at noted
  exact Option.map_eq_some_iff.mp noted

theorem Traced.reached (traced : s.Traced known) {slot : String} {h : History}
    (noted : known slot = some h) : ∃ st, s.statement? slot = some st ∧ h.statement? = some st := by
  have held := traced slot
  rw [noted, Option.map_some] at held
  obtain ⟨st, found, same⟩ := Option.map_eq_some_iff.mp held.symm
  exact ⟨st, found, same.symm⟩

theorem advance_traced (traced : s.Traced known) {m : Move} (moved : s.advance? m = some s') :
    s'.Traced (m.noted known) ∧ s'.preset = m.preset?.getD s.preset := by
  obtain ⟨outcome, taken, rfl⟩ := Option.map_eq_some_iff.mp moved
  obtain ⟨step, translated, done⟩ := Option.bind_eq_some_iff.mp taken
  cases m with
  | define slot h =>
    obtain ⟨st, made, rfl⟩ := Option.map_eq_some_iff.mp translated
    cases done
    exact ⟨traced.put slot made, rfl⟩
  | call slot c =>
    cases translated
    obtain ⟨st, held, rest⟩ := Option.bind_eq_some_iff.mp done
    obtain ⟨st', called, stored⟩ := Option.bind_eq_some_iff.mp rest
    cases stored
    obtain ⟨h, noted, made⟩ := traced.held held
    have later : (h.followedBy c).statement? = some st' := by
      rw [History.statement_followedBy, made]
      exact called
    rw [Move.noted, noted]
    exact ⟨traced.put slot later, rfl⟩
  | copy slot source =>
    cases translated
    obtain ⟨st, held, stored⟩ := Option.bind_eq_some_iff.mp done
    cases stored
    obtain ⟨h, noted, made⟩ := traced.held held
    rw [Move.noted, noted]
    exact ⟨traced.put slot made, rfl⟩
  | compose slot other =>
    cases translated
    obtain ⟨receiver, held, rest⟩ := Option.bind_eq_some_iff.mp done
    obtain ⟨argument, heldOther, rest⟩ := Option.bind_eq_some_iff.mp rest
    obtain ⟨st, composed, stored⟩ := Option.bind_eq_some_iff.mp rest
    cases stored
    obtain ⟨h, noted, made⟩ := traced.held held
    obtain ⟨g, notedOther, madeOther⟩ := traced.held heldOther
    obtain ⟨h', later, made'⟩ := composed_history made madeOther composed
    rw [Move.noted, noted, notedOther, Option.bind_some, Option.bind_some, later]
    exact ⟨traced.put slot made', rfl⟩
  | setPreset _ | preset => cases translated; cases done; exact ⟨traced, rfl⟩
  | build _ | buildWith _ _ | preview _ =>
    cases translated
    obtain ⟨st, -, answered⟩ := Option.bind_eq_some_iff.mp done
    cases answered
    exact ⟨traced, rfl⟩
  | inner slot =>
    cases translated
    obtain ⟨st, -, built⟩ := Option.bind_eq_some_iff.mp done
    cases wrapped : st.inner? with
    | none => rw [wrapped] at built; cases built; exact ⟨traced, rfl⟩
    | some inner => rw [wrapped] at built; cases built; exact ⟨traced, rfl⟩

theorem run_traced (traced : s.Traced known) {ms : List Move} (ran : s.run? ms = some s') :
    s'.Traced (ms.foldl Move.noted known) ∧
      s'.preset = (ms.reverse.findSome? Move.preset?).getD s.preset := by
  induction ms generalizing s known with
  | nil => cases ran; exact ⟨traced, rfl⟩
  | cons m ms ih =>
    obtain ⟨between, moved, rest⟩ := Option.bind_eq_some_iff.mp ran
    obtain ⟨step, preset⟩ := advance_traced traced moved
    obtain ⟨run, last⟩ := ih step rest
    refine ⟨run, ?_⟩
    rw [last, preset, List.reverse_cons, List.findSome?_append]
    cases ms.reverse.findSome? Move.preset? with
    | some d => rfl
    | none => cases m <;> rfl

/-- What the session tells about a slot follows from the history of the statement in it and from the
    default. -/
structure Resolves (s : Session) (slot : String) (h : History) (st : Statement) : Prop where
  held : s.statement? slot = some st
  made : h.statement? = some st
  override : st.dialect? = h.chosen?
  built : s.answer? (.build slot) = some (.built (st.buildWith (h.dialectFor s.preset)))
  explicit : ∀ d, s.answer? (.buildWith slot d) = some (.built (st.buildWith d))
  previewed : s.answer? (.preview slot) = some (.preview
    ((st.buildWith (h.dialectFor s.preset)).map fun b => interpolate b.sql b.arguments))
  bare : h.inner? = none → s.answer? (.inner slot) = some .nothing
  unwrapped : ∀ g, h.inner? = some g → ∃ inner, g.statement? = some inner ∧
    s.answer? (.inner slot) = some (.built (inner.buildWith (g.dialectFor s.preset)))

theorem answer_inner {slot : String} {st : Statement} (held : s.statement? slot = some st) :
    s.answer? (.inner slot) = some (match st.inner? with
      | some inner => .built (inner.buildWith (inner.dialectFor s.preset))
      | none => .nothing) := by
  rw [answer?, step?, held]
  cases st <;> rfl

theorem Traced.resolves (traced : s.Traced known) {slot : String} {h : History}
    (noted : known slot = some h) : ∃ st, s.Resolves slot h st := by
  obtain ⟨st, held, made⟩ := traced.reached noted
  have override := history_dialect h made
  have wrapped := history_inner h made
  have resolved : st.dialectFor s.preset = h.dialectFor s.preset :=
    history_dialectFor made s.preset
  refine ⟨st, held, made, override, ?_, ?_, ?_, ?_, ?_⟩
  · rw [← resolved, answer?, step?, held]
    rfl
  · intro d
    rw [answer?, step?, held]
    rfl
  · rw [← resolved, answer?, step?, held]
    rfl
  · intro bare
    rw [bare] at wrapped
    rw [answer_inner held, Option.map_eq_none_iff.mp wrapped.symm]
  · intro g before
    rw [before] at wrapped
    obtain ⟨inner, inside, same⟩ := Option.map_eq_some_iff.mp wrapped.symm
    refine ⟨inner, same.symm, ?_⟩
    rw [answer_inner held, inside, ← history_dialectFor same.symm]

end Session

/-- Steps that store nothing leave no note. -/
theorem noted_stores (ms : List Move) (known : String → Option History) :
    (ms.filter Move.stores).foldl Move.noted known = ms.foldl Move.noted known := by
  induction ms generalizing known with
  | nil => rfl
  | cons m ms ih =>
    cases m <;> exact ih _

/-- A run starts with MySQL and no statements. After it the override of a statement is the last
    dialect chosen by the calls on that statement, and builds take it, or else the last default. A
    wrapped statement is built as the calls before the last wrap have it. Runs that store the same
    statements agree on what these come to, unless a statement is left to defaults that differ. -/
theorem dialects_resolve_by_history :
    (∀ (ms : List Move) (s : Session), Session.run? {} ms = some s →
      s.preset = Move.lastPreset ms ∧
        ∀ slot, (Move.histories ms slot = none → s.statement? slot = none) ∧
          ∀ h, Move.histories ms slot = some h → ∃ st, s.Resolves slot h st) ∧
      ∀ (ms ms' : List Move) (s s' : Session), Session.run? {} ms = some s →
        Session.run? {} ms' = some s' → ms.filter Move.stores = ms'.filter Move.stores →
        ∀ slot, s.statement? slot = s'.statement? slot ∧
          ∀ h, Move.histories ms slot = some h → s.preset = s'.preset ∨ h.chosen? ≠ none →
            s.answer? (.build slot) = s'.answer? (.build slot) ∧
              s.answer? (.preview slot) = s'.answer? (.preview slot) := by
  have empty : Session.Traced {} fun _ => none := fun _ => rfl
  constructor
  · intro ms s ran
    obtain ⟨traced, preset⟩ := Session.run_traced empty ran
    refine ⟨preset, fun slot => ⟨fun unknown => ?_, fun h noted => traced.resolves noted⟩⟩
    have held := traced slot
    rw [show ms.foldl Move.noted (fun _ => none) slot = none from unknown] at held
    exact Option.map_eq_none_iff.mp held.symm
  · intro ms ms' s s' ran ran' stored slot
    have traced := (Session.run_traced empty ran).1
    have traced' := (Session.run_traced empty ran').1
    -- The notes come from what the runs store, so there is one history in the slot for both.
    rw [← noted_stores, ← stored, noted_stores] at traced'
    have same : s.statement? slot = s'.statement? slot :=
      Option.map_injective (Option.some_injective _) ((traced slot).symm.trans (traced' slot))
    refine ⟨same, fun h noted settled => ?_⟩
    obtain ⟨st, left⟩ := traced.resolves noted
    obtain ⟨st', right⟩ := traced'.resolves noted
    have made : st = st' := Option.some.inj (left.made.symm.trans right.made)
    have dialect : h.dialectFor s.preset = h.dialectFor s'.preset := by
      rcases settled with preset | chosen
      · rw [preset]
      · obtain ⟨d, override⟩ := Option.ne_none_iff_exists'.mp chosen
        rw [History.dialectFor, History.dialectFor, override]
        rfl
    rw [left.built, left.previewed, right.built, right.previewed, made, dialect]
    exact ⟨rfl, rfl⟩

/-- A statement that names MySQL in a wrapper that names PostgreSQL. The default changes on the
    way. -/
def wrappedDelete (first second : Dialect) : List Move :=
  [.setPreset first, .define "d" ⟨.delete (.term (.name "t")), [.dialect .mysql]⟩, .build "d",
    .call "d" (.returning []), .setPreset second, .call "d" (.dialect .postgres), .inner "d"]

theorem overrides_outlast_the_defaults :
    ∃ s s' : Session, Session.run? {} (wrappedDelete .mysql .generic) = some s ∧
      Session.run? {} (wrappedDelete .sqlite .mysql) = some s' ∧
      s.answer? (.build "d") = s'.answer? (.build "d") ∧
      s.answer? (.build "d") = some (.built (.ok ⟨"DELETE FROM \"t\" RETURNING *", []⟩)) ∧
      s.answer? (.inner "d") = some (.built (.ok ⟨"DELETE FROM \x60t\x60", []⟩)) := by
  obtain ⟨resolve, agree⟩ := dialects_resolve_by_history
  refine ⟨_, _, rfl, rfl, ?_, ?_, ?_⟩
  · have same := agree (wrappedDelete .mysql .generic) (wrappedDelete .sqlite .mysql) _ _ rfl rfl
      rfl
    exact ((same "d").2 _ rfl (.inr (Option.some_ne_none Dialect.postgres))).1
  · obtain ⟨st, told⟩ := ((resolve (wrappedDelete .mysql .generic) _ rfl).2 "d").2 _ rfl
    have made := told.made
    cases made
    exact told.built
  · obtain ⟨st, told⟩ := ((resolve (wrappedDelete .mysql .generic) _ rfl).2 "d").2 _ rfl
    obtain ⟨inner, made, answer⟩ := told.unwrapped _ rfl
    cases made
    exact answer

end SqlAssembly
