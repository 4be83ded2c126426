import SqlAssembly.Dialect.Kind
import SqlAssembly.Statement

/-! A session holds the default dialect and named statements. Each step gives an answer and
   logs what happened. -/
namespace SqlAssembly

inductive Event where
  | defaultChanged (previous current : String) : Event
  | built (dialect : String) (arguments : Nat) : Event
  | sql : String → Event
  | buildFailed (dialect : String) (error : BuildError) : Event
  deriving DecidableEq, Repr

inductive Severity where
  | info : Severity
  | debug : Severity
  | trace : Severity
  deriving DecidableEq, Repr

def Severity.name : Severity → String
  | .info => "INFO"
  | .debug => "DEBUG"
  | .trace => "TRACE"

inductive Detail where
  | text : String → Detail
  | count : Nat → Detail
  deriving DecidableEq, Repr

structure LogEntry where
  severity : Severity
  message : Option String
  details : List (String × Detail)
  deriving DecidableEq, Repr

/-- How an event stands in the log. The text of a statement comes without a message. -/
def Event.entry : Event → LogEntry
  | .defaultChanged previous current =>
    ⟨.info, some "default dialect changed",
      [("previous", .text previous), ("current", .text current)]⟩
  | .built dialect arguments =>
    ⟨.debug, some "statement built", [("dialect", .text dialect), ("params", .count arguments)]⟩
  | .sql text => ⟨.trace, none, [("sql", .text text)]⟩
  | .buildFailed dialect error =>
    ⟨.debug, some "statement build failed",
      [("dialect", .text dialect), ("error", .text error.message)]⟩

inductive Answer where
  | dialect : String → Answer
  | statement (recorded : Option BuildError) (dialect : Option String) : Answer
  | built : Except BuildError Built → Answer
  | preview : Except BuildError String → Answer
  | nothing : Answer

structure Session where
  preset : Dialect := Dialect.Kind.preset.dialect
  slots : List (String × Statement) := []

namespace Session

inductive Step where
  | setPreset : Dialect → Step
  | preset : Step
  | define (slot : String) (statement : Statement) : Step
  | call (slot : String) (call : Statement.Call) : Step
  | copy (slot source : String) : Step
  | compose (slot other : String) : Step
  | build (slot : String) : Step
  | buildWith (slot : String) (dialect : Dialect) : Step
  | preview (slot : String) : Step
  | inner (slot : String) : Step

/-- What one step comes to. -/
structure Outcome where
  session : Session
  answer : Answer
  events : List Event

def statement? (s : Session) (slot : String) : Option Statement := s.slots.lookup slot

/-- A slot holds one statement; storing another one replaces it. -/
def put (s : Session) (slot : String) (st : Statement) : Session :=
  { s with slots := (slot, st) :: s.slots.filter fun p => p.1 != slot }

/-- One build of a statement is one outcome in the log, whatever is nested in it. -/
def buildEvents (d : Dialect) : Except BuildError Built → List Event
  | .ok b => [.built d.name b.arguments.length, .sql b.sql]
  | .error e => [.buildFailed d.name e]

def stored (s : Session) (slot : String) (st : Statement) : Outcome :=
  ⟨s.put slot st, .statement st.recorded? (st.dialect?.map Dialect.name), []⟩

def built (s : Session) (st : Statement) (d : Dialect) : Outcome :=
  ⟨s, .built (st.buildWith d), buildEvents d (st.buildWith d)⟩

/-- A step is refused when it names an empty slot or a call that the statement does not have. -/
def step? (s : Session) : Step → Option Outcome
  | .setPreset d =>
    some ⟨{ s with preset := d }, .dialect d.name, [.defaultChanged s.preset.name d.name]⟩
  | .preset => some ⟨s, .dialect s.preset.name, []⟩
  | .define slot st => some (s.stored slot st)
  | .call slot c => do return s.stored slot (← (← s.statement? slot).call? c)
  | .copy slot source => do return s.stored slot (← s.statement? source)
  | .compose slot other => do
    return s.stored slot (← (← s.statement? slot).compose? (← s.statement? other))
  | .build slot => do
    let st ← s.statement? slot
    return s.built st (st.dialectFor s.preset)
  | .buildWith slot d => do return s.built (← s.statement? slot) d
  | .preview slot => do
    let st ← s.statement? slot
    let d := st.dialectFor s.preset
    return ⟨s, .preview (st.preview s.preset), buildEvents d (st.buildWith d)⟩
  | .inner slot => do
    match (← s.statement? slot).inner? with
    | some st => return s.built st (st.dialectFor s.preset)
    | none => return ⟨s, .nothing, []⟩

theorem statement_put (s : Session) (slot : String) (st : Statement) :
    (s.put slot st).statement? slot = some st := by
  simp [put, statement?]

theorem statement_put_other (s : Session) (slot other : String) (st : Statement)
    (h : other ≠ slot) : (s.put slot st).statement? other = s.statement? other := by
  have different : (other == slot) = false := by simpa using h
  simp only [put, statement?, List.lookup_cons, different]
  induction s.slots with
  | nil => rfl
  | cons p rest ih =>
    by_cases same : p.1 = slot
    · have skipped : (other == p.1) = false := by rw [same]; exact different
      rw [List.filter_cons_of_neg (by simp [same])]
      rcases p with ⟨name, st'⟩
      simp only [List.lookup_cons] at skipped ⊢
      rw [skipped]
      exact ih
    · rw [List.filter_cons_of_pos (by simp [same])]
      rcases p with ⟨name, st'⟩
      simp only [List.lookup_cons]
      split
      · rfl
      · exact ih

end Session

end SqlAssembly
