import SqlAssembly.Number.Decimal
import SqlAssembly.Text.Quoted

/-! A dialect says how bound arguments and names are spelled and which clauses exist. -/
namespace SqlAssembly

/-- A placeholder is one mark for every argument, or a lead followed by the argument's number. -/
inductive Placeholder where
  | question : Placeholder
  | numbered : String → Placeholder
  deriving DecidableEq, Repr

inductive Feature where
  | returning : Feature
  | onConflict : Feature
  deriving DecidableEq, Repr

/-- The defaults are those of a dialect of which only the name is known. -/
structure Dialect where
  name : String
  placeholder : Placeholder := .question
  nameQuote : Option Char := some '"'
  hasReturning : Bool := false
  hasUpsert : Bool := false
  deriving DecidableEq, Repr

def Placeholder.isQuestion : Placeholder → Bool
  | .question => true
  | .numbered _ => false

def Placeholder.chars : Placeholder → Nat → List Char
  | .question, _ => ['?']
  | .numbered lead, n => lead.toList ++ digits n

/-- The question marks of a text, numbered from n. -/
def numberMarks (lead : List Char) : Nat → List Char → List Char
  | _, [] => []
  | n, c :: cs =>
    if c = '?' then lead ++ digits n ++ numberMarks lead (n + 1) cs
    else c :: numberMarks lead n cs

/-- Every question mark of a fragment becomes the placeholder of the next argument, counting
    from n. With plain marks the text is already right. -/
def Placeholder.fill : Placeholder → Nat → List Char → List Char
  | .question, _, cs => cs
  | .numbered lead, n, cs => numberMarks lead.toList n cs

/-- The number that follows once the given count of marks is filled. Plain marks carry no
    number and use none up. -/
def Placeholder.after : Placeholder → Nat → Nat → Nat
  | .question, n, _ => n
  | .numbered _, n, marks => n + marks

def Feature.keyword : Feature → String
  | .returning => "RETURNING"
  | .onConflict => "ON CONFLICT"

/-- The parts of a name between its dots. There is one more part than there are dots. -/
def segments : List Char → List (List Char)
  | [] => [[]]
  | c :: cs =>
    if c = '.' then [] :: segments cs
    else
      match segments cs with
      | [] => [[c]]
      | s :: rest => (c :: s) :: rest

namespace Dialect

def supports (d : Dialect) : Feature → Bool
  | .returning => d.hasReturning
  | .onConflict => d.hasUpsert

def placeholderText (d : Dialect) (n : Nat) : String := String.ofList (d.placeholder.chars n)

def quoted (d : Dialect) (cs : List Char) : List Char :=
  match d.nameQuote with
  | some q => enclosed q cs
  | none => cs

def quoteName (d : Dialect) (name : String) : String := String.ofList (d.quoted name.toList)

def segment (d : Dialect) (cs : List Char) : List Char := if cs = ['*'] then cs else d.quoted cs

/-- A qualified name is quoted segment by segment. A lone star stays bare, as it stands for
    all columns. -/
def qualified (d : Dialect) (cs : List Char) : List Char :=
  ['.'].intercalate ((segments cs).map d.segment)

def quoteQualified (d : Dialect) (name : String) : String :=
  String.ofList (d.qualified name.toList)

def generic : Dialect := { name := "generic", nameQuote := none }
def mysql : Dialect := { name := "mysql", nameQuote := some '\x60' }
def sqlite : Dialect :=
  { name := "sqlite", hasReturning := true, hasUpsert := true }
def postgres : Dialect :=
  { name := "postgres", placeholder := .numbered "$", hasReturning := true, hasUpsert := true }

end Dialect

theorem numberMarks_append (lead : List Char) (n : Nat) (a b : List Char) :
    numberMarks lead n (a ++ b) = numberMarks lead n a ++ numberMarks lead (n + a.count '?') b := by
  induction a generalizing n with
  | nil => simp [numberMarks]
  | cons c a ih =>
    by_cases h : c = '?' <;> simp [numberMarks, h, ih, Nat.add_assoc, Nat.add_comm 1]

theorem fill_append (p : Placeholder) (n : Nat) (a b : List Char) :
    p.fill n (a ++ b) = p.fill n a ++ p.fill (p.after n (a.count '?')) b := by
  cases p with
  | question => rfl
  | numbered lead => exact numberMarks_append lead.toList n a b

theorem after_after (p : Placeholder) (n a b : Nat) :
    p.after (p.after n a) b = p.after n (a + b) := by
  cases p <;> simp [Placeholder.after, Nat.add_assoc]

/-- The first placeholder tells which kind it is, since a numbered one ends in a digit. -/
theorem isQuestion_iff (p : Placeholder) : p.isQuestion = true ↔ p.chars 1 = ['?'] := by
  cases p with
  | question => simp [Placeholder.isQuestion, Placeholder.chars]
  | numbered lead =>
    simp only [Placeholder.isQuestion, Bool.false_eq_true, false_iff]
    intro same
    have last : ('1' : Char) = '?' := by
      have ends := congrArg List.getLast? same
      have one : digits 1 = ['1'] := rfl
      simpa only [Placeholder.chars, one, List.getLast?_concat, List.getLast?_singleton,
        Option.some.injEq] using ends
    exact absurd last (by decide)

theorem segments_ne_nil (cs : List Char) : segments cs ≠ [] := by
  cases cs with
  | nil => simp [segments]
  | cons c cs =>
    simp only [segments]
    split
    · simp
    · split <;> simp

theorem segments_joined (cs : List Char) : ['.'].intercalate (segments cs) = cs := by
  induction cs with
  | nil => rfl
  | cons c cs ih =>
    simp only [segments]
    cases parts : segments cs with
    | nil => exact absurd parts (segments_ne_nil cs)
    | cons s rest =>
      rw [parts] at ih
      by_cases h : c = '.' <;>
        cases rest <;> simp_all [List.intercalate, List.intersperse]

end SqlAssembly
