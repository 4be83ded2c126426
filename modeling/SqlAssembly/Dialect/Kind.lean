import SqlAssembly.Dialect
import SqlAssembly.Text.Blank

/-! Dialects that a configuration file can select by name. -/
namespace SqlAssembly

inductive Dialect.Kind where
  | generic : Dialect.Kind
  | mysql : Dialect.Kind
  | postgres : Dialect.Kind
  deriving DecidableEq, Repr

structure UnknownDialect where
  given : String
  deriving DecidableEq, Repr

def UnknownDialect.message (e : UnknownDialect) : String :=
  "unknown SQL dialect \x60" ++ e.given ++ "\x60"

namespace Dialect.Kind

def all : List Dialect.Kind := [.generic, .mysql, .postgres]

def preset : Dialect.Kind := .mysql

def dialect : Dialect.Kind → Dialect
  | .generic => Dialect.generic
  | .mysql => Dialect.mysql
  | .postgres => Dialect.postgres

def name (k : Dialect.Kind) : String := k.dialect.name

def aliases : Dialect.Kind → List String
  | .generic => ["generic", "ansi"]
  | .mysql => ["mysql", "mariadb"]
  | .postgres => ["postgres", "postgresql", "pg"]

/-- Reading forgives blanks around the name and the case of its letters. -/
def parse (text : String) : Except UnknownDialect Dialect.Kind :=
  match all.find? fun k => k.aliases.any fun a => sameLetters a.toList (trim text.toList) with
  | some k => .ok k
  | none => .error ⟨text⟩

/-- In stored configuration only the name itself counts. -/
def ofName? (text : String) : Option Dialect.Kind := all.find? fun k => k.name == text

theorem ofName_name (k : Dialect.Kind) : ofName? k.name = some k := by cases k <;> decide

theorem ofName_eq_some_iff (text : String) (k : Dialect.Kind) :
    ofName? text = some k ↔ text = k.name := by
  constructor
  · intro h
    have := List.find?_some h
    simp only [beq_iff_eq] at this
    exact this.symm
  · rintro rfl; exact ofName_name k

end Dialect.Kind

end SqlAssembly
