import SqlAssembly.BuildError

/-! A statement under construction: its content, or the first error that a call made, together
   with the dialect chosen for it. After an error only the dialect can still change. -/
namespace SqlAssembly

structure Builder (α : Type) where
  state : Except BuildError α
  dialect : Option Dialect := none

namespace Builder

/-- One call on a builder: a change to the content, or the choice of a dialect. -/
inductive Call (ε : Type) where
  | edit : ε → Call ε
  | dialect : Dialect → Call ε

variable {α ε : Type}

def error? (b : Builder α) : Option BuildError :=
  match b.state with
  | .ok _ => none
  | .error e => some e

/-- An edit takes effect only while there is no error, so the first error stays. -/
def edit (apply : ε → α → Except BuildError α) (b : Builder α) (e : ε) : Builder α :=
  { b with state := b.state.bind (apply e) }

/-- The dialect can be chosen at any time, also after an error. -/
def withDialect (b : Builder α) (d : Dialect) : Builder α := { b with dialect := some d }

def call (apply : ε → α → Except BuildError α) (b : Builder α) : Call ε → Builder α
  | .edit e => b.edit apply e
  | .dialect d => b.withDialect d

def calls (apply : ε → α → Except BuildError α) (b : Builder α) (cs : List (Call ε)) : Builder α :=
  cs.foldl (call apply) b

theorem error_eq_some_iff (b : Builder α) (e : BuildError) :
    b.error? = some e ↔ b.state = .error e := by
  cases h : b.state <;> simp [error?, h]

theorem edit_of_error (apply : ε → α → Except BuildError α) (b : Builder α) (e : ε)
    (cause : BuildError) (h : b.state = .error cause) : b.edit apply e = b := by
  cases b; simp_all [edit, Except.bind]

theorem calls_append (apply : ε → α → Except BuildError α) (b : Builder α)
    (xs ys : List (Call ε)) :
    b.calls apply (xs ++ ys) = (b.calls apply xs).calls apply ys := by simp [calls]

theorem calls_of_error (apply : ε → α → Except BuildError α) (b : Builder α)
    (cs : List (Call ε)) (cause : BuildError) (h : b.state = .error cause) :
    (b.calls apply cs).state = .error cause := by
  induction cs generalizing b with
  | nil => exact h
  | cons c cs ih =>
    cases c with
    | edit e => exact ih _ (by rw [call, edit_of_error apply b e cause h]; exact h)
    | dialect d => exact ih _ h

end Builder

end SqlAssembly
