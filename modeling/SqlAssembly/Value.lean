import SqlAssembly.Number.Binary64

/-! Values that a statement can bind. -/
namespace SqlAssembly

inductive Value where
  | null : Value
  | bool : Bool → Value
  | int : Int → Value
  | float : Binary64 → Value
  | text : String → Value
  | blob : List UInt8 → Value
  deriving DecidableEq, Repr

def Value.isNull : Value → Bool
  | .null => true
  | _ => false

/-- Values of different kinds differ. Floats compare as numbers, so this relation is not
    reflexive. -/
def Value.equal : Value → Value → Bool
  | .float x, .float y => x.numericEq y
  | a, b => a == b

theorem isNull_iff (v : Value) : v.isNull = true ↔ v = .null := by cases v <;> simp [Value.isNull]

end SqlAssembly
