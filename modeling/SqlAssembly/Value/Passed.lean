import SqlAssembly.Value

/-! What a caller can pass as a value. Whole numbers of every width become one kind of value, and
   what is not there becomes NULL. -/
namespace SqlAssembly

/-- A float of 32 bits is given by its bits. -/
inductive Passed where
  | ready : Value → Passed
  | bool : Bool → Passed
  | int8 : Int8 → Passed
  | int16 : Int16 → Passed
  | int32 : Int32 → Passed
  | int64 : Int64 → Passed
  | uint8 : UInt8 → Passed
  | uint16 : UInt16 → Passed
  | uint32 : UInt32 → Passed
  | float32 : UInt32 → Passed
  | float64 : Binary64 → Passed
  | text : String → Passed
  | bytes : List UInt8 → Passed
  | absent : Passed
  | present : Passed → Passed

namespace Passed

def value : Passed → Value
  | .ready v => v
  | .bool b => .bool b
  | .int8 n => .int n.toInt
  | .int16 n => .int n.toInt
  | .int32 n => .int n.toInt
  | .int64 n => .int n.toInt
  | .uint8 n => .int n.toNat
  | .uint16 n => .int n.toNat
  | .uint32 n => .int n.toNat
  | .float32 word => .float (.ofBinary32 word)
  | .float64 x => .float x
  | .text s => .text s
  | .bytes b => .blob b
  | .absent => .null
  | .present p => p.value

/-- NULL itself, or something absent, however often it is called present. -/
inductive IsNull : Passed → Prop where
  | ready : IsNull (.ready .null)
  | absent : IsNull .absent
  | present {p : Passed} : IsNull p → IsNull (.present p)

end Passed

theorem value_eq_null_iff (p : Passed) : p.value = .null ↔ p.IsNull := by
  constructor
  · intro null
    induction p with
    | ready v =>
      cases null
      exact .ready
    | absent => exact .absent
    | present p ih => exact .present (ih null)
    | _ => cases null
  · intro null
    induction null with
    | ready => rfl
    | absent => rfl
    | present _ ih => exact ih

end SqlAssembly
