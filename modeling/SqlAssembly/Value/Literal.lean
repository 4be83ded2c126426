import SqlAssembly.Number.Shortest
import SqlAssembly.Text.Quoted
import SqlAssembly.Value

/-! Values written into SQL text. Every dialect here reads these spellings. -/
namespace SqlAssembly

/-- Two upper-case digits for each byte. -/
def hexDigits (byte : UInt8) : List Char :=
  [(Nat.digitChar (byte.toNat / 16)).toUpper, (Nat.digitChar (byte.toNat % 16)).toUpper]

def Value.literal : Value → List Char
  | .null => "NULL".toList
  | .bool true => "TRUE".toList
  | .bool false => "FALSE".toList
  | .int n => signedDigits n
  | .float x => x.text
  | .text s => enclosed '\'' s.toList
  | .blob bytes => 'X' :: '\'' :: (bytes.flatMap hexDigits ++ ['\''])

end SqlAssembly
