/-! Quoted text: a delimiter stands at both ends, and where the text holds the delimiter it is
   written twice. SQL spells names and string literals this way. -/
namespace SqlAssembly

/-- The text with every delimiter written twice. -/
def doubled (q : Char) : List Char → List Char
  | [] => []
  | c :: cs => if c = q then q :: q :: doubled q cs else c :: doubled q cs

def enclosed (q : Char) (cs : List Char) : List Char := q :: (doubled q cs ++ [q])

theorem doubled_append (q : Char) (a b : List Char) :
    doubled q (a ++ b) = doubled q a ++ doubled q b := by
  induction a with
  | nil => rfl
  | cons c a ih => by_cases h : c = q <;> simp [doubled, h, ih]

end SqlAssembly
