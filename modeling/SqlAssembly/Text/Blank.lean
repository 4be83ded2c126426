/-! Blank characters are the 25 code points that Unicode gives the White_Space property.
   Texts are taken apart as character lists. -/
namespace SqlAssembly

def blankRanges : List (Nat × Nat) :=
  [(0x09, 0x0D), (0x20, 0x20), (0x85, 0x85), (0xA0, 0xA0), (0x1680, 0x1680), (0x2000, 0x200A),
   (0x2028, 0x2029), (0x202F, 0x202F), (0x205F, 0x205F), (0x3000, 0x3000)]

def isBlank (c : Char) : Bool := blankRanges.any fun r => r.1 ≤ c.toNat && c.toNat ≤ r.2

def trimStart (cs : List Char) : List Char := cs.dropWhile isBlank

def trimEnd (cs : List Char) : List Char := (cs.reverse.dropWhile isBlank).reverse

def trim (cs : List Char) : List Char := trimEnd (trimStart cs)

/-- The two parts around the last blank, which belongs to neither. -/
def splitLastBlank? : List Char → Option (List Char × List Char)
  | [] => none
  | c :: cs =>
    match splitLastBlank? cs with
    | some (head, last) => some (c :: head, last)
    | none => if isBlank c then some ([], cs) else none

/-- A text is blank when nothing is left after trimming, so the empty text is blank. -/
def blankText (s : String) : Bool := s.toList.all isBlank

/-- Equality up to the case of the letters A to Z; all other characters count as they are. -/
def sameLetters (a b : List Char) : Bool := a.map Char.toLower == b.map Char.toLower

end SqlAssembly
