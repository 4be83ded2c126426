import SqlAssembly.Value.Literal

/-! Arguments written into the text of a statement, for reading only. The text is cut into
   tokens once, so a literal that was put in is never looked at again. -/
namespace SqlAssembly

inductive Token where
  /-- A single-quoted run; it is unclosed when the text ends in it -/
  | quoted : List Char → Bool → Token
  | mark : Token
  /-- A dollar sign and the digits after it -/
  | numbered : List Char → Token
  | other : Char → Token
  deriving DecidableEq, Repr

namespace Token

def chars : Token → List Char
  | .quoted body closed => '\'' :: body ++ if closed then ['\''] else []
  | .mark => ['?']
  | .numbered ds => '$' :: ds
  | .other c => [c]

/-- Inside a run, the characters read so far stand last first. -/
inductive Mode where
  | plain : Mode
  | quote : List Char → Mode
  | dollar : List Char → Mode
  deriving DecidableEq, Repr

def ofDollar (ds : List Char) : Token := if ds = [] then .other '$' else .numbered ds

def start (c : Char) : List Token × Mode :=
  if c = '\'' then ([], .quote [])
  else if c = '$' then ([], .dollar [])
  else if c = '?' then ([.mark], .plain)
  else ([.other c], .plain)

def scanFrom : Mode → List Char → List Token
  | .plain, [] => []
  | .quote body, [] => [.quoted body.reverse false]
  | .dollar ds, [] => [ofDollar ds.reverse]
  | .plain, c :: cs => (start c).1 ++ scanFrom (start c).2 cs
  | .quote body, c :: cs =>
    if c = '\'' then .quoted body.reverse true :: scanFrom .plain cs
    else scanFrom (.quote (c :: body)) cs
  | .dollar ds, c :: cs =>
    if c.isDigit then scanFrom (.dollar (c :: ds)) cs
    else ofDollar ds.reverse :: ((start c).1 ++ scanFrom (start c).2 cs)

def scan (cs : List Char) : List Token := scanFrom .plain cs

end Token

def numeral (ds : List Char) : Nat := ds.foldl (fun n c => 10 * n + (c.toNat - '0'.toNat)) 0

/-- The argument with the given number, counting from one. -/
def argument? (values : List Value) : Nat → Option Value
  | 0 => none
  | n + 1 => values[n]?

def literalOr (text : List Char) : Option Value → List Char
  | some v => v.literal
  | none => text

/-- Marks take the arguments in turn, numbered placeholders by number. A placeholder without an
    argument stays as it is, and a mark without one still counts. -/
def substitute (values : List Value) : Nat → List Token → List Char
  | _, [] => []
  | turn, t :: ts =>
    match t with
    | .mark => literalOr t.chars values[turn]? ++ substitute values (turn + 1) ts
    | .numbered ds => literalOr t.chars (argument? values (numeral ds)) ++ substitute values turn ts
    | _ => t.chars ++ substitute values turn ts

/-- The text of a statement with its arguments in place of the placeholders. -/
def interpolate (sql : String) (values : List Value) : String :=
  String.ofList (substitute values 0 (Token.scan sql.toList))

namespace Token

def Mode.pending : Mode → List Char
  | .plain => []
  | .quote body => '\'' :: body.reverse
  | .dollar ds => '$' :: ds.reverse

theorem ofDollar_chars (ds : List Char) : (ofDollar ds).chars = '$' :: ds := by
  by_cases h : ds = [] <;> simp [ofDollar, chars, h]

theorem start_chars (c : Char) : (start c).1.flatMap chars ++ (start c).2.pending = [c] := by
  simp only [start]
  split
  · rename_i h; subst h; rfl
  · split
    · rename_i h; subst h; rfl
    · split
      · rename_i h; subst h; rfl
      · simp [Mode.pending, chars]

/-- No character is lost between the tokens. -/
theorem scanFrom_chars (m : Mode) (cs : List Char) :
    (scanFrom m cs).flatMap chars = m.pending ++ cs := by
  induction cs generalizing m with
  | nil =>
    cases m with
    | plain => rfl
    | quote body => simp [scanFrom, Mode.pending, chars]
    | dollar ds => simp [scanFrom, Mode.pending, ofDollar_chars]
  | cons c cs ih =>
    have first := start_chars c
    cases m with
    | plain =>
      rw [scanFrom, List.flatMap_append, ih, ← List.append_assoc, first]
      rfl
    | quote body =>
      by_cases h : c = '\'' <;> simp [scanFrom, h, ih, Mode.pending, chars]
    | dollar ds =>
      by_cases h : c.isDigit
      · simp [scanFrom, h, ih, Mode.pending]
      · simp only [scanFrom, h, Bool.false_eq_true, ↓reduceIte, List.flatMap_cons, ofDollar_chars,
          List.flatMap_append, ih]
        rw [← List.append_assoc _ _ cs, first]
        rfl

theorem scan_chars (cs : List Char) : (scan cs).flatMap chars = cs := scanFrom_chars .plain cs

end Token

end SqlAssembly
