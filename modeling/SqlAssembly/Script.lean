import SqlAssembly.BuildError
import SqlAssembly.Value

/-! A script is what a statement writes, piece by piece, before a dialect spells the names and
   the placeholders. A failure is a piece too, so what stands before it is still written. -/
namespace SqlAssembly

inductive Piece where
  | text : String → Piece
  /-- A name whose dots separate its segments -/
  | qualified : String → Piece
  /-- A name whose dots are part of it -/
  | column : String → Piece
  /-- Text in which every question mark stands for an argument -/
  | fragment : String → List Value → Piece
  /-- The rest exists only where the dialect has the feature -/
  | need : Feature → Piece
  | fail : BuildError → Piece
  deriving DecidableEq, Repr

abbrev Script := List Piece

namespace Script

def argument (v : Value) : Script := [.fragment "?" [v]]

def separated (separator : String) : List Script → Script
  | [] => []
  | [s] => s
  | s :: t :: rest => s ++ .text separator :: separated separator (t :: rest)

def names (ns : List String) : Script := separated ", " (ns.map fun n => [.qualified n])

def parenthesized (s : Script) : Script := .text "(" :: s ++ [.text ")"]

/-- A failure inside a nested query is reported as such. Queries ask for no feature, so nothing
   else changes. -/
def nestedPiece : Piece → Piece
  | .fail e => .fail (.subquery e)
  | p => p

def nested (s : Script) : Script := parenthesized (s.map nestedPiece)

end Script

end SqlAssembly
