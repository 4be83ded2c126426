import SqlAssembly.Number.Binary64
import SqlAssembly.Number.Decimal

/-! The shortest decimal that reads back as a given float. The reals that round to the float
   form an interval. The coarsest decimal grid with a point in that interval is the one with
   the fewest digits, and of its two points around the float the nearer one is taken. -/
namespace SqlAssembly

/-- The interval and the float itself, as numerators over one denominator. -/
structure RoundingInterval where
  low : Nat
  middle : Nat
  high : Nat
  denominator : Nat
  closed : Bool
  deriving DecidableEq, Repr

/-- The ends lie half way to the neighbouring floats. Below a power of two the neighbours are
    twice as dense. The ends round to the float when its significand is even. -/
def Binary64.interval (x : Binary64) : RoundingInterval :=
  let below := if x.fraction = 0 ∧ 1 < x.biasedExponent then 1 else 2
  let scale := powerOfTwo (x.exponent - 2).toNat
  { low := (4 * x.significand - below) * scale
    middle := 4 * x.significand * scale
    high := (4 * x.significand + 2) * scale
    denominator := powerOfTwo (2 - x.exponent).toNat
    closed := x.significand % 2 == 0 }

namespace RoundingInterval

/-- The point k * 10 ^ e lies in the interval. -/
def contains (r : RoundingInterval) (e : Int) (k : Nat) : Bool :=
  let shift := powerOfTen (-e).toNat
  let point := k * (r.denominator * powerOfTen e.toNat)
  if r.closed then decide (r.low * shift ≤ point) && decide (point ≤ r.high * shift)
  else decide (r.low * shift < point) && decide (point < r.high * shift)

/-- The better of the two points of the grid 10 ^ e around the middle, when one lies in the
    interval. Half way between them the upper point is taken. -/
def pick? (r : RoundingInterval) (e : Int) : Option Nat :=
  let step := r.denominator * powerOfTen e.toNat
  let middle := r.middle * powerOfTen (-e).toNat
  let under := middle / step
  match r.contains e under, r.contains e (under + 1) with
  | true, true => some (if 2 * (middle % step) < step then under else under + 1)
  | true, false => some under
  | false, true => some (under + 1)
  | false, false => none

/-- Grids from 10 ^ (n - 324) down to 10 ^ (-324), which is finer than every interval. -/
def coarsest (r : RoundingInterval) : Nat → Decimal
  | 0 => ⟨(r.pick? (-324)).getD 0, -324⟩
  | n + 1 =>
    match r.pick? (n + 1 - 324) with
    | some k => ⟨k, n + 1 - 324⟩
    | none => r.coarsest n

end RoundingInterval

/-- No finite float reaches 10 ^ 309, so the search starts at 10 ^ 308. -/
def Binary64.shortest (x : Binary64) : Decimal :=
  if x.isZero then ⟨0, 0⟩ else x.interval.coarsest (308 + 324)

/-- A sign is kept also on zero and infinity, but not on what is no number. -/
def Binary64.text (x : Binary64) : List Char :=
  if x.isNaN then "NaN".toList
  else
    let magnitude := if x.isInfinite then "inf".toList else x.shortest.positional
    if x.isNegative then '-' :: magnitude else magnitude

end SqlAssembly
