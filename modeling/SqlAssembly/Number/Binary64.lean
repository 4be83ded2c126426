/-! Binary floating point numbers as their 64 bits. Nothing here uses machine arithmetic on
   floats, so each value is exact and each test reduces in the kernel. -/
namespace SqlAssembly

def powerOfTwo (n : Nat) : Nat := Nat.pow 2 n

structure Binary64 where
  bits : UInt64
  deriving DecidableEq, Repr

namespace Binary64

def isNegative (x : Binary64) : Bool := decide (powerOfTwo 63 ≤ x.bits.toNat)
def biasedExponent (x : Binary64) : Nat := x.bits.toNat / powerOfTwo 52 % powerOfTwo 11
def fraction (x : Binary64) : Nat := x.bits.toNat % powerOfTwo 52

def isNaN (x : Binary64) : Bool := x.biasedExponent == 2047 && x.fraction != 0
def isInfinite (x : Binary64) : Bool := x.biasedExponent == 2047 && x.fraction == 0
def isZero (x : Binary64) : Bool := x.biasedExponent == 0 && x.fraction == 0

/-- A finite number is, up to its sign, significand * 2 ^ exponent. -/
def significand (x : Binary64) : Nat :=
  if x.biasedExponent = 0 then x.fraction else powerOfTwo 52 + x.fraction

def exponent (x : Binary64) : Int := (max x.biasedExponent 1 : Nat) - 1075

/-- Numeric equality: not-a-number differs from everything, itself included, and the two
    zeros are equal. -/
def numericEq (x y : Binary64) : Bool :=
  !x.isNaN && !y.isNaN && (x.bits == y.bits || (x.isZero && y.isZero))

def ofFields (negative : Bool) (biased fraction : Nat) : Binary64 :=
  ⟨UInt64.ofNat ((if negative then powerOfTwo 63 else 0) + biased * powerOfTwo 52 + fraction)⟩

/-- Every 32-bit float is also a 64-bit float; one without a leading bit gets one here, since
    the wider exponent reaches further down. -/
def ofBinary32 (word : UInt32) : Binary64 :=
  let negative := decide (powerOfTwo 31 ≤ word.toNat)
  let biased := word.toNat / powerOfTwo 23 % powerOfTwo 8
  let fraction := word.toNat % powerOfTwo 23
  if biased = 255 then ofFields negative 2047 (fraction * powerOfTwo 29)
  else if biased ≠ 0 then ofFields negative (biased + 896) (fraction * powerOfTwo 29)
  else if fraction = 0 then ofFields negative 0 0
  else
    let top := Nat.log2 fraction
    ofFields negative (top + 874) ((fraction - powerOfTwo top) * powerOfTwo (52 - top))

end Binary64

end SqlAssembly
