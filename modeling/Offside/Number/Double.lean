/-! Double precision numbers as bit patterns, and their values as exact fractions.

The magnitude of a finite double is `significand * 2 ^ exponent`, both read off the bits. Rounding
goes the other way: `ofRatio` is the double nearest to a fraction of natural numbers, a tie going to
the even significand, and `ofDecimal` applies it to `digits * 10 ^ exponent`. All of it is exact
arithmetic on natural numbers. -/
namespace Offside.Number

/-- Powers of two and of ten. -/
def twoTo (n : Nat) : Nat := Nat.pow 2 n
def tenTo (n : Nat) : Nat := Nat.pow 10 n

structure Double where
  bits : UInt64
  deriving DecidableEq, Repr, Inhabited

namespace Double

/-- Bits of the fraction, and the exponent that its last place has in the smallest numbers. -/
def fractionBits : Nat := 52
def leastExponent : Int := -1074

def infinity : Double := ⟨0x7ff0000000000000⟩

def isNegative (x : Double) : Bool :=
  x.bits.toNat / twoTo 63 == 1

/-- The bits without the sign. -/
def magnitudeBits (x : Double) : Nat :=
  x.bits.toNat % twoTo 63

def exponentField (x : Double) : Nat :=
  x.magnitudeBits / twoTo fractionBits

def fraction (x : Double) : Nat :=
  x.magnitudeBits % twoTo fractionBits

def isFinite (x : Double) : Bool :=
  x.exponentField != 0x7ff

def isNaN (x : Double) : Bool :=
  x.exponentField == 0x7ff && x.fraction != 0

/-- The significand of a finite double; the leading one is implicit above the least exponent. -/
def significand (x : Double) : Nat :=
  if x.exponentField = 0 then x.fraction else x.fraction + twoTo fractionBits

/-- The power of two that one unit of the significand stands for. -/
def exponent (x : Double) : Int :=
  if x.exponentField = 0 then leastExponent else leastExponent + (x.exponentField - 1 : Nat)

/-- Changes the sign. -/
def negate (x : Double) : Double :=
  ⟨x.bits ^^^ 0x8000000000000000⟩

/-- The quotient rounded to the nearest natural number, a tie to the even one. -/
def divNearest (num den : Nat) : Nat :=
  let q := num / den
  let r := num % den
  if 2 * r > den || (2 * r == den && q % 2 == 1) then q + 1 else q

/-- The greatest `e` with `2 ^ e ≤ num / den`, for positive arguments. -/
def floorLog2 (num den : Nat) : Int :=
  let e : Int := (Nat.log2 num : Int) - Nat.log2 den
  let below := if 0 ≤ e then num < den * twoTo e.toNat else num * twoTo (-e).toNat < den
  if below then e - 1 else e

/-- The double nearest to `num / den`. In the chosen unit the rounded significand is added to the
bits of the exponent, so that a carry moves to the next binade and past the last one to infinity. -/
def ofRatio (num den : Nat) : Double :=
  if num = 0 then ⟨0⟩
  else
    let unit := max (floorLog2 num den - fractionBits) leastExponent
    let m := if 0 ≤ unit then divNearest num (den * twoTo unit.toNat)
      else divNearest (num * twoTo (-unit).toNat) den
    let bits := (unit - leastExponent).toNat * twoTo fractionBits + m
    if bits ≥ infinity.bits.toNat then infinity else ⟨UInt64.ofNat bits⟩

/-- The number of decimal digits of a positive number. -/
def decimalLength (n : Nat) : Nat :=
  (Nat.toDigits 10 n).length

/-- The double nearest to `digits * 10 ^ exponent`. Numbers beyond `10 ^ 310` are infinite and
numbers below `10 ^ (-330)` are zero, so no huge power is ever formed. -/
def ofDecimal (digits : Nat) (exponent : Int) : Double :=
  let magnitude := exponent + decimalLength digits
  if digits = 0 then ⟨0⟩
  else if magnitude > 310 then infinity
  else if magnitude < -330 then ⟨0⟩
  else if 0 ≤ exponent then ofRatio (digits * tenTo exponent.toNat) 1
  else ofRatio digits (tenTo (-exponent).toNat)

end Double

end Offside.Number
