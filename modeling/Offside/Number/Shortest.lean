import Offside.Number.Double

/-! The written form of a double: the fewest digits that read back.

A decimal reads back as `x` when it lies between the midpoints to the neighbours of `x`, the
midpoints themselves included if the significand is even. `shortest` walks decimal grids from coarse
to fine and stops at the first one with a point in that interval; of two points the nearer one is
taken, and of two equally near ones the greater. `Double.text` writes such a decimal positionally
from `10 ^ (-4)` up to below `10 ^ 16` and with an exponent elsewhere. -/
namespace Offside.Number

namespace Double

/-- The interval around a positive double in units of a quarter of its last place. The gap below a
power of two is half as wide, unless the numbers below it are as dense as those above. -/
def lowQuarters (x : Double) : Nat :=
  let m := x.significand
  if x.fraction = 0 && 1 < x.exponentField then 4 * m - 1 else 4 * m - 2

def highQuarters (x : Double) : Nat :=
  4 * x.significand + 2

/-- The point of the grid of multiples of `10 ^ k` that reads back as `x`, in units of the grid. -/
def gridPoint (x : Double) (k : Int) : Option Nat :=
  let quarter := x.exponent - 2
  let scale := twoTo quarter.toNat * tenTo (-k).toNat
  let unit := twoTo (-quarter).toNat * tenTo k.toNat
  let value := 4 * x.significand * scale
  let low := x.lowQuarters * scale
  let high := x.highQuarters * scale
  let closed := x.significand % 2 == 0
  let a := value / unit
  let downFits := low < a * unit || (closed && low == a * unit)
  let upFits := (a + 1) * unit < high || (closed && (a + 1) * unit == high)
  if upFits && (!downFits || 2 * (value % unit) ≥ unit) then some (a + 1)
  else if downFits then some a
  else none

/-- The first hit on grids from `10 ^ k` down, at most `fuel` of them. -/
def firstGridPoint (x : Double) : Nat → Int → Nat × Int
  | 0, k => (0, k)
  | fuel + 1, k =>
    match x.gridPoint k with
    | some n => (n, k)
    | none => firstGridPoint x fuel (k - 1)

/-- A power of ten above the double. -/
def aboveExponent (x : Double) : Int :=
  let binary : Int := Nat.log2 x.significand + 1 + x.exponent
  if 0 ≤ binary then binary * 31 / 100 + 1 else 1 - -binary * 3 / 10

/-- Digits `n` and exponent `k` of the shortest decimal `n * 10 ^ k` for a positive finite double. -/
def shortest (x : Double) : Nat × Int :=
  x.firstGridPoint 64 x.aboveExponent

/-- A decimal written without an exponent, with at least one digit on both sides of the point. -/
def positional (digits : List Char) (k : Int) : String :=
  if 0 ≤ k then String.ofList (digits ++ List.replicate k.toNat '0') ++ ".0"
  else
    let places := (-k).toNat
    let padded := List.replicate (places + 1 - digits.length) '0' ++ digits
    let whole := padded.length - places
    String.ofList (padded.take whole) ++ "." ++ String.ofList (padded.drop whole)

/-- A decimal written with one digit before the point, and no point if no digit follows. -/
def scientific (digits : List Char) (k : Int) : String :=
  let power := k + (digits.length - 1 : Nat)
  let sign := if power < 0 then "-" else ""
  let tail := match digits.drop 1 with
    | [] => ""
    | more => "." ++ String.ofList more
  String.ofList (digits.take 1) ++ tail ++ "e" ++ sign ++ Nat.repr power.natAbs

def magnitudeText (x : Double) : String :=
  if x.isNaN then "NaN"
  else if !x.isFinite then "inf"
  else if x.significand = 0 then "0.0"
  else
    let (n, k) := x.shortest
    let digits := Nat.toDigits 10 n
    let power := k + (digits.length - 1 : Nat)
    if -4 ≤ power && power < 16 then positional digits k else scientific digits k

/-- The written form of a double. A NaN has no sign. -/
def text (x : Double) : String :=
  if x.isNegative && !x.isNaN then "-" ++ x.magnitudeText else x.magnitudeText

end Double

end Offside.Number
