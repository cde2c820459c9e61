import Offside.Names
import Offside.Tree.Basic

/-! Values of constant expressions.

Whole numbers, characters and names of known value are combined with the operators of the language, in
words of 64 bits. Where the result does not fit a word, or a division has none, the expression counts as
not constant. Bits shifted out on the left are lost. -/
namespace Offside

open Number

/-- A result, if it fits a word. -/
def word? (n : Int) : Option Int := if fitsWord n then some n else none

/-- Bit by bit, on words. -/
def onBits (f : BitVec 64 → BitVec 64 → BitVec 64) (l r : Int) : Int :=
  (f (BitVec.ofInt 64 l) (BitVec.ofInt 64 r)).toInt

/-- The distance of a shift: less than the width of a word. -/
def shiftDistance? (r : Int) : Option Nat :=
  if 0 ≤ r && r < 64 then some r.toNat else none

def ofTruth (b : Bool) : Int := if b then 1 else 0

def BinaryOp.apply (op : BinaryOp) (l r : Int) : Option Int :=
  match op with
  | .add => word? (l + r)
  | .sub => word? (l - r)
  | .mul => word? (l * r)
  | .div => if r = 0 then none else word? (l.tdiv r)
  | .mod => if r = 0 || (l = wordMin && r = -1) then none else some (l.tmod r)
  | .bitAnd => some (onBits (· &&& ·) l r)
  | .bitOr => some (onBits (· ||| ·) l r)
  | .bitXor => some (onBits (· ^^^ ·) l r)
  | .leftShift => (shiftDistance? r).map fun n => ((BitVec.ofInt 64 l).shiftLeft n).toInt
  | .rightShift => (shiftDistance? r).map fun n => l.shiftRight n
  | .logicalAnd => some (ofTruth (l != 0 && r != 0))
  | .logicalOr => some (ofTruth (l != 0 || r != 0))
  | .equal => some (ofTruth (l == r))
  | .notEqual => some (ofTruth (l != r))
  | .less => some (ofTruth (l < r))
  | .greater => some (ofTruth (l > r))
  | .lessEqual => some (ofTruth (l ≤ r))
  | .greaterEqual => some (ofTruth (l ≥ r))

def UnaryOp.apply (op : UnaryOp) (n : Int) : Option Int :=
  match op with
  | .plus => some n
  | .minus => word? (-n)
  | .bitNot => some (-n - 1)
  | .logicalNot => some (ofTruth (n == 0))
  | _ => none

/-- The value of a constant expression, given the values of names. -/
def Expr.fold (constants : Dictionary Int) : Expr → Option Int
  | .int _ value => some value
  | .char _ value => some value.toNat
  | .name _ n => constants.get? n
  | .unary _ op operand => do op.apply (← operand.fold constants)
  | .binary _ op left right => do
    let l ← left.fold constants
    let r ← right.fold constants
    op.apply l r
  | _ => none
termination_by structural e => e

end Offside
