import Offside.Types.Basic

/-! Which values may be stored where.

`matchesOnAssign` is the rule for a name that already has a type; `canAssign` is the wider rule for
initial values, arguments, results and members; `canCast` is the rule for explicit conversions. -/
namespace Offside

/-- How a value reached the place it is stored in. -/
inductive ValueOrigin where
  /-- An array or string literal written there. -/
  | literal
  | value
  deriving DecidableEq, Repr

namespace ValueType

/-- Same types, `NULL` for any pointer, and an untyped pointer on either side of a pointer. -/
def matchesOnAssign (target value : ValueType) : Bool :=
  same target value || (target.isPointer && value.isNull)
    || (target.isPointer && value.isPointer && (target.isVoidPointer || value.isVoidPointer))

/-- A literal may be shorter than the array it fills; sizes that are no constants are not compared. -/
def sizeFits : ArraySize → ArraySize → Bool
  | .fixed capacity, .fixed length => length ≤ capacity
  | _, _ => true

/-- Whether a value of one type may be stored as another without a cast. -/
def canAssign (origin : ValueOrigin) : ValueType → ValueType → Bool
  | array t m, array v n =>
    matchesOnAssign (array t m) (array v n)
      || (origin == .literal && sizeFits m n && canAssign origin t v)
  | pointer t, array v n =>
    matchesOnAssign (pointer t) (array v n) || matchesOnAssign t v || t.isVoid
  | pointer t, function ps r =>
    matchesOnAssign (pointer t) (function ps r) || same t (function ps r)
  | t, v =>
    matchesOnAssign t v || (t.isIntegral && v.isIntegral) || (t.isFloating && v.isFloating)

/-- Numbers convert to numbers, whatever looks like an address or a whole number to a pointer,
pointers to whole numbers, and everything to `void`. -/
def canCast (source target : ValueType) : Bool :=
  same source target || target.isVoid || (source.isArithmetic && target.isArithmetic)
    || if target.isPointer then source.isPointerLike || source.isFunction || source.isIntegerLike
      else source.isPointer && target.isIntegerLike

end ValueType

end Offside
