import Offside.Types.Assign
import Offside.Tree.Operator

/-! The types that operators give.

`dominant` is the type in which two numbers are combined: floating beats unsigned beats signed, and
among equals the greater rank wins. `binaryResult` and `unaryResult` give the type of an operator's
value from the types of its operands. -/
namespace Offside

inductive TypeFault where
  | unknown (name : String)
  | duplicate (name : String)
  | rebinding (name : String)
  | cycle (chain : String)
  | voidOperand
  | notArithmetic (type : String)
  deriving DecidableEq, Repr

def TypeFault.message : TypeFault → String
  | unknown name => "Unknown type: " ++ name
  | duplicate name => "Type '" ++ name ++ "' is already defined"
  | rebinding name => "Cannot rebind existing type '" ++ name ++ "' with typedef"
  | cycle chain => "Typedef cycle: " ++ chain
  | voidOperand => "Operand of type void used in an arithmetic expression"
  | notArithmetic type => "Type '" ++ type ++ "' is not arithmetic"

namespace ValueType

/-- Enumerations take part with the rank of `int`. -/
def arithmeticRank (t : ValueType) : Nat := t.integralRank.getD 2

/-- The type in which two arithmetic values are combined. -/
def combine (left right : ValueType) : ValueType :=
  if left.isFloating || right.isFloating then
    if same left double || same right double then double else float
  else if left.isUnsigned || right.isUnsigned then
    if left.isUnsigned && !(right.isUnsigned && right.arithmeticRank > left.arithmeticRank) then left
    else right
  else if same left right then left
  else if left.arithmeticRank > right.arithmeticRank then left
  else if left.arithmeticRank < right.arithmeticRank then right
  else int

def dominant (left right : ValueType) : Except TypeFault ValueType :=
  if left.isVoid || right.isVoid then .error .voidOperand
  else if !left.isArithmetic then .error (.notArithmetic left.text)
  else if !right.isArithmetic then .error (.notArithmetic right.text)
  else .ok (combine left right)

/-- Why an operator does not take its operands. -/
inductive OperandFault where
  | void
  | invalid
  | notAssignable
  deriving DecidableEq, Repr

/-- The dominant type of promoted operands. -/
def arithmeticResult (left right : ValueType) : Except OperandFault ValueType :=
  match dominant left.promote right.promote with
  | .ok t => .ok t
  | .error .voidOperand => .error .void
  | .error _ => .error .invalid

/-- Numbers compare with numbers, addresses with addresses they could be assigned from or to. -/
def comparable (left right : ValueType) : Bool :=
  (left.isArithmetic && right.isArithmetic)
    || (left.isPointerLike && right.isPointerLike
      && (matchesOnAssign left.decay right.decay || matchesOnAssign right.decay left.decay))

/-- Sums and differences, also of an address and a whole number; the difference of two addresses
counts elements. -/
def sumResult (op : BinaryOp) (left right : ValueType) : Except OperandFault ValueType :=
  if left.decay.isPointer && right.isIntegerLike then .ok left.decay
  else if op == .add && left.isIntegerLike && right.decay.isPointer then .ok right.decay
  else if op == .sub && left.decay.isPointer && right.decay.isPointer then
    if same left.decay right.decay then .ok long else .error .invalid
  else arithmeticResult left right

def binaryResult (op : BinaryOp) (left right : ValueType) : Except OperandFault ValueType :=
  match op with
  | .logicalAnd | .logicalOr =>
    if left.isTruthy && right.isTruthy then .ok int else .error .invalid
  | .equal | .notEqual | .less | .greater | .lessEqual | .greaterEqual =>
    if comparable left right then .ok int else .error .invalid
  | .add | .sub => sumResult op left right
  | .mul | .div => arithmeticResult left right
  | .mod | .bitAnd | .bitOr | .bitXor =>
    if left.isIntegerLike && right.isIntegerLike then arithmeticResult left right
    else .error .invalid
  | .leftShift | .rightShift =>
    if left.isIntegerLike && right.isIntegerLike then .ok left.promote else .error .invalid

/-- What a star or an index gives: the target of an address that has a type. -/
def target? (t : ValueType) : Option ValueType :=
  match t.decay with
  | pointer inner => if inner.isVoid then none else some inner
  | _ => none

/-- The type of a unary operator's value; `place` says whether the operand can be assigned to. -/
def unaryResult (op : UnaryOp) (place : Bool) (operand : ValueType) :
    Except OperandFault ValueType :=
  match op with
  | .plus | .minus => if operand.isArithmetic then .ok operand.promote else .error .invalid
  | .bitNot => if operand.isIntegerLike then .ok operand.promote else .error .invalid
  | .logicalNot => if operand.isTruthy then .ok int else .error .invalid
  | .addressOf => if place || operand.isFunction then .ok (pointer operand) else .error .invalid
  | .dereference =>
    match operand.target? with
    | some t => .ok t
    | none => .error .invalid
  | .preIncrement | .preDecrement | .postIncrement | .postDecrement =>
    if !place then .error .notAssignable
    else if operand.isArithmetic || operand.isPointer then .ok operand
    else .error .invalid

end ValueType

end Offside
