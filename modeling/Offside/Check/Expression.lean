import Offside.Check.Types

/-! The types of expressions.

Checking an expression gives it back with a type on every node, and the type of the whole. Operands are
checked from left to right, then the operator. -/
namespace Offside

/-- Whether a value may fill an array of another length: so do texts and lists of items. -/
def Expr.origin (e : Expr) : ValueOrigin := if e.fillsArray then .literal else .value

/-- The parameters and the result of what can be called: a function, or the address of one. -/
def ValueType.callable? : ValueType → Option (List ValueType × ValueType)
  | .function params returns => some (params, returns)
  | .pointer (.function params returns) => some (params, returns)
  | _ => none

/-- The parameters without the dots at the end, and whether there are any. -/
def splitVararg (params : List ValueType) : List ValueType × Bool :=
  if params.getLast?.any ValueType.isVararg then (params.dropLast, true) else (params, false)

namespace Check

def binary (op : BinaryOp) (left right : ValueType) (l : Location) : Check ValueType :=
  match ValueType.binaryResult op left right with
  | .ok type => return type
  | .error .void => fail (.typeRule .voidOperand) l
  | .error _ => fail (.operands op.text left right) l

def unary (op : UnaryOp) (place : Bool) (operand : ValueType) (l : Location) : Check ValueType :=
  match ValueType.unaryResult op place operand with
  | .ok type => return type
  | .error .notAssignable => fail (.notAssignable (.operand op.text)) l
  | .error _ => fail (.operand op.name operand) l

/-- The type of a member of a struct, or of the struct behind a pointer. -/
def memberType (object : ValueType) (member : String) (arrow : Bool) (l : Location) :
    Check ValueType := do
  let target := match arrow, object with
    | true, .pointer inner => some inner
    | true, _ => none
    | false, _ => some object
  match target with
  | some (.struct name members) =>
    let struct ← completeStruct (.struct name members) l
    match struct.member member with
    | some type => return type
    | none => fail (.noMember struct.text member) l
  | _ => fail (.notAStruct (if arrow then "->" else ".") object) l

/-- How messages call what is called. -/
def calleeName : Expr → String
  | .name _ name => name
  | _ => "expression"

/-- An expression with its type. -/
def given (e : Expr) (type : ValueType) : Expr × ValueType := (e.typed type, type)

mutual

/-- An expression with types on all nodes, and its own. -/
def typed (sources : Sources) : Expr → Check (Expr × ValueType)
  | .int m value => return given (.int m value) .int
  | .float m value => return given (.float m value) .float
  | .char m value => return given (.char m value) .char
  | .string m value => return given (.string m value) (.ofString value)
  | .null m => return given (.null m) .null
  | .name m name => do
    match ← lookup sources name with
    | some type => return given (.name m name) type
    | none => fail (.undefinedName name) m.span.start
  | .array m items => do
    let (items, element) ← arrayItems sources none items
    match element with
    | some element =>
      return given (.array m items) (.array element (.fixed items.length))
    | none => fail (.arraySize .noElements) m.span.start
  | .binary m op left right => do
    let (left, leftType) ← typed sources left
    let (right, rightType) ← typed sources right
    return given (.binary m op left right) (← binary op leftType rightType m.span.start)
  | .unary m op operand => do
    let (operand, operandType) ← typed sources operand
    return given (.unary m op operand) (← unary op operand.isPlace operandType m.span.start)
  | .call m callee arguments => do
    let (callee, calleeType) ← typed sources callee
    match calleeType.callable? with
    | none => fail (.notCallable calleeType) m.span.start
    | some (params, returns) =>
      let (fixed, variadic) := splitVararg params
      let enough :=
        if variadic then fixed.length ≤ arguments.length else arguments.length = fixed.length
      require enough
        (.argumentCount (calleeName callee) variadic fixed.length arguments.length) m.span.start
      let arguments ← callArguments sources (calleeName callee) 1 fixed arguments
      return given (.call m callee arguments) returns
  | .index m object position => do
    let (object, objectType) ← typed sources object
    let (position, positionType) ← typed sources position
    match objectType.target? with
    | none => fail (.operand "[]" objectType) m.span.start
    | some element =>
      require positionType.isIntegerLike (.operand "[]" positionType) position.start
      return given (.index m object position) element
  | .member m object member arrow => do
    let (object, objectType) ← typed sources object
    return given (.member m object member arrow)
      (← memberType objectType member arrow m.span.start)
  | .cast m target operand => do
    let targetType ← resolve sources target
    let (operand, operandType) ← typed sources operand
    require (ValueType.canCast operandType targetType) (.cast operandType targetType) m.span.start
    return given (.cast m target operand) targetType
  | .sizeof m target => do
    let _ ← resolve sources target
    return given (.sizeof m target) (← sizeType sources)
termination_by structural e => e

/-- The items of an array, each of which has to fit the type of the first. -/
def arrayItems (sources : Sources) (element : Option ValueType) :
    List Expr → Check (List Expr × Option ValueType)
  | [] => return ([], element)
  | e :: rest => do
    let (item, type) ← typed sources e
    match element with
    | none =>
      let (more, element) ← arrayItems sources (some type) rest
      return (item :: more, element)
    | some expected =>
      require (ValueType.canAssign e.origin expected type) (.mismatch .arrayItem expected type)
        item.start
      let (more, element) ← arrayItems sources (some expected) rest
      return (item :: more, element)
termination_by structural es => es

/-- The arguments of a call from the given number on. Those without a parameter only have to be
values. -/
def callArguments (sources : Sources) (callee : String) (number : Nat) (params : List ValueType) :
    List Expr → Check (List Expr)
  | [] => return []
  | e :: rest => do
    let (argument, type) ← typed sources e
    match params with
    | param :: _ =>
      require (ValueType.canAssign e.origin param type)
        (.mismatch (.argument number callee) param type) argument.start
    | [] => require (!type.isVoid) (.operand "..." type) argument.start
    let more ← callArguments sources callee (number + 1) params.tail rest
    return argument :: more
termination_by structural es => es

end

end Check

end Offside
