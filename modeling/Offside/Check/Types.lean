import Offside.Check.State

/-! From types as written to types.

A name stands for what the table of the current scope says, after the header that declares it has been
read. Behind a pointer an unknown name is taken for a struct still to come; its members are looked up
when they are needed (`completeStruct`). -/
namespace Offside

namespace Check

def resolveName (sources : Sources) (name : String) (l : Location) (behindPointer : Bool) :
    Check ValueType := do
  needType sources name
  let types := (← scope).types
  if types.contains name then
    match types.resolve name with
    | .ok type => return type
    | .error fault => fail (.typeRule fault) l
  else if behindPointer then return .namedStruct name
  else fail (.unknownType name) l

/-- The size of an array: a number if it is constant, else the expression as written. -/
def arraySize (size : Expr) : Check ArraySize := do
  match size.fold (← scope).constants with
  | some n =>
    if n < 0 then fail (.arraySize (.negative n)) size.start
    else return .fixed n.toNat
  | none => return .symbolic size.print

mutual

def resolveWith (sources : Sources) (behindPointer : Bool) : TypeExpr → Check ValueType
  | .name span name => resolveName sources name span.start behindPointer
  | .pointer _ target => do
    let target ← resolveWith sources true target
    return .pointer target
  | .array span element size => do
    let element ← resolveWith sources behindPointer element
    require (!element.isVoid) (.arraySize .voidElements) span.start
    let size ← arraySize size
    return .array element size
  | .function _ params returns => do
    let params ← resolveEach sources params
    let returns ← resolveWith sources false returns
    return .function params returns
  | .vararg _ => return .vararg
termination_by structural t => t

def resolveEach (sources : Sources) : List TypeExpr → Check (List ValueType)
  | [] => return []
  | t :: rest => do
    let first ← resolveWith sources false t
    let more ← resolveEach sources rest
    return first :: more
termination_by structural ts => ts

end

/-- The type that a written type stands for. -/
def resolve (sources : Sources) (t : TypeExpr) : Check ValueType := resolveWith sources false t

/-- A struct known by name only, with the members it has by now. -/
def completeStruct (t : ValueType) (l : Location) : Check ValueType := do
  match t with
  | .struct name [] =>
    let types := (← scope).types
    if types.contains name then
      match types.resolve name with
      | .ok type => return type
      | .error fault => fail (.typeRule fault) l
    else fail (.unknownType name) l
  | other => return other

/-- The name of the type that sizes have. -/
def sizeName : String := "size_t"

/-- The type of sizes, which becomes known when a size is asked for. -/
def sizeType (sources : Sources) : Check ValueType := do
  needType sources sizeName
  match (← scope).types.resolve sizeName with
  | .ok type => return type
  | .error _ => return .uint

end Check

end Offside
