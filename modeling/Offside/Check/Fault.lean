import Offside.Files
import Offside.Types.Table

/-! What can be wrong with the meaning of a program. -/
namespace Offside

/-- Statements that are not allowed everywhere. -/
inductive Placement where
  | definition
  | result
  | leave
  | includeFile
  deriving DecidableEq, Repr

def Placement.statement : Placement → String
  | definition => "def"
  | result => "return"
  | leave => "break"
  | includeFile => "include"

def Placement.place : Placement → String
  | definition | includeFile => "at the top level"
  | result => "inside a function"
  | leave => "inside a loop or switch"

/-- Why further arguments are not announced properly. -/
inductive VarargFault where
  | notLast
  | alone

def VarargFault.message : VarargFault → String
  | notLast => "'...' must be the last parameter"
  | alone => "'...' needs at least one named parameter before it"

/-- How a definition differs from what was announced. -/
inductive SignatureFault where
  | whole (previous found : ValueType)
  | arity (expected found : Nat)
  | parameter (name : Option String) (found declared : ValueType)
  | result (found declared : ValueType)

def SignatureFault.message : SignatureFault → String
  | whole previous found => "declared as " ++ previous.text ++ ", found " ++ found.text
  | arity expected found =>
    "expected " ++ Nat.repr expected ++ " parameters, found " ++ Nat.repr found
  | parameter name found declared =>
    let what := match name with
      | some n => "parameter '" ++ n ++ "'"
      | none => "'...'"
    what ++ " has type " ++ found.text ++ ", declared as " ++ declared.text
  | result found declared => "returns " ++ found.text ++ ", declared as " ++ declared.text

/-- Why an array has no size. -/
inductive SizeFault where
  | voidElements
  | negative (size : Int)
  | noElements

def SizeFault.message : SizeFault → String
  | voidElements => "array elements cannot be void"
  | negative size => Number.decimal size ++ " is negative"
  | noElements => "array literal is empty"

/-- Why a struct has no layout. -/
inductive StructFault where
  | voidField (field : String)
  | containsItself

def StructFault.message : StructFault → String
  | voidField field => "field '" ++ field ++ "' cannot have type void"
  | containsItself => "cannot contain itself"

/-- Where a value does not have the type it should. -/
inductive Setting where
  | initialization (name : String)
  | assignmentTo (name : String)
  | assignment
  | argument (number : Nat) (function : String)
  | result (function : String)
  | caseLabel
  | arrayItem

def Setting.text : Setting → String
  | initialization name => "initialization of '" ++ name ++ "'"
  | assignmentTo name => "assignment to '" ++ name ++ "'"
  | assignment => "assignment"
  | argument number function => "argument " ++ Nat.repr number ++ " of '" ++ function ++ "'"
  | result function => "return value of '" ++ function ++ "'"
  | caseLabel => "case label"
  | arrayItem => "array literal"

/-- What cannot be assigned to. -/
inductive FixedThing where
  | named (name : String) (type : ValueType)
  | value (type : ValueType)
  | operand (operator : String)

def FixedThing.text : FixedThing → String
  | named name type => "'" ++ name ++ "' of type " ++ type.text
  | value type => "a value of type " ++ type.text
  | operand operator => "the operand of '" ++ operator ++ "'"

inductive SemanticFault where
  | undefinedName (name : String)
  | unknownType (name : String)
  | typeRule (fault : TypeFault)
  | mismatch (setting : Setting) (expected found : ValueType)
  | redeclared (name : String) (previous found : ValueType)
  | cannotInfer (name : String) (found : ValueType)
  | redefined (function : String)
  | notAFunction (name : String) (previous : ValueType)
  | signature (name : String) (fault : SignatureFault)
  | untypedParameter (function param : String)
  | duplicateParameter (function param : String)
  | vararg (function : String) (fault : VarargFault)
  | argumentCount (function : String) (least : Bool) (expected found : Nat)
  | notCallable (found : ValueType)
  | operand (operator : String) (found : ValueType)
  | operands (operator : String) (left right : ValueType)
  | notAssignable (thing : FixedThing)
  | noMember (type member : String)
  | notAStruct (operator : String) (found : ValueType)
  | notTestable (context : String) (found : ValueType)
  | cast (source target : ValueType)
  | arraySize (fault : SizeFault)
  | struct (name : String) (fault : StructFault)
  | misplaced (placement : Placement)
  | includeMissing (path : String)
  | includeCycle (chain : List Path)
  | unreadable (path : Path) (fault : ReadFault)

def SemanticFault.message : SemanticFault → String
  | undefinedName name => "Undefined name '" ++ name ++ "'"
  | unknownType name => "Unknown type '" ++ name ++ "'"
  | typeRule fault => fault.message
  | mismatch setting expected found =>
    "Type mismatch in " ++ setting.text ++ ": expected " ++ expected.text ++ ", found " ++ found.text
  | redeclared name previous found =>
    "'" ++ name ++ "' redeclared as " ++ found.text ++ ", previously declared as " ++ previous.text
  | cannotInfer name found =>
    "Cannot infer the type of '" ++ name ++ "' from a value of type " ++ found.text
  | redefined function => "Function '" ++ function ++ "' is already defined"
  | notAFunction name previous =>
    "'" ++ name ++ "' is already declared as " ++ previous.text ++ ", not as a function"
  | signature name fault =>
    "Definition of '" ++ name ++ "' does not match its declaration: " ++ fault.message
  | untypedParameter function param =>
    "Parameter '" ++ param ++ "' of '" ++ function ++ "' needs a type annotation"
  | duplicateParameter function param =>
    "Duplicate parameter '" ++ param ++ "' in '" ++ function ++ "'"
  | vararg function fault =>
    "Invalid variadic parameters in '" ++ function ++ "': " ++ fault.message
  | argumentCount function least expected found =>
    "'" ++ function ++ "' expects " ++ (if least then "at least " else "") ++ Nat.repr expected
      ++ " arguments, found " ++ Nat.repr found
  | notCallable found => "Value of type " ++ found.text ++ " is not callable"
  | operand operator found =>
    "Invalid operand of type " ++ found.text ++ " for '" ++ operator ++ "'"
  | operands operator left right =>
    "Invalid operands " ++ left.text ++ " and " ++ right.text ++ " for '" ++ operator ++ "'"
  | notAssignable thing => "Cannot assign to " ++ thing.text
  | noMember type member => "Type " ++ type ++ " has no member '" ++ member ++ "'"
  | notAStruct operator found =>
    "Member access '" ++ operator ++ "' on non-struct type " ++ found.text
  | notTestable context found =>
    "Condition of " ++ context ++ " has type " ++ found.text ++ ", which cannot be tested"
  | cast source target => "Cannot cast " ++ source.text ++ " to " ++ target.text
  | arraySize fault => "Invalid array size: " ++ fault.message
  | struct name fault => "Struct '" ++ name ++ "' " ++ fault.message
  | misplaced placement =>
    "'" ++ placement.statement ++ "' is only allowed " ++ placement.place
  | includeMissing path => "Cannot find include '" ++ path ++ "'"
  | includeCycle chain => "Include cycle: " ++ String.intercalate " -> " (chain.map Path.text)
  | unreadable path fault => "Cannot read '" ++ path.text ++ "': " ++ fault.message

end Offside
