import Offside.Number.Decimal

/-! The types that values have.

A `ValueType` is a scalar, a pointer, an array, a struct or a function. Scalars are the eight built
into the language, the type of `NULL`, the marker for further arguments, and enumerations by name.
Two types are the same (`ValueType.same`) when they are built alike from the same scalars and structs;
a struct is told by its name alone, so a type may carry its members or leave them to be looked up. -/
namespace Offside

inductive Scalar where
  | void | char | int | uint | long | ulong | float | double
  /-- The type of `NULL`. -/
  | null
  /-- Stands at the end of the parameters of a function that takes further arguments. -/
  | vararg
  | enum (name : String)
  deriving DecidableEq, Repr

namespace Scalar

/-- The scalars every program starts with. -/
def builtin : List Scalar := [void, char, int, uint, long, ulong, float, double]

def name : Scalar → String
  | void => "void" | char => "char" | int => "int" | uint => "uint"
  | long => "long" | ulong => "ulong" | float => "float" | double => "double"
  | null => "NULL" | vararg => "..."
  | enum n => n

/-- The scalar of a name: an enumeration unless the language has a meaning for it. -/
def ofName (n : String) : Scalar :=
  ((null :: vararg :: builtin).find? fun s => s.name == n).getD (enum n)

/-- Rank among the whole numbers. -/
def integralRank : Scalar → Option Nat
  | char => some 1
  | int | uint => some 2
  | long | ulong => some 3
  | _ => none

def isUnsigned : Scalar → Bool
  | uint | ulong => true
  | _ => false

def isFloating : Scalar → Bool
  | float | double => true
  | _ => false

def isEnum : Scalar → Bool
  | enum _ => true
  | _ => false

end Scalar

inductive ArraySize where
  | fixed (length : Nat)
  /-- A size that is no constant, as it was written. -/
  | symbolic (text : String)
  deriving DecidableEq, Repr

def ArraySize.text : ArraySize → String
  | fixed n => Nat.repr n
  | symbolic t => t

inductive ValueType where
  | scalar (s : Scalar)
  | pointer (target : ValueType)
  | array (element : ValueType) (size : ArraySize)
  /-- A struct behind a pointer may be known by name only; its members are then empty. -/
  | struct (name : String) (members : List (String × ValueType))
  | function (params : List ValueType) (returns : ValueType)
  deriving Repr, Inhabited

namespace ValueType

/-! ### Names of common types -/

def void : ValueType := scalar .void
def char : ValueType := scalar .char
def int : ValueType := scalar .int
def uint : ValueType := scalar .uint
def long : ValueType := scalar .long
def float : ValueType := scalar .float
def double : ValueType := scalar .double
def null : ValueType := scalar .null
def vararg : ValueType := scalar .vararg

/-- A string literal is an array of its bytes and a closing zero. -/
def ofString (text : String) : ValueType :=
  array char (.fixed (text.utf8ByteSize + 1))

/-- A struct of which only the name is known. -/
def namedStruct (name : String) : ValueType := struct name []

/-! ### Kinds of types -/

def scalar? : ValueType → Option Scalar
  | scalar s => some s
  | _ => none

def isVoid (t : ValueType) : Bool := t.scalar? == some .void
def isNull (t : ValueType) : Bool := t.scalar? == some .null
def isVararg (t : ValueType) : Bool := t.scalar? == some .vararg

def isPointer : ValueType → Bool
  | pointer _ => true
  | _ => false

def isVoidPointer : ValueType → Bool
  | pointer t => t.isVoid
  | _ => false

def isArray : ValueType → Bool
  | array _ _ => true
  | _ => false

def isFunction : ValueType → Bool
  | function _ _ => true
  | _ => false

def integralRank (t : ValueType) : Option Nat :=
  t.scalar?.bind Scalar.integralRank

def isIntegral (t : ValueType) : Bool := t.integralRank.isSome
def isUnsigned (t : ValueType) : Bool := t.scalar?.any Scalar.isUnsigned
def isFloating (t : ValueType) : Bool := t.scalar?.any Scalar.isFloating
def isEnum (t : ValueType) : Bool := t.scalar?.any Scalar.isEnum

/-- Types of values that can be added and multiplied. -/
def isArithmetic (t : ValueType) : Bool := t.isIntegral || t.isFloating || t.isEnum

/-- Types of values that a condition can test. -/
def isTruthy (t : ValueType) : Bool := t.isArithmetic || t.isPointer || t.isNull

/-- Whole numbers and enumerations. -/
def isIntegerLike (t : ValueType) : Bool := t.isIntegral || t.isEnum

/-- Types of values that are addresses or become one. -/
def isPointerLike (t : ValueType) : Bool := t.isPointer || t.isArray || t.isNull

/-! ### Parts of types -/

/-- What an index or a star gives. -/
def pointee : ValueType → Option ValueType
  | pointer t => some t
  | array t _ => some t
  | _ => none

def member (name : String) : ValueType → Option ValueType
  | struct _ members => (members.find? fun m => m.1 == name).map Prod.snd
  | _ => none

/-- An array stands for a pointer to its first element. -/
def decay : ValueType → ValueType
  | array t _ => pointer t
  | t => t

/-- An enumeration counts as `int` in arithmetic. -/
def promote (t : ValueType) : ValueType := if t.isEnum then int else t

/-! ### Sameness -/

mutual

/-- Built alike from the same scalars and structs of the same names. -/
def same : ValueType → ValueType → Bool
  | scalar a, scalar b => a == b
  | pointer a, pointer b => same a b
  | array a m, array b n => m == n && same a b
  | struct a _, struct b _ => a == b
  | function ps r, function qs q => sameList ps qs && same r q
  | _, _ => false

def sameList : List ValueType → List ValueType → Bool
  | [], [] => true
  | a :: as, b :: bs => same a b && sameList as bs
  | _, _ => false

end

/-! ### Written form -/

/-- A function type goes into braces before a suffix. -/
def suffixBase (base : ValueType) (written : String) : String :=
  if base.isFunction then "\x7b" ++ written ++ "\x7d" else written

mutual

def text : ValueType → String
  | scalar s => s.name
  | struct name _ => name
  | pointer t => suffixBase t (text t) ++ "[]"
  | array t size => suffixBase t (text t) ++ "[" ++ size.text ++ "]"
  | function params returns =>
    "(" ++ String.intercalate ", " (textList params) ++ ") -> " ++ text returns

def textList : List ValueType → List String
  | [] => []
  | t :: rest => text t :: textList rest

end

end ValueType

end Offside
