import Offside.Names
import Offside.Types.Arithmetic

/-! Names of types.

A table gives a name either a type or, for a typedef of a named type, that other name. Following names
to a type (`resolve`) refuses to pass one twice; a new alias is refused if it would close such a circle,
so tables built here never hold one. -/
namespace Offside

inductive TypeEntry where
  | base (type : ValueType)
  | alias (target : String)
  deriving Repr

structure TypeTable where
  entries : Dictionary TypeEntry
  deriving Repr

namespace TypeTable

/-- The table every program starts with. -/
def builtin : TypeTable :=
  ⟨⟨Scalar.builtin.map fun s => (s.name, .base (.scalar s))⟩⟩

instance : Inhabited TypeTable := ⟨builtin⟩

def entry? (t : TypeTable) (name : String) : Option TypeEntry := t.entries.get? name

def contains (t : TypeTable) (name : String) : Bool := t.entries.contains name

/-- Enters a type under a name that is free. -/
def add (t : TypeTable) (name : String) (type : ValueType) : Except TypeFault TypeTable :=
  if t.contains name then .error (.duplicate name)
  else .ok ⟨t.entries.insert name (.base type)⟩

/-- Enters a type under a name that may be taken, as for a struct whose members became known. -/
def complete (t : TypeTable) (name : String) (type : ValueType) : TypeTable :=
  ⟨t.entries.insert name (.base type)⟩

/-- Adds the names of another table that are missing here. -/
def absorb (t other : TypeTable) : TypeTable :=
  ⟨t.entries.absorb other.entries⟩

/-- The names passed when following aliases from a name, itself excluded, at most `fuel` of them. -/
def aliasesFrom (t : TypeTable) : Nat → String → List String
  | 0, _ => []
  | fuel + 1, name =>
    match t.entry? name with
    | some (.alias next) => next :: aliasesFrom t fuel next
    | _ => []

/-- The names up to and with the first occurrence of one of them. -/
def upTo (name : String) : List String → List String
  | [] => []
  | n :: rest => if n = name then [n] else n :: upTo name rest

/-- Makes a free name stand for a name of a type. -/
def addAlias (t : TypeTable) (name target : String) : Except TypeFault TypeTable :=
  if name = target then .error (.cycle (name ++ " -> " ++ target))
  else if t.contains name then .error (.rebinding name)
  else if !t.contains target then .error (.unknown target)
  else
    let passed := t.aliasesFrom (t.entries.size + 1) target
    if passed.contains name then
      .error (.cycle (String.intercalate " -> " (name :: target :: upTo name passed)))
    else .ok ⟨t.entries.insert name (.alias target)⟩

/-- The name that a type goes by in this table. -/
def nameOf (t : TypeTable) (type : ValueType) : Option String :=
  let name := match type with
    | .scalar s => some s.name
    | .struct n _ => some n
    | _ => none
  name.filter t.contains

/-- Makes a free name stand for a type: for its name, if it has one here. -/
def addTypedef (t : TypeTable) (name : String) (type : ValueType) : Except TypeFault TypeTable :=
  match t.nameOf type with
  | some target => t.addAlias name target
  | none =>
    if t.contains name then .error (.rebinding name)
    else .ok ⟨t.entries.insert name (.base type)⟩

/-- Follows aliases to a type; `passed` holds the names already seen. -/
def follow (t : TypeTable) : Nat → List String → String → Except TypeFault ValueType
  | 0, _, name => .error (.cycle name)
  | fuel + 1, passed, name =>
    if passed.contains name then .error (.cycle name)
    else
      match t.entry? name with
      | some (.base type) => .ok type
      | some (.alias next) => follow t fuel (name :: passed) next
      | none => .error (.unknown name)

/-- The type that a name stands for. -/
def resolve (t : TypeTable) (name : String) : Except TypeFault ValueType :=
  t.follow (t.entries.size + 2) [] name

end TypeTable

end Offside
