import Offside.Types.Table

/-! What names mean.

A `Scope` knows the variables, types, defined functions, constants and guards that are visible at one
place, and which of the variables were declared at that very level. An `Environment` is a global scope
with local ones above it. Entering a function copies the scope it is in, so that nothing needs to be
looked up further out; when global names are added underneath, the local scopes take in the ones they
miss (`Environment.restoreLocals`). -/
namespace Offside

structure Scope where
  bindings : Dictionary ValueType := .empty
  types : TypeTable := .builtin
  /-- Functions whose body has been seen. -/
  definedFunctions : NameSet := .empty
  /-- Values of names that stand for a whole number. -/
  constants : Dictionary Int := .empty
  /-- Names defined without a value. -/
  macros : NameSet := .empty
  /-- Variables declared at this level. -/
  localNames : NameSet := .empty
  deriving Inhabited

/-- What became of a declaration. -/
inductive Binding where
  | new
  /-- Declared before at this level, with the same type. -/
  | repeated
  /-- Declared before at this level, with another type. -/
  | conflict (previous : ValueType)

namespace Scope

def lookup (s : Scope) (name : String) : Option ValueType := s.bindings.get? name

def isLocal (s : Scope) (name : String) : Bool := s.localNames.contains name

def setVariable (s : Scope) (name : String) (type : ValueType) : Scope :=
  { s with bindings := s.bindings.insert name type, localNames := s.localNames.insert name }

/-- Declares a variable at this level. A variable from further out may be hidden by any type. -/
def bind (s : Scope) (name : String) (type : ValueType) : Binding × Scope :=
  if s.isLocal name then
    match s.lookup name with
    | some previous =>
      if ValueType.same previous type then (.repeated, s) else (.conflict previous, s)
    | none => (.new, s.setVariable name type)
  else (.new, s.setVariable name type)

/-- The scope inside a function: everything is visible and nothing declared yet. -/
def child (s : Scope) : Scope := { s with localNames := .empty }

/-- Takes in what a global scope has and this one misses. -/
def absorb (s global : Scope) : Scope :=
  { s with
    bindings := s.bindings.absorb global.bindings
    types := s.types.absorb global.types
    constants := s.constants.absorb global.constants
    definedFunctions := s.definedFunctions.absorb global.definedFunctions
    macros := s.macros.absorb global.macros }

end Scope

/-- Local scopes, innermost first, above the global one. -/
structure Environment where
  locals : List Scope := []
  global : Scope := {}
  deriving Inhabited

namespace Environment

def current (e : Environment) : Scope := e.locals.headD e.global

def setCurrent (e : Environment) (s : Scope) : Environment :=
  match e.locals with
  | [] => { e with global := s }
  | _ :: rest => { e with locals := s :: rest }

def isGlobal (e : Environment) : Bool := e.locals.isEmpty

def enter (e : Environment) : Environment :=
  { e with locals := e.current.child :: e.locals }

/-- The global scope cannot be left. -/
def exit (e : Environment) : Environment :=
  { e with locals := e.locals.drop 1 }

/-- Sets the local scopes aside, so that only the global one is visible. -/
def takeLocals (e : Environment) : List Scope × Environment :=
  (e.locals, { e with locals := [] })

/-- Puts local scopes back above what the global scope has become. -/
def restoreLocals (e : Environment) (locals : List Scope) : Environment :=
  { e with locals := locals.map fun s => s.absorb e.global }

@[simp] theorem current_setCurrent (e : Environment) (s : Scope) : (e.setCurrent s).current = s := by
  unfold setCurrent current
  split <;> simp_all

theorem length_locals_setCurrent (e : Environment) (s : Scope) :
    (e.setCurrent s).locals.length = e.locals.length := by
  unfold setCurrent
  split <;> simp_all

theorem exit_enter (e : Environment) : e.enter.exit = e := rfl

end Environment

end Offside
