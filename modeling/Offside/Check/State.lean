import Offside.Constant
import Offside.Failure
import Offside.Header
import Offside.Scope
import Offside.Tree.Print

/-! What a check knows and does on the way.

The state of a check holds the scopes, what has been read so far besides the program itself (headers and
included files), and where in the program the check is: in which function, under how many blocks, under
how many statements that can be left. The last three are changed only for the length of a part
(`Check.during`), whose end undoes what its beginning did, whether or not the part is in order: depths are
counted up and down again, files are pushed and popped, and what is set anew is saved before. That this
leads back to the place of the beginning is a fact about the part (`CheckState.Situated`). -/
namespace Offside

/-- The function whose body is being checked. -/
structure FunctionContext where
  name : String
  /-- Unknown while it is being inferred. -/
  returns : Option ValueType
  /-- The type of the first result met, kept while the type of results is being inferred. -/
  inferred : Option ValueType := none

structure CheckState where
  environment : Environment := {}
  /-- Names of the headers read, in order. -/
  headers : List String := []
  /-- Included files that are finished, in the order of their paths. -/
  units : List (Path × Module) := []
  /-- Files included at any time. -/
  visited : List Path := []
  /-- Files whose statements were begun, in order: what the check reports of its progress. -/
  begun : List Path := []
  /-- Files being checked, innermost first. -/
  openFiles : List Path := []
  /-- Where includes are searched first. -/
  directory : Option Path := none
  headerDepth : Nat := 0
  function : Option FunctionContext := none
  breakableDepth : Nat := 0
  blockDepth : Nat := 0

namespace CheckState

/-- Outside all functions and blocks. -/
def atTopLevel (s : CheckState) : Bool := s.function.isNone && s.blockDepth == 0

def scope (s : CheckState) : Scope := s.environment.current

def setScope (s : CheckState) (scope : Scope) : CheckState :=
  { s with environment := s.environment.setCurrent scope }

def setTypes (s : CheckState) (types : TypeTable) : CheckState :=
  s.setScope { s.scope with types }

end CheckState

abbrev Check := EStateM Failure CheckState

namespace Check

def fail {α : Type} (fault : SemanticFault) (l : Location) : Check α := throw (.semantic fault l)

/-- A rule that was kept, or a report of the one that was not. -/
def require (kept : Bool) (fault : SemanticFault) (l : Location) : Check Unit :=
  if kept then pure () else fail fault l

def scope : Check Scope := return (← get).scope

def modifyScope (f : Scope → Scope) : Check Unit := modify fun s => s.setScope (f s.scope)

/-- Changes the table of types, or reports why it cannot be changed. -/
def changeTypes (l : Location) (change : TypeTable → Except TypeFault TypeTable) : Check Unit := do
  match change (← scope).types with
  | .ok types => modify (·.setTypes types)
  | .error fault => fail (.typeRule fault) l

/-- Does a part of the check in a changed state; `leave` makes the state behind it from the one before
it and the one at its end, however it ended. -/
def during {α : Type} (enter : CheckState → CheckState) (leave : CheckState → CheckState → CheckState)
    (part : Check α) : Check α := fun before =>
  match part (enter before) with
  | .ok a after => .ok a (leave before after)
  | .error failure after => .error failure (leave before after)

/-- Inside a block of a statement. Blocks share the scope around them. -/
def inBlock {α : Type} (part : Check α) : Check α :=
  during (fun s => { s with blockDepth := s.blockDepth + 1 })
    (fun _ after => { after with blockDepth := after.blockDepth - 1 }) part

/-- Inside a block that can be left. -/
def inBreakable {α : Type} (part : Check α) : Check α :=
  during (fun s => { s with breakableDepth := s.breakableDepth + 1 })
    (fun _ after => { after with breakableDepth := after.breakableDepth - 1 }) (inBlock part)

/-- Inside a function, with a scope of its own. -/
def inFunction {α : Type} (context : FunctionContext) (part : Check α) : Check α :=
  during (fun s => { s with function := some context, environment := s.environment.enter })
    (fun _ after => { after with function := none, environment := after.environment.exit }) part

/-- Inside a header: at the top level of the global scope. -/
def inHeader {α : Type} (part : Check α) : Check α :=
  during
    (fun s =>
      { s with
        environment := s.environment.takeLocals.2
        function := none
        breakableDepth := 0
        blockDepth := 0
        headerDepth := s.headerDepth + 1 })
    (fun before after =>
      { after with
        environment := after.environment.restoreLocals before.environment.takeLocals.1
        function := before.function
        breakableDepth := before.breakableDepth
        blockDepth := before.blockDepth
        headerDepth := after.headerDepth - 1 })
    part

/-- Inside an included file. -/
def inFile {α : Type} (path : Path) (part : Check α) : Check α :=
  during
    (fun s =>
      { s with
        begun := s.begun ++ [path]
        openFiles := path :: s.openFiles
        directory := some path.parent })
    (fun before after =>
      { after with openFiles := after.openFiles.tail, directory := before.directory })
    part

/-- Declares a name in the current scope, unless it has another type there. -/
def declare (name : String) (type : ValueType) (l : Location) : Check Unit := do
  let (binding, scope) := (← scope).bind name type
  match binding with
  | .new | .repeated => modify (·.setScope scope)
  | .conflict previous => fail (.redeclared name previous type) l

end Check

/-- How a program gets at declarations outside its own text. -/
structure Sources where
  headers : List Header
  /-- Reads a header, if that has not been done. -/
  load : Header → Check Unit
  /-- Follows an include that stands at a place. -/
  follow : String → Location → Check Unit

namespace Check

/-- The type of a function or variable; an unknown name may come from a header. -/
def lookup (sources : Sources) (name : String) : Check (Option ValueType) := do
  match (← scope).lookup name with
  | some type => return some type
  | none =>
    match Header.ofVariable? sources.headers name with
    | some header =>
      sources.load header
      return (← scope).lookup name
    | none => return none

/-- Makes the name of a type known if a header declares it. -/
def needType (sources : Sources) (name : String) : Check Unit := do
  if !(← scope).types.contains name then
    match Header.ofType? sources.headers name with
    | some header => sources.load header
    | none => pure ()

end Check

end Offside
