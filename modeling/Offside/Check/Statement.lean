import Offside.Check.Function

/-! Checking statements.

A statement comes back with the types it was found to have. An assignment to a name that nothing
declares becomes the declaration of that name. -/
namespace Offside

/-- Whether a value of a type holds a value of a struct inside itself, as arrays do and pointers do
not. -/
def ValueType.holds (struct : String) : ValueType → Bool
  | .array element _ => holds struct element
  | .struct name members => same (.struct name members) (namedStruct struct)
  | _ => false
termination_by structural t => t

namespace Check

def variableDeclaration (sources : Sources) (d : VarDecl) (l : Location) : Check VarDecl := do
  let type ← match d.declared with
    | some declared => resolve sources declared
    | none => pure .void
  require (!type.isVoid) (.cannotInfer d.name type) l
  let init ← match d.init with
    | none => pure none
    | some e => do
      let (init, initType) ← typed sources e
      require (ValueType.canAssign e.origin type initType)
        (.mismatch (.initialization d.name) type initType) init.start
      pure (some init)
  declare d.name type l
  return { d with init, type := some type }

/-- The declaration of a name by its first assignment. -/
def implicitDeclaration (sources : Sources) (m : Mark) (name : String) (value : Expr)
    (l : Location) : Check Stmt := do
  let (value, type) ← typed sources value
  require (!(type.isNull || type.isVoid || type.isVararg)) (.cannotInfer name type) l
  declare name type l
  return .declare m { name, declared := none, init := some value, type := some type }

/-- Whether things of a type cannot be assigned as a whole. -/
def isFixed (type : ValueType) : Bool := type.isArray || type.isFunction

def assignment (sources : Sources) (m : Mark) (target value : Expr) : Check Stmt := do
  match target with
  | .name _ name =>
    match ← lookup sources name with
    | none => implicitDeclaration sources m name value target.start
    | some type =>
      require (!isFixed type) (.notAssignable (.named name type)) target.start
      let (value, valueType) ← typed sources value
      require (ValueType.matchesOnAssign type valueType)
        (.mismatch (.assignmentTo name) type valueType) value.start
      return .assign m (target.typed type) value
  | _ =>
    let (target, type) ← typed sources target
    require (!isFixed type) (.notAssignable (.value type)) target.start
    let (checked, valueType) ← typed sources value
    require (ValueType.canAssign value.origin type valueType)
      (.mismatch .assignment type valueType) checked.start
    return .assign m target checked

def condition (sources : Sources) (e : Expr) (context : String) : Check Expr := do
  let (e, type) ← typed sources e
  require type.isTruthy (.notTestable context type) e.start
  return e

/-- The labels of a case: the first has to fit the subject, the others have the type of the first. -/
def caseLabels (sources : Sources) (subject : ValueType) (first : Option ValueType) :
    List Expr → Check (List Expr)
  | [] => return []
  | e :: rest => do
    let (label, type) ← typed sources e
    match first with
    | some expected =>
      require (ValueType.same expected type) (.mismatch .caseLabel expected type) label.start
    | none =>
      require (ValueType.canAssign label.origin subject type) (.mismatch .caseLabel subject type)
        label.start
    let more ← caseLabels sources subject (some (first.getD type)) rest
    return label :: more

/-- The members of a struct. -/
def structMembers (sources : Sources) (struct : String) :
    List Field → Check (List (String × ValueType))
  | [] => return []
  | f :: rest => do
    let type ← resolve sources f.type
    require (!type.isVoid) (.struct struct (.voidField f.name)) f.span.start
    require (!type.holds struct) (.struct struct .containsItself) f.span.start
    let more ← structMembers sources struct rest
    return (f.name, type) :: more

/-- A struct is known by name to its own fields. -/
def struct (sources : Sources) (name : String) (fields : List Field) (l : Location) :
    Check Unit := do
  changeTypes l fun types => types.add name (.namedStruct name)
  let members ← structMembers sources name fields
  modify fun s => s.setTypes (s.scope.types.complete name (.struct name members))

/-- Declares the members of an enumeration, which are constants counted from `value` on. -/
def enumMembers (type : ValueType) (l : Location) (value : Nat) : List String → Check Unit
  | [] => return ()
  | member :: rest => do
    declare member type l
    modifyScope fun s => { s with constants := s.constants.insert member value }
    enumMembers type l (value + 1) rest

def enum (name : String) (members : List String) (l : Location) : Check Unit := do
  let type := ValueType.scalar (.ofName name)
  changeTypes l fun types => types.add name type
  enumMembers type l 0 members

/-- A typedef of a name remembers the name; any other remembers the type. -/
def typedef (sources : Sources) (target : TypeExpr) (name : String) (l : Location) :
    Check Unit := do
  match target with
  | .name _ targetName =>
    needType sources targetName
    if (← scope).types.contains targetName then
      changeTypes l fun types => types.addAlias name targetName
    else
      let type ← resolve sources target
      changeTypes l fun types => types.addTypedef name type
  | _ =>
    let type ← resolve sources target
    changeTypes l fun types => types.addTypedef name type

def define (sources : Sources) (name : String) (value : Option Expr) (l : Location) :
    Check (Option Expr) := do
  match value with
  | none =>
    modifyScope fun s => { s with macros := s.macros.insert name }
    return none
  | some e =>
    let (value, type) ← typed sources e
    declare name type l
    modifyScope fun s =>
      match value.fold s.constants with
      | some constant => { s with constants := s.constants.insert name constant }
      | none => { s with constants := s.constants.erase name }
    return some value

mutual

def statement (sources : Sources) : Stmt → Check Stmt
  | .expr m e => do
    let (e, _) ← typed sources e
    return .expr m e
  | .declare m d => return .declare m (← variableDeclaration sources d m.span.start)
  | .assign m target value => assignment sources m target value
  | .announce m head => return .announce m (← announce sources head m.span.start)
  | .function m head body => do
    let (types, returns) ← openDefinition sources head m.span.start
    let (body, inferred) ← inFunction { name := head.name, returns } do
      modifyScope (bindParams head.params types)
      let body ← statements sources body
      return (body, (← get).function.bind (·.inferred))
    let head ← closeDefinition head types returns inferred m.span.start
    return .function m head body
  | .result m value => return .result m (← result sources value m.span.start)
  | .ifElse m c body orelse => do
    let c ← condition sources c "if statement"
    let body ← inBlock (statements sources body)
    let orelse ← inBlock (statements sources orelse)
    return .ifElse m c body orelse
  | .whileLoop m c body orelse => do
    let c ← condition sources c "while loop"
    let body ← inBreakable (statements sources body)
    let orelse ← inBlock (statements sources orelse)
    return .whileLoop m c body orelse
  | .doLoop m body c => do
    let body ← inBreakable (statements sources body)
    let c ← condition sources c "do-while loop"
    return .doLoop m body c
  | .switch m subject cases default => do
    let (subject, type) ← typed sources subject
    require type.isIntegerLike (.operand "switch" type) subject.start
    let cases ← switchCases sources type cases
    let default ← defaultCase sources default
    return .switch m subject cases default
  | .leave m => do
    require ((← get).breakableDepth != 0) (.misplaced .leave) m.span.start
    return .leave m
  | .pass m => return .pass m
  | .struct m name fields => do
    struct sources name fields m.span.start
    return .struct m name fields
  | .enum m name members => do
    enum name members m.span.start
    return .enum m name members
  | .typedef m target name => do
    typedef sources target name m.span.start
    return .typedef m target name
  | .define m name value => return .define m name (← define sources name value m.span.start)
  | .includeFile m path => do
    require (← get).atTopLevel (.misplaced .includeFile) m.span.start
    sources.follow path m.span.start
    return .includeFile m path
  | .ifndef m name => return .ifndef m name
  | .endif m => return .endif m
termination_by structural s => s

def statements (sources : Sources) : List Stmt → Check (List Stmt)
  | [] => return []
  | s :: rest => do
    let first ← statement sources s
    let more ← statements sources rest
    return first :: more
termination_by structural ss => ss

def switchCases (sources : Sources) (subject : ValueType) :
    List SwitchCase → Check (List SwitchCase)
  | [] => return []
  | c :: rest => do
    let first ← switchCase sources subject c
    let more ← switchCases sources subject rest
    return first :: more
termination_by structural cs => cs

def switchCase (sources : Sources) (subject : ValueType) : SwitchCase → Check SwitchCase
  | .mk span values body => do
    let values ← caseLabels sources subject none values
    let body ← inBreakable (statements sources body)
    return .mk span values body
termination_by structural c => c

def defaultCase (sources : Sources) : Option (List Stmt) → Check (Option (List Stmt))
  | none => return none
  | some body => do
    let body ← inBreakable (statements sources body)
    return some body
termination_by structural d => d

end

end Check

end Offside
