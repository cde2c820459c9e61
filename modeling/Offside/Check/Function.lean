import Offside.Check.Expression

/-! Functions: announcing, defining and returning.

A function may be announced before it is defined. What the definition leaves out is then taken from the
announcement, and what it spells out has to agree. The result type of a definition that leaves it out
and was not announced is that of the first `return` in its body; such a function is known only behind
its definition. -/
namespace Offside

namespace Check

/-- Names of parameters differ, and dots stand at the end, behind a name. `seen` are the names before
the rest of the list. -/
def checkParams (function : String) (seen : List String) : List Param → Check Unit
  | [] => return ()
  | p :: rest =>
    match p.kind with
    | .named name _ => do
      require (!seen.contains name) (.duplicateParameter function name) p.span.start
      checkParams function (name :: seen) rest
    | .vararg => do
      require rest.isEmpty (.vararg function .notLast) p.span.start
      require (!seen.isEmpty) (.vararg function .alone) p.span.start

/-- The type of a parameter; `announced` is used where none is written. -/
def paramType (sources : Sources) (function : String) (announced : Option ValueType) (p : Param) :
    Check ValueType :=
  match p.kind with
  | .vararg => return .vararg
  | .named _ (some declared) => resolve sources declared
  | .named name none =>
    match announced with
    | some type => return type
    | none => fail (.untypedParameter function name) p.span.start

/-- The types of parameters that have to be written out. -/
def paramTypes (sources : Sources) (function : String) : List Param → Check (List ValueType)
  | [] => return []
  | p :: rest => do
    let first ← paramType sources function none p
    let more ← paramTypes sources function rest
    return first :: more

/-- The types of parameters that have to agree with those announced. -/
def matchParams (sources : Sources) (function : String) :
    List Param → List ValueType → Check (List ValueType)
  | p :: rest, announced :: others => do
    let first ← paramType sources function (some announced) p
    require (ValueType.same first announced)
      (.signature function (.parameter p.name? first announced)) p.span.start
    let more ← matchParams sources function rest others
    return first :: more
  | _, _ => return []

def resolveOption (sources : Sources) : Option TypeExpr → Check (Option ValueType)
  | none => return none
  | some t => return some (← resolve sources t)

/-- Parameters with their types. -/
def withTypes (params : List Param) (types : List ValueType) : List Param :=
  List.zipWith (fun p t => { p with type := some t }) params types

def announce (sources : Sources) (head : FunctionHead) (l : Location) : Check FunctionHead := do
  checkParams head.name [] head.params
  let types ← paramTypes sources head.name head.params
  let returns ← resolveOption sources head.returns
  let signature := ValueType.function types (returns.getD .int)
  let (binding, scope) := (← scope).bind head.name signature
  match binding with
  | .new | .repeated =>
    modify (·.setScope scope)
    return { head with params := withTypes head.params types, signature := some signature }
  | .conflict previous =>
    if previous.isFunction then
      fail (.signature head.name (.whole previous signature)) l
    else fail (.notAFunction head.name previous) l

/-- The types of a definition's parameters and result, with what an announcement adds. -/
def definitionTypes (sources : Sources) (head : FunctionHead) (l : Location) :
    Check (List ValueType × Option ValueType) := do
  match (← scope).lookup head.name with
  | none =>
    let types ← paramTypes sources head.name head.params
    let returns ← resolveOption sources head.returns
    return (types, returns)
  | some (.function announced announcedReturns) =>
    require (head.params.length = announced.length)
      (.signature head.name (.arity announced.length head.params.length)) l
    let types ← matchParams sources head.name head.params announced
    match head.returns with
    | none => return (types, some announcedReturns)
    | some declared =>
      let returns ← resolve sources declared
      require (ValueType.same returns announcedReturns)
        (.signature head.name (.result returns announcedReturns)) declared.start
      return (types, some returns)
  | some previous => fail (.notAFunction head.name previous) l

/-- Declares the named parameters. -/
def bindParams : List Param → List ValueType → Scope → Scope
  | p :: rest, type :: types, scope =>
    bindParams rest types
      (match p.kind with
       | .named name _ => (scope.bind name type).2
       | .vararg => scope)
  | _, _, scope => scope

/-- What is checked of a definition before its body, and what is known of it from there on: the types
of its parameters and, if it is known, of its result. -/
def openDefinition (sources : Sources) (head : FunctionHead) (l : Location) :
    Check (List ValueType × Option ValueType) := do
  require (← get).atTopLevel (.misplaced .definition) l
  checkParams head.name [] head.params
  require (!(← scope).definedFunctions.contains head.name) (.redefined head.name) l
  let (types, returns) ← definitionTypes sources head l
  modifyScope fun s => { s with definedFunctions := s.definedFunctions.insert head.name }
  match returns with
  | some returns => modifyScope fun s => (s.bind head.name (.function types returns)).2
  | none => pure ()
  return (types, returns)

/-- What is known of a definition behind its body. `inferred` is the type of its results. -/
def closeDefinition (head : FunctionHead) (types : List ValueType) (returns : Option ValueType)
    (inferred : Option ValueType) (l : Location) : Check FunctionHead := do
  let signature := ValueType.function types (returns.getD (inferred.getD .void))
  if returns.isNone then declare head.name signature l
  return { head with params := withTypes head.params types, signature := some signature }

/-- Whether a result fits the type that a function has to give. -/
def resultFits (origin : ValueOrigin) (expected found : ValueType) : Bool :=
  if expected.isVoid || found.isVoid then expected.isVoid && found.isVoid
  else ValueType.canAssign origin expected found

/-- Notes the type of a result from which the function's type is inferred. All have to agree with the
first. -/
def inferResult (function : FunctionContext) (found : ValueType) (l : Location) : Check Unit := do
  let found := found.decay
  require (!(found.isNull || found.isVararg))
    (.cannotInfer ("return value of '" ++ function.name ++ "'") found) l
  match function.inferred with
  | some first =>
    require (ValueType.matchesOnAssign first found)
      (.mismatch (.result function.name) first found) l
  | none => modify fun s => { s with function := some { function with inferred := some found } }

/-- A `return` with its value. -/
def result (sources : Sources) (value : Option Expr) (l : Location) : Check (Option Expr) := do
  match (← get).function with
  | none => fail (.misplaced .result) l
  | some function =>
    let (value, found, origin) ← match value with
      | none => pure (none, ValueType.void, ValueOrigin.value)
      | some e => do
        let (checked, type) ← typed sources e
        pure (some checked, type, e.origin)
    let place := (value.map Expr.start).getD l
    match function.returns with
    | some expected =>
      require (resultFits origin expected found) (.mismatch (.result function.name) expected found)
        place
    | none => inferResult function found place
    return value

end Check

end Offside
