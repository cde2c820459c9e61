import Offside.Grammar.Fault
import Offside.Tree.Equal
import Offside.Tree.Print

/-! The function at which a program starts.

It takes nothing or a count and a list of texts, and gives an `int`. What its head leaves out is filled
in, so that every head of the entry point says the same. -/
namespace Offside

namespace EntryPoint

def functionName : String := "main"

/-- The type of the result and of the first parameter. -/
def countType (s : Span) : TypeExpr := .name s "int"

/-- The type of the second parameter. -/
def textsType (s : Span) : TypeExpr := .pointer s (.pointer s (.name s "char"))

/-- The parameters of an entry point that names none. -/
def defaultParams (s : Span) : List Param :=
  [⟨.named "argc" (some (countType s)), s, none⟩, ⟨.named "argv" (some (textsType s)), s, none⟩]

abbrev Outcome := Except (GrammarFault × Location)

/-- Fills in the type of a parameter. -/
def fillParam (p : Param) (expected : TypeExpr) : Outcome Param :=
  match p.kind with
  | .vararg => .error (.variadicEntry, p.span.start)
  | .named name none => .ok { p with kind := .named name (some expected) }
  | .named name (some declared) =>
    if declared.sameShape expected then .ok p
    else .error (.entryParameter name expected.print declared.print, p.span.start)

/-- Fills in the parameters; `s` is where the function's name stands. -/
def fillParams (s : Span) : List Param → Outcome (List Param)
  | [] => .ok (defaultParams s)
  | [first, second] => do
    let first ← fillParam first (countType s)
    let second ← fillParam second (textsType s)
    return [first, second]
  | _ => .error (.entryArity, s.start)

/-- Fills in the type of the result. -/
def fillResult (s : Span) : Option TypeExpr → Outcome TypeExpr
  | none => .ok (countType s)
  | some declared =>
    if declared.sameShape (countType s) then .ok declared
    else .error (.entryResult declared.print, declared.start)

/-- A head with everything filled in. -/
def fill (s : Span) (head : FunctionHead) : Outcome FunctionHead := do
  let params ← fillParams s head.params
  let returns ← fillResult s head.returns
  return { head with params, returns := some returns }

end EntryPoint

end Offside
