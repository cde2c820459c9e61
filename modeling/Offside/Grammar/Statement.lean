import Offside.Grammar.EntryPoint
import Offside.Grammar.Expression

/-! Reading statements, blocks and whole files.

A block is a colon with either an indented list of statements below it or one statement behind it. A
statement that fits on a line ends with the line; `else` and `elif` belong to the block before them. -/
namespace Offside

namespace Parse

/-! ### Statements that fit on a line -/

/-- The type behind an optional token. -/
def optionalType (marker : Symbol) : Parse (Option TypeExpr) := do
  if ← accept (.symbol marker) then return some (← type)
  else return none

/-- An expression, if the line has not ended. -/
def optionalExpression : Parse (Option Expr) := do
  if endsLine (← peekKind) then return none
  else return some (← expression)

def result (start : Location) : Parse Stmt := do
  let value ← optionalExpression
  endLine "return statement"
  return .result (← markFrom start) value

def declaration (start : Location) : Parse Stmt := do
  let (name, _) ← expectName "declaration"
  expectSymbol .colon "declaration"
  let declared ← type
  let init ← if ← accept (.symbol .equal) then pure (some (← expression)) else pure none
  endLine "declaration"
  return .declare (← markFrom start) { name, declared := some declared, init }

def expressionOrAssignment (start : Location) : Parse Stmt := do
  let target ← expression
  if ← next (.symbol .equal) then
    if !target.isPlace then fail .notAPlace target.start
    else
      let _ ← advance
      let value ← expression
      endLine "assignment"
      return .assign (← markFrom start) target value
  else
    endLine "expression"
    return .expr (← markFrom start) target

def typedef (start : Location) : Parse Stmt := do
  let target ← type
  let (name, _) ← expectName "typedef"
  endLine "typedef"
  return .typedef (← markFrom start) target name

def define (start : Location) : Parse Stmt := do
  let (name, _) ← expectName "define"
  let value ← optionalExpression
  endLine "define"
  return .define (← markFrom start) name value

def includeFile (start : Location) : Parse Stmt := do
  let t ← advance
  match t.kind with
  | .string path =>
    endLine "include"
    return .includeFile (← markFrom start) path
  | _ => unexpected .includePath t

def ifndef (start : Location) : Parse Stmt := do
  let (name, _) ← expectName "ifndef"
  endLine "ifndef"
  return .ifndef (← markFrom start) name

/-- Members of an enum up to the closing brace, which stays. -/
def enumMembers (enum : String) : (fuel : Nat) → (seen : List String) → Parse (List String)
  | 0, _ => throw .exhausted
  | fuel + 1, seen => do
    if ← next (.symbol .rightBrace) then return []
    else
      let (member, span) ← expectName "enum definition"
      if seen.contains member then fail (.duplicateMember member enum) span.start
      else if ← accept (.symbol .comma) then
        let more ← enumMembers enum fuel (member :: seen)
        return member :: more
      else return [member]

def enum (start : Location) : Parse Stmt := do
  let (name, _) ← expectName "enum definition"
  expectSymbol .leftBrace "enum definition"
  let members ← enumMembers name (← get).depthBound []
  expectSymbol .rightBrace "enum definition"
  endLine "enum definition"
  return .enum (← markFrom start) name members

/-! ### Structs -/

/-- The lines of a struct: fields, and `pass`, which adds nothing. -/
def structFields (struct : String) : (fuel : Nat) → (seen : List String) → Parse (List Field)
  | 0, _ => throw .exhausted
  | fuel + 1, seen => do
    let t ← peek
    if t.kind = .dedent || t.kind = .endOfFile then return []
    else if ← accept (.keyword .pass_) then
      endLine "struct definition"
      structFields struct fuel seen
    else
      let (name, _) ← expectName "struct field"
      expectSymbol .colon "struct field"
      let fieldType ← type
      endLine "struct field"
      if seen.contains name then fail (.duplicateField name struct) t.start
      else
        let field : Field := ⟨name, fieldType, ← spanFrom t.start⟩
        let more ← structFields struct fuel (name :: seen)
        return field :: more

def struct (start : Location) : Parse Stmt := do
  let (name, _) ← expectName "struct definition"
  expectSymbol .colon "struct definition"
  if ← accept .newline then
    expect .indent "struct definition"
    let fields ← structFields name (← get).depthBound []
    expect .dedent "struct definition"
    return .struct (← markFrom start) name fields
  else
    expect (.keyword .pass_) "struct definition"
    endLine "struct definition"
    return .struct (← markFrom start) name []

/-! ### Heads of functions -/

def parameter : Parse Param := do
  let start := (← peek).start
  if ← accept (.symbol .ellipsis) then return ⟨.vararg, ← spanFrom start, none⟩
  else
    let (name, _) ← expectName "parameter list"
    let declared ← optionalType .colon
    return ⟨.named name declared, ← spanFrom start, none⟩

/-- One parameter or more, with commas between them. -/
def parameters : (fuel : Nat) → Parse (List Param)
  | 0 => throw .exhausted
  | fuel + 1 => do
    let first ← parameter
    if ← accept (.symbol .comma) then
      let more ← parameters fuel
      return first :: more
    else return [first]

/-- The head of a function, with what the entry point's leaves out filled in. -/
def functionHead : Parse FunctionHead := do
  let (name, span) ← expectName "function declaration"
  expectSymbol .leftParen "parameter list"
  let params ← if ← next (.symbol .rightParen) then pure []
    else parameters (← get).depthBound
  expectSymbol .rightParen "parameter list"
  let returns ← optionalType .arrow
  let head : FunctionHead := { name, params, returns }
  if name = EntryPoint.functionName then
    match EntryPoint.fill span head with
    | .ok head => return head
    | .error (fault, l) => fail fault l
  else return head

/-! ### Statements with blocks -/

/-- One expression or more, with commas between them. -/
def caseValues : (fuel : Nat) → Parse (List Expr)
  | 0 => throw .exhausted
  | fuel + 1 => do
    let first ← expression
    if ← accept (.symbol .comma) then
      let more ← caseValues fuel
      return first :: more
    else return [first]

mutual

def statementWithin : (fuel : Nat) → Parse Stmt
  | 0 => throw .exhausted
  | fuel + 1 => do
    let t ← peek
    let start := t.start
    match t.kind with
    | .keyword .if_ => do
      let _ ← advance
      conditional fuel start
    | .keyword .while_ => do
      let _ ← advance
      let condition ← expression
      let body ← block fuel "while statement"
      let orelse ← if ← accept (.keyword .else_) then block fuel "while-else clause" else pure []
      return .whileLoop (← markFrom start) condition body orelse
    | .keyword .do_ => do
      let _ ← advance
      let body ← block fuel "do statement"
      expect (.keyword .while_) "do statement"
      let condition ← expression
      endLine "do statement"
      return .doLoop (← markFrom start) body condition
    | .keyword .switch_ => do
      let _ ← advance
      let subject ← expression
      expectSymbol .colon "switch statement"
      expect .newline "switch statement"
      expect .indent "switch statement"
      let (cases, default) ← clauses fuel none
      return .switch (← markFrom start) subject cases default
    | .keyword .return_ => do
      let _ ← advance
      result start
    | .keyword .break_ => do
      let _ ← advance
      endLine "break statement"
      return .leave (← markFrom start)
    | .keyword .pass_ => do
      let _ ← advance
      endLine "pass statement"
      return .pass (← markFrom start)
    | .keyword .def_ => do
      let _ ← advance
      let head ← functionHead
      if ← next (.symbol .colon) then
        let body ← block fuel "function body"
        return .function (← markFrom start) head body
      else
        endLine "function declaration"
        return .announce (← markFrom start) head
    | .keyword .struct_ => do
      let _ ← advance
      struct start
    | .keyword .enum_ => do
      let _ ← advance
      enum start
    | .keyword .typedef_ => do
      let _ ← advance
      typedef start
    | .keyword .define_ => do
      let _ ← advance
      define start
    | .keyword .include_ => do
      let _ ← advance
      includeFile start
    | .keyword .ifndef_ => do
      let _ ← advance
      ifndef start
    | .keyword .endif_ => do
      let _ ← advance
      endLine "endif"
      return .endif (← markFrom start)
    | .identifier _ => do
      if (← peekSecond) = .symbol .colon then declaration start
      else expressionOrAssignment start
    | _ => expressionOrAssignment start
termination_by structural fuel => fuel

/-- A condition with its block and what follows it. -/
def conditional : (fuel : Nat) → (start : Location) → Parse Stmt
  | 0, _ => throw .exhausted
  | fuel + 1, start => do
    let condition ← expression
    let body ← block fuel "if statement"
    let t ← peek
    match t.kind with
    | .keyword .elif_ => do
      let _ ← advance
      let other ← conditional fuel t.start
      return .ifElse (← markFrom start) condition body [other]
    | .keyword .else_ => do
      let _ ← advance
      let orelse ← block fuel "else clause"
      return .ifElse (← markFrom start) condition body orelse
    | _ => return .ifElse (← markFrom start) condition body []
termination_by structural fuel => fuel

/-- A colon and the statements that belong to it. -/
def block : (fuel : Nat) → (context : String) → Parse (List Stmt)
  | 0, _ => throw .exhausted
  | fuel + 1, context => do
    expectSymbol .colon context
    if ← accept .newline then
      expect .indent context
      let body ← statements fuel
      expect .dedent context
      return body
    else
      let only ← statementWithin fuel
      return [only]
termination_by structural fuel => fuel

/-- Statements up to the end of the block or the file. -/
def statements : (fuel : Nat) → Parse (List Stmt)
  | 0 => throw .exhausted
  | fuel + 1 => do
    let kind ← peekKind
    if kind = .dedent || kind = .endOfFile then return []
    else
      let first ← statementWithin fuel
      let more ← statements fuel
      return first :: more
termination_by structural fuel => fuel

/-- The clauses of a switch and the end of its block. The default may stand between the cases. -/
def clauses : (fuel : Nat) → (default : Option (List Stmt)) →
    Parse (List SwitchCase × Option (List Stmt))
  | 0, _ => throw .exhausted
  | fuel + 1, default => do
    let t ← advance
    match t.kind with
    | .keyword .case_ => do
      let values ← caseValues (← get).depthBound
      let body ← block fuel "case clause"
      let first := .mk (← spanFrom t.start) values body
      let (more, default) ← clauses fuel default
      return (first :: more, default)
    | .keyword .else_ =>
      if default.isSome then fail .secondDefault t.start
      else do
        let body ← block fuel "default clause"
        clauses fuel (some body)
    | .dedent => return ([], default)
    | _ => unexpected .clause t
termination_by structural fuel => fuel

end

/-- Any statement. -/
def statement : Parse Stmt := do statementWithin (← get).depthBound

/-- Statements up to the end of the file, at most `fuel` of them. -/
def fileBody : (fuel : Nat) → Parse (List Stmt)
  | 0 => throw .exhausted
  | fuel + 1 => do
    if ← next .endOfFile then return []
    else
      let first ← statement
      let more ← fileBody fuel
      return first :: more

/-- A whole file. -/
def file : Parse Module := do
  let c ← get
  return ⟨c.file, ← fileBody c.depthBound⟩

/-- The answer alone. -/
def outcome {α : Type} (p : Parse α) (c : Cursor) : Except Failure α :=
  match p.run c with
  | .ok a _ => .ok a
  | .error failure _ => .error failure

end Parse

/-- The tree of a text. -/
def Module.ofText (file text : String) : Except Failure Module :=
  Parse.file.outcome (.ofText file text)

end Offside
