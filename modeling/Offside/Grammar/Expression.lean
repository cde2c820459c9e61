import Offside.Grammar.Cursor

/-! Reading expressions and types.

An expression is read by the levels of its operators: `tighter` reads an operand and then goes on with
operators as long as they bind tighter than a given level. A type is a base with suffixes, each of which
wraps all that stands before it, so `int[3][]` is a pointer to arrays of three. The two need each other,
in casts and in the sizes of arrays. -/
namespace Offside

namespace Parse

mutual

/-- An expression whose operators all bind tighter than `level`. -/
def tighter : (fuel : Nat) → (level : Nat) → Parse Expr
  | 0, _ => throw .exhausted
  | fuel + 1, level => do
    let left ← operand fuel
    goOn fuel level left
termination_by structural fuel => fuel

/-- Goes on with an expression as far as operators bind tighter than `level`. -/
def goOn : (fuel : Nat) → (level : Nat) → (left : Expr) → Parse Expr
  | 0, _, _ => throw .exhausted
  | fuel + 1, level, left => do
    let kind ← peekKind
    if kind.followsOperand then
      if postfixLevel ≤ level then return left
      else
        let whole ← suffix fuel left
        goOn fuel level whole
    else
      match BinaryOp.ofToken kind with
      | none => return left
      | some op =>
        if op.level ≤ level then return left
        else
          let _ ← advance
          let right ← tighter fuel op.rightLevel
          let id ← fresh
          goOn fuel level (.binary { id, span := left.span.extend right.span } op left right)
termination_by structural fuel => fuel

/-- An operand with its prefix operators and casts. -/
def operand : (fuel : Nat) → Parse Expr
  | 0 => throw .exhausted
  | fuel + 1 => do
    let t ← peek
    if t.kind = .symbol .less then
      let _ ← advance
      let target ← plainType fuel
      expectSymbol .greater "cast"
      let value ← tighter fuel prefixLevel
      finish t.start (.cast · target value)
    else
      match UnaryOp.ofToken t.kind with
      | some op =>
        let _ ← advance
        let value ← tighter fuel prefixLevel
        finish t.start (.unary · op value)
      | none => primary fuel
termination_by structural fuel => fuel

/-- An operand without operators. Parentheses leave no trace in the tree. -/
def primary : (fuel : Nat) → Parse Expr
  | 0 => throw .exhausted
  | fuel + 1 => do
    let t ← advance
    match t.kind with
    | .int value => finish t.start (.int · value)
    | .float value => finish t.start (.float · value)
    | .char value => finish t.start (.char · value)
    | .string value => finish t.start (.string · value)
    | .keyword .null_ => finish t.start .null
    | .identifier name => finish t.start (.name · name)
    | .symbol .leftParen =>
      let inner ← tighter fuel 0
      expectSymbol .rightParen "parenthesized expression"
      return inner
    | .symbol .leftBracket =>
      let items ← expressions fuel .rightBracket
      expectSymbol .rightBracket "array literal"
      finish t.start (.array · items)
    | .keyword .sizeof_ =>
      expectSymbol .leftParen "sizeof"
      let target ← plainType fuel
      expectSymbol .rightParen "sizeof"
      finish t.start (.sizeof · target)
    | _ => unexpected .expression t
termination_by structural fuel => fuel

/-- What follows an operand: a step up or down, a call, an index or a member. -/
def suffix : (fuel : Nat) → (object : Expr) → Parse Expr
  | 0, _ => throw .exhausted
  | fuel + 1, object => do
    let t ← advance
    match t.kind with
    | .symbol .plusPlus => finish object.start (.unary · .postIncrement object)
    | .symbol .minusMinus => finish object.start (.unary · .postDecrement object)
    | .symbol .leftParen =>
      let arguments ← expressions fuel .rightParen
      expectSymbol .rightParen "call arguments"
      finish object.start (.call · object arguments)
    | .symbol .leftBracket =>
      let position ← tighter fuel 0
      expectSymbol .rightBracket "index"
      finish object.start (.index · object position)
    | .symbol .dot =>
      let (name, _) ← expectName "member access"
      finish object.start (.member · object name false)
    | .symbol .arrow =>
      let (name, _) ← expectName "member access"
      finish object.start (.member · object name true)
    | _ => unexpected .expression t
termination_by structural fuel => fuel

/-- Expressions with commas between them, up to a closing bracket that stays. -/
def expressions : (fuel : Nat) → (closing : Symbol) → Parse (List Expr)
  | 0, _ => throw .exhausted
  | fuel + 1, closing => do
    if ← next (.symbol closing) then return []
    else
      let first ← tighter fuel 0
      if ← accept (.symbol .comma) then
        let more ← expressions fuel closing
        return first :: more
      else return [first]
termination_by structural fuel => fuel

/-- A type other than `...`. -/
def plainType : (fuel : Nat) → Parse TypeExpr
  | 0 => throw .exhausted
  | fuel + 1 => do
    let type ← typeOrVararg fuel
    if type.isVararg then fail .misplacedVararg type.start
    else return type
termination_by structural fuel => fuel

def typeOrVararg : (fuel : Nat) → Parse TypeExpr
  | 0 => throw .exhausted
  | fuel + 1 => do
    let start := (← peek).start
    if ← accept (.symbol .ellipsis) then return .vararg (← spanFrom start)
    else
      let base ← typeBase fuel
      typeSuffixes fuel start base
termination_by structural fuel => fuel

/-- Wraps a type in the suffixes behind it. -/
def typeSuffixes : (fuel : Nat) → (start : Location) → (type : TypeExpr) → Parse TypeExpr
  | 0, _, _ => throw .exhausted
  | fuel + 1, start, type => do
    if ← accept (.symbol .leftBracket) then
      if ← accept (.symbol .rightBracket) then
        typeSuffixes fuel start (.pointer (← spanFrom start) type)
      else
        let size ← tighter fuel 0
        expectSymbol .rightBracket "array type"
        typeSuffixes fuel start (.array (← spanFrom start) type size)
    else return type
termination_by structural fuel => fuel

/-- A name, a type in braces, or the type of a function. -/
def typeBase : (fuel : Nat) → Parse TypeExpr
  | 0 => throw .exhausted
  | fuel + 1 => do
    let t ← advance
    match t.kind with
    | .identifier name => return .name t.span name
    | .symbol .leftBrace =>
      let inner ← plainType fuel
      expectSymbol .rightBrace "grouped type"
      return inner
    | .symbol .leftParen =>
      let params ← if ← next (.symbol .rightParen) then pure [] else typeList fuel
      expectSymbol .rightParen "callable type"
      expectSymbol .arrow "callable type"
      let returns ← plainType fuel
      return .function (← spanFrom t.start) params returns
    | _ => unexpected .type t
termination_by structural fuel => fuel

/-- One type or more, with commas between them. -/
def typeList : (fuel : Nat) → Parse (List TypeExpr)
  | 0 => throw .exhausted
  | fuel + 1 => do
    let first ← typeOrVararg fuel
    if ← accept (.symbol .comma) then
      let more ← typeList fuel
      return first :: more
    else return [first]
termination_by structural fuel => fuel

end

/-- Any expression. -/
def expression : Parse Expr := do tighter (← get).depthBound 0

/-- Any type other than `...`. -/
def type : Parse TypeExpr := do plainType (← get).depthBound

end Parse

end Offside
