import Offside.Check.Unit
import Offside.Json.Basic

/-! Tokens, trees, types and results as JSON.

A node is an object with its number, its place and what it is; a choice between kinds is an object with
one member, or the bare name of a kind that holds nothing. How places and numbers with a fraction are
written is left to a `Json.Style`. -/
namespace Offside

namespace Json

structure Style where
  span : Span → Json
  float : Number.Double → Json

def ofLocation (l : Location) : Json :=
  object [("filename", string l.file), ("line", ofNat l.line), ("column", ofNat l.column)]

/-- Places in full, numbers as they are. -/
def Style.plain : Style where
  span s := object [("start", ofLocation s.start), ("end", ofLocation s.stop)]
  float := .float

/-! ### Tokens -/

def keywordTag : Keyword → String
  | .def_ => "Def" | .pass_ => "Pass" | .if_ => "If" | .elif_ => "Elif" | .else_ => "Else"
  | .while_ => "While" | .do_ => "Do" | .switch_ => "Switch" | .case_ => "Case"
  | .return_ => "Return" | .break_ => "Break" | .not_ => "Not" | .and_ => "And" | .or_ => "Or"
  | .define_ => "Define" | .include_ => "Include" | .ifndef_ => "Ifndef" | .endif_ => "Endif"
  | .enum_ => "Enum" | .struct_ => "Struct" | .typedef_ => "Typedef" | .sizeof_ => "Sizeof"
  | .null_ => "Null"

def symbolTag : Symbol → String
  | .plus => "Plus" | .minus => "Minus" | .star => "Star" | .slash => "Slash"
  | .percent => "Percent" | .ampersand => "Ampersand" | .pipe => "Pipe" | .caret => "Caret"
  | .tilde => "Tilde" | .equal => "Equal" | .less => "Less" | .greater => "Greater"
  | .colon => "Colon" | .plusPlus => "PlusPlus" | .minusMinus => "MinusMinus"
  | .leftShift => "LeftShift" | .rightShift => "RightShift" | .lessEqual => "LessEqual"
  | .greaterEqual => "GreaterEqual" | .equalEqual => "EqualEqual" | .bangEqual => "BangEqual"
  | .leftParen => "LeftParen" | .rightParen => "RightParen" | .leftBrace => "LeftBrace"
  | .rightBrace => "RightBrace" | .leftBracket => "LeftBracket" | .rightBracket => "RightBracket"
  | .comma => "Comma" | .dot => "Dot" | .arrow => "Arrow" | .ellipsis => "Ellipsis"

def ofTokenKind (style : Style) : TokenKind → Json
  | .int value => tagged "IntLiteral" (int value)
  | .float value => tagged "FloatLiteral" (style.float value)
  | .char value => tagged "CharLiteral" (ofNat value.toNat)
  | .string value => tagged "StringLiteral" (string value)
  | .identifier name => tagged "Identifier" (string name)
  | .keyword k => string (keywordTag k)
  | .symbol s => string (symbolTag s)
  | .whitespace width => tagged "Whitespace" (ofNat width)
  | .newline => string "Newline"
  | .indent => string "Indent"
  | .dedent => string "Dedent"
  | .endOfFile => string "EndOfFile"

def ofToken (style : Style) (t : Token) : Json :=
  object [("token_type", ofTokenKind style t.kind), ("span", style.span t.span)]

/-! ### Types -/

def ofArraySize : ArraySize → Json
  | .fixed n => tagged "Fixed" (ofNat n)
  | .symbolic written => tagged "Symbolic" (string written)

mutual

def ofValueType : ValueType → Json
  | .scalar s => tagged "Scalar" (string s.name)
  | .pointer target => tagged "Pointer" (ofValueType target)
  | .array element size =>
    tagged "Array" (object [("element", ofValueType element), ("size", ofArraySize size)])
  | .struct name members =>
    tagged "Struct" (object [("name", string name), ("members", array (ofMembers members))])
  | .function params returns =>
    tagged "Callable"
      (object [("params", array (ofValueTypes params)), ("returns", ofValueType returns)])
termination_by structural t => t

def ofValueTypes : List ValueType → List Json
  | [] => []
  | t :: rest => ofValueType t :: ofValueTypes rest
termination_by structural ts => ts

def ofMembers : List (String × ValueType) → List Json
  | [] => []
  | m :: rest => ofMember m :: ofMembers rest
termination_by structural ms => ms

def ofMember : String × ValueType → Json
  | (name, type) => array [string name, ofValueType type]
termination_by structural m => m

end

def ofTypeEntry : TypeEntry → Json
  | .base type => tagged "Base" (ofValueType type)
  | .alias target => tagged "Alias" (string target)

/-! ### Trees -/

def binaryTag : BinaryOp → String
  | .add => "Add" | .sub => "Sub" | .mul => "Mul" | .div => "Div" | .mod => "Mod"
  | .bitAnd => "BitAnd" | .bitOr => "BitOr" | .bitXor => "BitXor" | .leftShift => "LeftShift"
  | .rightShift => "RightShift" | .logicalAnd => "LogicalAnd" | .logicalOr => "LogicalOr"
  | .equal => "Equal" | .notEqual => "NotEqual" | .less => "Less" | .greater => "Greater"
  | .lessEqual => "LessEqual" | .greaterEqual => "GreaterEqual"

def unaryTag : UnaryOp → String
  | .plus => "Plus" | .minus => "Minus" | .logicalNot => "LogicalNot" | .bitNot => "BitNot"
  | .addressOf => "AddressOf" | .dereference => "Dereference" | .preIncrement => "PreIncrement"
  | .preDecrement => "PreDecrement" | .postIncrement => "PostIncrement"
  | .postDecrement => "PostDecrement"

def exprNode (style : Style) (m : ExprMark) (kind : Json) : Json :=
  object
    [("node_id", ofNat m.id), ("kind", kind), ("span", style.span m.span),
     ("expr_type", ofOption ofValueType m.type)]

def typeNode (style : Style) (s : Span) (kind : Json) : Json :=
  object [("kind", kind), ("span", style.span s)]

mutual

def ofExpr (style : Style) : Expr → Json
  | .int m value => exprNode style m (tagged "IntLiteral" (int value))
  | .float m value => exprNode style m (tagged "FloatLiteral" (style.float value))
  | .char m value => exprNode style m (tagged "CharLiteral" (ofNat value.toNat))
  | .string m value => exprNode style m (tagged "StringLiteral" (string value))
  | .null m => exprNode style m (string "Null")
  | .name m name => exprNode style m (tagged "Name" (string name))
  | .array m items => exprNode style m (tagged "ArrayLiteral" (array (ofExprs style items)))
  | .binary m op left right =>
    exprNode style m (tagged "Binary" (object
      [("op", string (binaryTag op)), ("left", ofExpr style left), ("right", ofExpr style right)]))
  | .unary m op operand =>
    exprNode style m (tagged "Unary" (object
      [("op", string (unaryTag op)), ("operand", ofExpr style operand)]))
  | .call m callee arguments =>
    exprNode style m (tagged "Call" (object
      [("function", ofExpr style callee), ("arguments", array (ofExprs style arguments))]))
  | .index m o position =>
    exprNode style m (tagged "Index" (object
      [("object", ofExpr style o), ("index", ofExpr style position)]))
  | .member m o member arrow =>
    exprNode style m (tagged "Member" (object
      [("object", ofExpr style o), ("member", string member), ("is_pointer", bool arrow)]))
  | .cast m target operand =>
    exprNode style m (tagged "Cast" (object
      [("target", ofTypeExpr style target), ("operand", ofExpr style operand)]))
  | .sizeof m target => exprNode style m (tagged "Sizeof" (ofTypeExpr style target))
termination_by structural e => e

def ofExprs (style : Style) : List Expr → List Json
  | [] => []
  | e :: rest => ofExpr style e :: ofExprs style rest
termination_by structural es => es

def ofTypeExpr (style : Style) : TypeExpr → Json
  | .name s name => typeNode style s (tagged "Name" (string name))
  | .pointer s target => typeNode style s (tagged "Pointer" (ofTypeExpr style target))
  | .array s element size =>
    typeNode style s (tagged "Array" (object
      [("element", ofTypeExpr style element), ("size", ofExpr style size)]))
  | .function s params returns =>
    typeNode style s (tagged "Callable" (object
      [("params", array (ofTypeExprs style params)), ("returns", ofTypeExpr style returns)]))
  | .vararg s => typeNode style s (string "Vararg")
termination_by structural t => t

def ofTypeExprs (style : Style) : List TypeExpr → List Json
  | [] => []
  | t :: rest => ofTypeExpr style t :: ofTypeExprs style rest
termination_by structural ts => ts

end

def ofField (style : Style) (f : Field) : Json :=
  object
    [("name", string f.name), ("field_type", ofTypeExpr style f.type), ("span", style.span f.span)]

def ofParamKind (style : Style) : ParamKind → Json
  | .named name declared =>
    tagged "Named" (object
      [("name", string name), ("declared_type", ofOption (ofTypeExpr style) declared)])
  | .vararg => string "Vararg"

def ofParam (style : Style) (p : Param) : Json :=
  object
    [("kind", ofParamKind style p.kind), ("span", style.span p.span),
     ("value_type", ofOption ofValueType p.type)]

def headMembers (style : Style) (f : FunctionHead) : List (String × Json) :=
  [("name", string f.name), ("params", array (f.params.map (ofParam style))),
   ("returns", ofOption (ofTypeExpr style) f.returns),
   ("signature", ofOption ofValueType f.signature)]

def ofVarDecl (style : Style) (d : VarDecl) : Json :=
  object
    [("name", string d.name), ("declared_type", ofOption (ofTypeExpr style) d.declared),
     ("init", ofOption (ofExpr style) d.init), ("value_type", ofOption ofValueType d.type)]

def stmtNode (style : Style) (m : Mark) (kind : Json) : Json :=
  object [("node_id", ofNat m.id), ("kind", kind), ("span", style.span m.span)]

mutual

def ofStmt (style : Style) : Stmt → Json
  | .expr m e => stmtNode style m (tagged "Expression" (ofExpr style e))
  | .declare m d => stmtNode style m (tagged "VarDecl" (ofVarDecl style d))
  | .assign m target value =>
    stmtNode style m (tagged "Assign" (object
      [("target", ofExpr style target), ("value", ofExpr style value)]))
  | .announce m head => stmtNode style m (tagged "FunctionDecl" (object (headMembers style head)))
  | .function m head body =>
    stmtNode style m (tagged "FunctionDef" (object
      (headMembers style head ++ [("body", array (ofStmts style body))])))
  | .result m value => stmtNode style m (tagged "Return" (ofOption (ofExpr style) value))
  | .ifElse m c body orelse =>
    stmtNode style m (tagged "If" (object
      [("condition", ofExpr style c), ("body", array (ofStmts style body)),
       ("orelse", array (ofStmts style orelse))]))
  | .whileLoop m c body orelse =>
    stmtNode style m (tagged "While" (object
      [("condition", ofExpr style c), ("body", array (ofStmts style body)),
       ("orelse", array (ofStmts style orelse))]))
  | .doLoop m body c =>
    stmtNode style m (tagged "DoWhile" (object
      [("body", array (ofStmts style body)), ("condition", ofExpr style c)]))
  | .switch m subject cases default =>
    stmtNode style m (tagged "Switch" (object
      [("subject", ofExpr style subject), ("cases", array (ofSwitchCases style cases)),
       ("default", ofDefault style default)]))
  | .leave m => stmtNode style m (string "Break")
  | .pass m => stmtNode style m (string "Pass")
  | .struct m name fields =>
    stmtNode style m (tagged "Struct" (object
      [("name", string name), ("fields", array (fields.map (ofField style)))]))
  | .enum m name members =>
    stmtNode style m (tagged "Enum" (object
      [("name", string name), ("members", array (members.map string))]))
  | .typedef m target name =>
    stmtNode style m (tagged "Typedef" (object
      [("target", ofTypeExpr style target), ("name", string name)]))
  | .define m name value =>
    stmtNode style m (tagged "Define" (object
      [("name", string name), ("value", ofOption (ofExpr style) value)]))
  | .includeFile m path => stmtNode style m (tagged "Include" (string path))
  | .ifndef m name => stmtNode style m (tagged "Ifndef" (string name))
  | .endif m => stmtNode style m (string "Endif")
termination_by structural s => s

def ofStmts (style : Style) : List Stmt → List Json
  | [] => []
  | s :: rest => ofStmt style s :: ofStmts style rest
termination_by structural ss => ss

def ofDefault (style : Style) : Option (List Stmt) → Json
  | none => null
  | some body => array (ofStmts style body)
termination_by structural d => d

def ofSwitchCases (style : Style) : List SwitchCase → List Json
  | [] => []
  | c :: rest => ofSwitchCase style c :: ofSwitchCases style rest
termination_by structural cs => cs

def ofSwitchCase (style : Style) : SwitchCase → Json
  | .mk span values body =>
    object
      [("values", array (ofExprs style values)), ("body", array (ofStmts style body)),
       ("span", style.span span)]
termination_by structural c => c

end

def ofModule (style : Style) (m : Module) : Json :=
  object [("filename", string m.file), ("body", array (ofStmts style m.body))]

/-! ### Results -/

/-- The entries of a dictionary in the order of names. -/
def ofDictionary {α : Type} (encode : α → Json) (d : Dictionary α) : Json :=
  object (d.sorted.map fun e => (e.1, encode e.2))

def ofNames (names : List String) : Json := array (names.map string)

def ofScope (s : Scope) : Json :=
  object
    [("variables", ofDictionary ofValueType s.bindings),
     ("types", object [("entries", ofDictionary ofTypeEntry s.types.entries)]),
     ("defined_functions", ofNames s.definedFunctions.sorted),
     ("constants", ofDictionary int s.constants),
     ("macros", ofNames s.macros.sorted)]

def ofUnit (style : Style) (u : CheckedUnit) : Json :=
  object
    [("headers", ofNames u.headers),
     ("module", ofModule style u.module),
     ("units", object (u.units.map fun (path, m) => (path.text, ofModule style m))),
     ("globals", ofScope u.globals)]

def severityTag : Severity → String
  | .error => "Error"
  | .note => "Note"

def ofDiagnostic (d : Diagnostic) : Json :=
  object
    [("severity", string (severityTag d.severity)), ("message", string d.message),
     ("location", ofOption ofLocation d.location), ("notes", ofNames d.notes)]

end Json

end Offside
