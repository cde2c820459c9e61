import Offside.Tree.Operator
import Offside.Types.Basic

/-! Trees of programs.

Three families of nodes: expressions, types as written, and statements. Every expression and statement
carries a `Mark`, its number and the text it was read from; a type as written carries a span only.
Numbers of nodes do not run out, so programs of 2^32 or more nodes are out of scope.
Checking a program leaves its tree as it is and adds types: to expressions (`ExprMark.type`), to
declarations, parameters and functions. -/
namespace Offside

/-- Number and place of a node. -/
structure Mark where
  id : Nat
  span : Span
  deriving DecidableEq, Repr, Inhabited

/-- The mark of an expression, with its type once it has been checked. -/
structure ExprMark extends Mark where
  type : Option ValueType := none
  deriving Repr, Inhabited

mutual

inductive Expr where
  | int (mark : ExprMark) (value : Int)
  | float (mark : ExprMark) (value : Number.Double)
  | char (mark : ExprMark) (value : Char)
  | string (mark : ExprMark) (value : String)
  | null (mark : ExprMark)
  | name (mark : ExprMark) (name : String)
  | array (mark : ExprMark) (items : List Expr)
  | binary (mark : ExprMark) (op : BinaryOp) (left right : Expr)
  | unary (mark : ExprMark) (op : UnaryOp) (operand : Expr)
  | call (mark : ExprMark) (callee : Expr) (arguments : List Expr)
  | index (mark : ExprMark) (object : Expr) (position : Expr)
  /-- A member of a struct, or through an arrow of the struct behind a pointer. -/
  | member (mark : ExprMark) (object : Expr) (member : String) (arrow : Bool)
  | cast (mark : ExprMark) (target : TypeExpr) (operand : Expr)
  | sizeof (mark : ExprMark) (target : TypeExpr)

/-- A type as written. -/
inductive TypeExpr where
  | name (span : Span) (name : String)
  | pointer (span : Span) (target : TypeExpr)
  | array (span : Span) (element : TypeExpr) (size : Expr)
  | function (span : Span) (params : List TypeExpr) (returns : TypeExpr)
  | vararg (span : Span)

end

namespace Expr

def mark : Expr → ExprMark
  | int m _ | float m _ | char m _ | string m _ | null m | name m _ | array m _ | binary m _ _ _
  | unary m _ _ | call m _ _ | index m _ _ | member m _ _ _ | cast m _ _ | sizeof m _ => m

def withMark (m : ExprMark) : Expr → Expr
  | int _ v => int m v
  | float _ v => float m v
  | char _ v => char m v
  | string _ v => string m v
  | null _ => null m
  | name _ n => name m n
  | array _ items => array m items
  | binary _ op l r => binary m op l r
  | unary _ op e => unary m op e
  | call _ f args => call m f args
  | index _ o i => index m o i
  | member _ o n arrow => member m o n arrow
  | cast _ t e => cast m t e
  | sizeof _ t => sizeof m t

def span (e : Expr) : Span := e.mark.span

/-- Where the expression starts. -/
def start (e : Expr) : Location := e.span.start

def type? (e : Expr) : Option ValueType := e.mark.type

/-- The same expression with a type. -/
def typed (e : Expr) (t : ValueType) : Expr :=
  e.withMark { e.mark with type := some t }

def isLiteral : Expr → Bool
  | int _ _ | float _ _ | char _ _ | string _ _ | array _ _ | null _ => true
  | _ => false

/-- Whether the expression names a place that can be assigned to. -/
def isPlace : Expr → Bool
  | name _ _ | index _ _ _ | member _ _ _ _ => true
  | unary _ op _ => op == .dereference
  | _ => false

/-- Whether the expression is a literal whose length may differ from that of its target. -/
def fillsArray : Expr → Bool
  | string _ _ | array _ _ => true
  | _ => false

end Expr

namespace TypeExpr

def span : TypeExpr → Span
  | name s _ | pointer s _ | array s _ _ | function s _ _ | vararg s => s

/-- Where the type starts. -/
def start (t : TypeExpr) : Location := t.span.start

def isVararg : TypeExpr → Bool
  | vararg _ => true
  | _ => false

def isFunction : TypeExpr → Bool
  | function _ _ _ => true
  | _ => false

end TypeExpr

/-- A variable with its type as written, and with the type found for it once it has been checked. A
variable that an assignment declares has no written type. -/
structure VarDecl where
  name : String
  declared : Option TypeExpr
  init : Option Expr
  type : Option ValueType := none

structure Field where
  name : String
  type : TypeExpr
  span : Span

inductive ParamKind where
  | named (name : String) (declared : Option TypeExpr)
  | vararg

structure Param where
  kind : ParamKind
  span : Span
  type : Option ValueType := none

namespace Param

def name? (p : Param) : Option String :=
  match p.kind with
  | .named n _ => some n
  | .vararg => none

end Param

/-- Everything about a function but its body. -/
structure FunctionHead where
  name : String
  params : List Param
  returns : Option TypeExpr
  signature : Option ValueType := none

mutual

inductive Stmt where
  | expr (mark : Mark) (value : Expr)
  | declare (mark : Mark) (decl : VarDecl)
  | assign (mark : Mark) (target value : Expr)
  /-- A function announced without a body. -/
  | announce (mark : Mark) (head : FunctionHead)
  | function (mark : Mark) (head : FunctionHead) (body : List Stmt)
  | result (mark : Mark) (value : Option Expr)
  /-- A further condition is an `ifElse` that stands alone in the other branch. -/
  | ifElse (mark : Mark) (condition : Expr) (body : List Stmt) (orelse : List Stmt)
  /-- The second block runs when the condition turns false. -/
  | whileLoop (mark : Mark) (condition : Expr) (body : List Stmt) (orelse : List Stmt)
  | doLoop (mark : Mark) (body : List Stmt) (condition : Expr)
  | switch (mark : Mark) (subject : Expr) (cases : List SwitchCase) (default : Option (List Stmt))
  | leave (mark : Mark)
  | pass (mark : Mark)
  | struct (mark : Mark) (name : String) (fields : List Field)
  | enum (mark : Mark) (name : String) (members : List String)
  | typedef (mark : Mark) (target : TypeExpr) (name : String)
  | define (mark : Mark) (name : String) (value : Option Expr)
  | includeFile (mark : Mark) (path : String)
  | ifndef (mark : Mark) (name : String)
  | endif (mark : Mark)

inductive SwitchCase where
  | mk (span : Span) (values : List Expr) (body : List Stmt)

end

namespace Stmt

def mark : Stmt → Mark
  | expr m _ | declare m _ | assign m _ _ | announce m _ | function m _ _ | result m _
  | ifElse m _ _ _ | whileLoop m _ _ _ | doLoop m _ _ | switch m _ _ _ | leave m | pass m
  | struct m _ _ | enum m _ _ | typedef m _ _ | define m _ _ | includeFile m _ | ifndef m _
  | endif m => m

def span (s : Stmt) : Span := s.mark.span

/-- Where the statement starts. -/
def start (s : Stmt) : Location := s.span.start

/-- The type a checked statement shows: of its expression, its variable or its target. -/
def shownType : Stmt → Option ValueType
  | expr _ e => e.type?
  | declare _ d => d.type
  | assign _ target _ => target.type?
  | _ => none

end Stmt

/-- A source file as a tree. -/
structure Module where
  file : String
  body : List Stmt

end Offside
