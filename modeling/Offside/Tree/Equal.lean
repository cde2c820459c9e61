import Offside.Tree.Basic

/-! Comparing trees.

`TypeExpr.sameShape` compares types as they are written, wherever they stand: array sizes agree when
both are the same numeral or the same name. `Module.same` compares everything, numbers and places
included. -/
namespace Offside

namespace TypeExpr

/-- Array sizes of one shape are the same numeral or the same name. -/
def sameSize : Expr → Expr → Bool
  | .int _ a, .int _ b => a == b
  | .name _ a, .name _ b => a == b
  | _, _ => false

mutual

/-- Whether two types are written alike, places aside. -/
def sameShape : TypeExpr → TypeExpr → Bool
  | name _ a, name _ b => a == b
  | pointer _ a, pointer _ b => sameShape a b
  | array _ a m, array _ b n => sameSize m n && sameShape a b
  | function _ ps r, function _ qs q => sameShapes ps qs && sameShape r q
  | vararg _, vararg _ => true
  | _, _ => false

def sameShapes : List TypeExpr → List TypeExpr → Bool
  | [], [] => true
  | a :: as, b :: bs => sameShape a b && sameShapes as bs
  | _, _ => false

end

end TypeExpr

/-- Comparing what may be missing. -/
def sameOption {α : Type} (same : α → α → Bool) : Option α → Option α → Bool
  | some a, some b => same a b
  | none, none => true
  | _, _ => false

/-- Comparing one by one. -/
def sameEach {α : Type} (same : α → α → Bool) : List α → List α → Bool
  | [], [] => true
  | a :: as, b :: bs => same a b && sameEach same as bs
  | _, _ => false

def ExprMark.same (m n : ExprMark) : Bool :=
  m.toMark == n.toMark && sameOption ValueType.same m.type n.type

mutual

def Expr.same : Expr → Expr → Bool
  | .int m a, .int n b => m.same n && a == b
  | .float m a, .float n b => m.same n && a == b
  | .char m a, .char n b => m.same n && a == b
  | .string m a, .string n b => m.same n && a == b
  | .null m, .null n => m.same n
  | .name m a, .name n b => m.same n && a == b
  | .array m as, .array n bs => m.same n && Expr.sameList as bs
  | .binary m o a b, .binary n p c d => m.same n && o == p && Expr.same a c && Expr.same b d
  | .unary m o a, .unary n p b => m.same n && o == p && Expr.same a b
  | .call m f as, .call n g bs => m.same n && Expr.same f g && Expr.sameList as bs
  | .index m a i, .index n b j => m.same n && Expr.same a b && Expr.same i j
  | .member m a x v, .member n b y w => m.same n && Expr.same a b && x == y && v == w
  | .cast m t a, .cast n u b => m.same n && TypeExpr.same t u && Expr.same a b
  | .sizeof m t, .sizeof n u => m.same n && TypeExpr.same t u
  | _, _ => false
termination_by structural x => x

def Expr.sameList : List Expr → List Expr → Bool
  | [], [] => true
  | a :: as, b :: bs => Expr.same a b && Expr.sameList as bs
  | _, _ => false
termination_by structural x => x

def TypeExpr.same : TypeExpr → TypeExpr → Bool
  | .name s a, .name t b => s == t && a == b
  | .pointer s a, .pointer t b => s == t && TypeExpr.same a b
  | .array s a m, .array t b n => s == t && TypeExpr.same a b && Expr.same m n
  | .function s ps r, .function t qs q => s == t && TypeExpr.sameList ps qs && TypeExpr.same r q
  | .vararg s, .vararg t => s == t
  | _, _ => false
termination_by structural x => x

def TypeExpr.sameList : List TypeExpr → List TypeExpr → Bool
  | [], [] => true
  | a :: as, b :: bs => TypeExpr.same a b && TypeExpr.sameList as bs
  | _, _ => false
termination_by structural x => x

end

def VarDecl.same (a b : VarDecl) : Bool :=
  a.name == b.name && sameOption TypeExpr.same a.declared b.declared
    && sameOption Expr.same a.init b.init && sameOption ValueType.same a.type b.type

def Field.same (a b : Field) : Bool :=
  a.name == b.name && TypeExpr.same a.type b.type && a.span == b.span

def ParamKind.same : ParamKind → ParamKind → Bool
  | .named a t, .named b u => a == b && sameOption TypeExpr.same t u
  | .vararg, .vararg => true
  | _, _ => false

def Param.same (a b : Param) : Bool :=
  a.kind.same b.kind && a.span == b.span && sameOption ValueType.same a.type b.type

def FunctionHead.same (a b : FunctionHead) : Bool :=
  a.name == b.name && sameEach Param.same a.params b.params
    && sameOption TypeExpr.same a.returns b.returns
    && sameOption ValueType.same a.signature b.signature

mutual

def Stmt.same : Stmt → Stmt → Bool
  | .expr m a, .expr n b => m == n && a.same b
  | .declare m a, .declare n b => m == n && a.same b
  | .assign m a v, .assign n b w => m == n && a.same b && v.same w
  | .announce m a, .announce n b => m == n && a.same b
  | .function m a s, .function n b t => m == n && a.same b && Stmt.sameList s t
  | .result m a, .result n b => m == n && sameOption Expr.same a b
  | .ifElse m c s e, .ifElse n d t f => m == n && c.same d && Stmt.sameList s t && Stmt.sameList e f
  | .whileLoop m c s e, .whileLoop n d t f =>
    m == n && c.same d && Stmt.sameList s t && Stmt.sameList e f
  | .doLoop m s c, .doLoop n t d => m == n && Stmt.sameList s t && c.same d
  | .switch m a cs d, .switch n b ds e =>
    m == n && a.same b && SwitchCase.sameList cs ds && Stmt.sameBlock d e
  | .leave m, .leave n => m == n
  | .pass m, .pass n => m == n
  | .struct m a fs, .struct n b gs => m == n && a == b && sameEach Field.same fs gs
  | .enum m a xs, .enum n b ys => m == n && a == b && xs == ys
  | .typedef m t a, .typedef n u b => m == n && t.same u && a == b
  | .define m a v, .define n b w => m == n && a == b && sameOption Expr.same v w
  | .includeFile m a, .includeFile n b => m == n && a == b
  | .ifndef m a, .ifndef n b => m == n && a == b
  | .endif m, .endif n => m == n
  | _, _ => false
termination_by structural x => x

def Stmt.sameList : List Stmt → List Stmt → Bool
  | [], [] => true
  | a :: as, b :: bs => Stmt.same a b && Stmt.sameList as bs
  | _, _ => false
termination_by structural x => x

def Stmt.sameBlock : Option (List Stmt) → Option (List Stmt) → Bool
  | some as, some bs => Stmt.sameList as bs
  | none, none => true
  | _, _ => false
termination_by structural x => x

def SwitchCase.same : SwitchCase → SwitchCase → Bool
  | .mk s vs as, .mk t ws bs => s == t && Expr.sameList vs ws && Stmt.sameList as bs
termination_by structural x => x

def SwitchCase.sameList : List SwitchCase → List SwitchCase → Bool
  | [], [] => true
  | a :: as, b :: bs => SwitchCase.same a b && SwitchCase.sameList as bs
  | _, _ => false
termination_by structural x => x

end

/-- Equal trees, down to the numbers and places of all nodes. -/
def Module.same (a b : Module) : Bool :=
  a.file == b.file && Stmt.sameList a.body b.body

end Offside
