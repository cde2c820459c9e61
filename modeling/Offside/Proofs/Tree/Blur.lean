import Offside.Tree.Basic

/-! Trees seen without some of their notes.

Nodes carry notes that are not part of what was written: numbers, places, and types that a check has
found. A `Blur` says what is left of each kind of note, and blurring a tree (`Module.blur`) applies it
everywhere and changes nothing else. Two trees say the same, notes of some kind aside, when they are equal
once blurred: `Blur.places` takes out numbers and places, `Blur.types` the types. -/
namespace Offside

/-- What is left of the notes on a tree. -/
structure Blur where
  mark : Mark → Mark
  span : Span → Span
  type : Option ValueType → Option ValueType

namespace Blur

/-- Without numbers and places. -/
def places : Blur := ⟨fun _ => default, fun _ => default, id⟩

/-- Without the types that a check has found. -/
def types : Blur := ⟨id, id, fun _ => none⟩

end Blur

def ExprMark.blur (b : Blur) (m : ExprMark) : ExprMark := ⟨b.mark m.toMark, b.type m.type⟩

mutual

def Expr.blur (b : Blur) : Expr → Expr
  | .int m v => .int (m.blur b) v
  | .float m v => .float (m.blur b) v
  | .char m v => .char (m.blur b) v
  | .string m v => .string (m.blur b) v
  | .null m => .null (m.blur b)
  | .name m n => .name (m.blur b) n
  | .array m items => .array (m.blur b) (Expr.blurList b items)
  | .binary m op l r => .binary (m.blur b) op (l.blur b) (r.blur b)
  | .unary m op e => .unary (m.blur b) op (e.blur b)
  | .call m f args => .call (m.blur b) (f.blur b) (Expr.blurList b args)
  | .index m o i => .index (m.blur b) (o.blur b) (i.blur b)
  | .member m o n arrow => .member (m.blur b) (o.blur b) n arrow
  | .cast m t e => .cast (m.blur b) (t.blur b) (e.blur b)
  | .sizeof m t => .sizeof (m.blur b) (t.blur b)

def Expr.blurList (b : Blur) : List Expr → List Expr
  | [] => []
  | e :: rest => e.blur b :: Expr.blurList b rest

def TypeExpr.blur (b : Blur) : TypeExpr → TypeExpr
  | .name s n => .name (b.span s) n
  | .pointer s t => .pointer (b.span s) (t.blur b)
  | .array s t size => .array (b.span s) (t.blur b) (size.blur b)
  | .function s params returns => .function (b.span s) (TypeExpr.blurList b params) (returns.blur b)
  | .vararg s => .vararg (b.span s)

def TypeExpr.blurList (b : Blur) : List TypeExpr → List TypeExpr
  | [] => []
  | t :: rest => t.blur b :: TypeExpr.blurList b rest

end

theorem Expr.blurList_eq (b : Blur) (es : List Expr) : Expr.blurList b es = es.map (·.blur b) := by
  induction es with
  | nil => rfl
  | cons e es ih => rw [Expr.blurList, ih, List.map_cons]

theorem Expr.isPlace_blur (b : Blur) (e : Expr) : (e.blur b).isPlace = e.isPlace := by
  cases e <;> rfl

theorem TypeExpr.isVararg_blur (b : Blur) (t : TypeExpr) : (t.blur b).isVararg = t.isVararg := by
  cases t <;> rfl

def VarDecl.blur (b : Blur) (d : VarDecl) : VarDecl :=
  ⟨d.name, d.declared.map (·.blur b), d.init.map (·.blur b), b.type d.type⟩

def Field.blur (b : Blur) (f : Field) : Field := ⟨f.name, f.type.blur b, b.span f.span⟩

def ParamKind.blur (b : Blur) : ParamKind → ParamKind
  | .named n declared => .named n (declared.map (·.blur b))
  | .vararg => .vararg

def Param.blur (b : Blur) (p : Param) : Param := ⟨p.kind.blur b, b.span p.span, b.type p.type⟩

def FunctionHead.blur (b : Blur) (f : FunctionHead) : FunctionHead :=
  ⟨f.name, f.params.map (·.blur b), f.returns.map (·.blur b), b.type f.signature⟩

mutual

def Stmt.blur (b : Blur) : Stmt → Stmt
  | .expr m e => .expr (b.mark m) (e.blur b)
  | .declare m d => .declare (b.mark m) (d.blur b)
  | .assign m target value => .assign (b.mark m) (target.blur b) (value.blur b)
  | .announce m f => .announce (b.mark m) (f.blur b)
  | .function m f body => .function (b.mark m) (f.blur b) (Stmt.blurList b body)
  | .result m value => .result (b.mark m) (value.map (·.blur b))
  | .ifElse m c body orelse =>
    .ifElse (b.mark m) (c.blur b) (Stmt.blurList b body) (Stmt.blurList b orelse)
  | .whileLoop m c body orelse =>
    .whileLoop (b.mark m) (c.blur b) (Stmt.blurList b body) (Stmt.blurList b orelse)
  | .doLoop m body c => .doLoop (b.mark m) (Stmt.blurList b body) (c.blur b)
  | .switch m subject cases default =>
    .switch (b.mark m) (subject.blur b) (SwitchCase.blurList b cases) (Stmt.blurBlock b default)
  | .leave m => .leave (b.mark m)
  | .pass m => .pass (b.mark m)
  | .struct m n fields => .struct (b.mark m) n (fields.map (·.blur b))
  | .enum m n members => .enum (b.mark m) n members
  | .typedef m t n => .typedef (b.mark m) (t.blur b) n
  | .define m n value => .define (b.mark m) n (value.map (·.blur b))
  | .includeFile m path => .includeFile (b.mark m) path
  | .ifndef m n => .ifndef (b.mark m) n
  | .endif m => .endif (b.mark m)

def Stmt.blurList (b : Blur) : List Stmt → List Stmt
  | [] => []
  | s :: rest => s.blur b :: Stmt.blurList b rest

def Stmt.blurBlock (b : Blur) : Option (List Stmt) → Option (List Stmt)
  | none => none
  | some body => some (Stmt.blurList b body)

def SwitchCase.blur (b : Blur) : SwitchCase → SwitchCase
  | .mk s values body => .mk (b.span s) (Expr.blurList b values) (Stmt.blurList b body)

def SwitchCase.blurList (b : Blur) : List SwitchCase → List SwitchCase
  | [] => []
  | c :: rest => c.blur b :: SwitchCase.blurList b rest

end

def Module.blur (b : Blur) (m : Module) : Module := ⟨m.file, Stmt.blurList b m.body⟩

end Offside
