import Mathlib.Data.List.Perm.Basic
import Mathlib.Data.List.Range
import Offside.Grammar.EntryPoint

/-! The nodes of a tree.

What stands in a tree has a span, and numbers of nodes in it (`Piece`). A `Node` is one of the things that
have a span, with its own number if it is an expression or a statement, and with its parts in the order of
the text. `Stmt.Every` says that all nodes of a statement have some property.

Two nodes do not show the order of the text by themselves. The default of a switch may stand between any
two of its cases, and what the entry point leaves out is filled in where no text stands for it; the nodes of
its head are those of the head as it was written (`FunctionHead.Fills`). -/
namespace Offside

/-! ### Places -/

/-- In the same file, and not behind. -/
structure Location.UpTo (l m : Location) : Prop where
  file : l.file = m.file
  order : l.position.precedes m.position = true

namespace Location.UpTo

variable {l m n : Location}

theorem refl (l : Location) : l.UpTo l := ⟨rfl, l.position.precedes_refl⟩

theorem trans (h : l.UpTo m) (h' : m.UpTo n) : l.UpTo n := by
  refine ⟨h.file.trans h'.file, ?_⟩
  have hl := h.order
  have hm := h'.order
  simp only [Position.precedes, Bool.or_eq_true, Bool.and_eq_true, decide_eq_true_eq, beq_iff_eq] at *
  omega

theorem antisymm (h : l.UpTo m) (h' : m.UpTo l) : l = m := by
  have hl := h.order
  have hm := h'.order
  obtain ⟨file, line, column⟩ := l
  obtain ⟨file', line', column'⟩ := m
  obtain rfl : file = file' := h.file
  simp only [Position.precedes, Bool.or_eq_true, Bool.and_eq_true, decide_eq_true_eq, beq_iff_eq] at hl hm
  obtain rfl : line = line' := by omega
  obtain rfl : column = column' := by omega
  rfl

end Location.UpTo

/-- The span goes forward and holds the others, one behind the other. -/
structure Span.Holds (whole : Span) (parts : List Span) : Prop where
  ordered : whole.start.UpTo whole.stop
  inside : ∀ part ∈ parts, whole.start.UpTo part.start ∧ part.stop.UpTo whole.stop
  apart : parts.Pairwise fun part other => part.stop.UpTo other.start

/-! ### Pieces -/

mutual

/-- The numbers of the nodes in an expression, its own last. -/
def Expr.ids : Expr → List Nat
  | .int m _ | .float m _ | .char m _ | .string m _ | .null m | .name m _ => [m.id]
  | .array m items => Expr.idsList items ++ [m.id]
  | .binary m _ left right => left.ids ++ right.ids ++ [m.id]
  | .unary m _ operand => operand.ids ++ [m.id]
  | .call m callee arguments => callee.ids ++ Expr.idsList arguments ++ [m.id]
  | .index m object position => object.ids ++ position.ids ++ [m.id]
  | .member m object _ _ => object.ids ++ [m.id]
  | .cast m target operand => target.ids ++ operand.ids ++ [m.id]
  | .sizeof m target => target.ids ++ [m.id]

def Expr.idsList : List Expr → List Nat
  | [] => []
  | e :: rest => e.ids ++ Expr.idsList rest

/-- The numbers of the expressions in a type. -/
def TypeExpr.ids : TypeExpr → List Nat
  | .name _ _ | .vararg _ => []
  | .pointer _ target => target.ids
  | .array _ element size => element.ids ++ size.ids
  | .function _ params returns => TypeExpr.idsList params ++ returns.ids

def TypeExpr.idsList : List TypeExpr → List Nat
  | [] => []
  | t :: rest => t.ids ++ TypeExpr.idsList rest

end

/-- A stretch of text and the numbers of the nodes in it. -/
structure Piece where
  span : Span
  ids : List Nat

def Expr.piece (e : Expr) : Piece := ⟨e.span, e.ids⟩

def TypeExpr.piece (t : TypeExpr) : Piece := ⟨t.span, t.ids⟩

def VarDecl.pieces (d : VarDecl) : List Piece := d.declared.toList.map TypeExpr.piece ++ d.init.toList.map Expr.piece

def Field.piece (f : Field) : Piece := ⟨f.span, f.type.ids⟩

/-- The type of a parameter, if one is written. -/
def Param.declared? (p : Param) : Option TypeExpr := match p.kind with
  | .named _ declared => declared
  | .vararg => none

def Param.piece (p : Param) : Piece := ⟨p.span, TypeExpr.idsList p.declared?.toList⟩

def FunctionHead.pieces (f : FunctionHead) : List Piece :=
  f.params.map Param.piece ++ f.returns.toList.map TypeExpr.piece

mutual

/-- The numbers of the nodes in a statement, its own last. -/
def Stmt.ids : Stmt → List Nat
  | .expr m e => e.ids ++ [m.id]
  | .declare m d => d.pieces.flatMap Piece.ids ++ [m.id]
  | .assign m target value => target.ids ++ value.ids ++ [m.id]
  | .announce m f => f.pieces.flatMap Piece.ids ++ [m.id]
  | .function m f body => f.pieces.flatMap Piece.ids ++ Stmt.idsList body ++ [m.id]
  | .result m value | .define m _ value => Expr.idsList value.toList ++ [m.id]
  | .ifElse m c body orelse | .whileLoop m c body orelse =>
    c.ids ++ Stmt.idsList body ++ Stmt.idsList orelse ++ [m.id]
  | .doLoop m body c => Stmt.idsList body ++ c.ids ++ [m.id]
  | .switch m subject cases default =>
    subject.ids ++ SwitchCase.idsList cases ++ Stmt.idsBlock default ++ [m.id]
  | .struct m _ fields => (fields.map Field.piece).flatMap Piece.ids ++ [m.id]
  | .typedef m target _ => target.ids ++ [m.id]
  | .leave m | .pass m | .enum m _ _ | .includeFile m _ | .ifndef m _ | .endif m => [m.id]

def Stmt.idsList : List Stmt → List Nat
  | [] => []
  | s :: rest => s.ids ++ Stmt.idsList rest

def Stmt.idsBlock : Option (List Stmt) → List Nat
  | none => []
  | some body => Stmt.idsList body

def SwitchCase.ids : SwitchCase → List Nat
  | .mk _ values body => Expr.idsList values ++ Stmt.idsList body

def SwitchCase.idsList : List SwitchCase → List Nat
  | [] => []
  | c :: rest => c.ids ++ SwitchCase.idsList rest

end

def SwitchCase.span : SwitchCase → Span
  | .mk span _ _ => span

def Stmt.piece (s : Stmt) : Piece := ⟨s.span, s.ids⟩

def SwitchCase.piece (c : SwitchCase) : Piece := ⟨c.span, c.ids⟩

/-- The numbers of all nodes of a module. -/
def Module.ids (m : Module) : List Nat := Stmt.idsList m.body

theorem Expr.idsList_eq (es : List Expr) : Expr.idsList es = (es.map Expr.piece).flatMap Piece.ids := by
  induction es with
  | nil => rfl
  | cons e rest ih => rw [Expr.idsList, ih]; rfl

theorem TypeExpr.idsList_eq (ts : List TypeExpr) :
    TypeExpr.idsList ts = (ts.map TypeExpr.piece).flatMap Piece.ids := by
  induction ts with
  | nil => rfl
  | cons t rest ih => rw [TypeExpr.idsList, ih]; rfl

theorem Stmt.idsList_eq (ss : List Stmt) : Stmt.idsList ss = (ss.map Stmt.piece).flatMap Piece.ids := by
  induction ss with
  | nil => rfl
  | cons s rest ih => rw [Stmt.idsList, ih]; rfl

theorem Stmt.idsBlock_eq (d : Option (List Stmt)) :
    Stmt.idsBlock d = ((d.getD []).map Stmt.piece).flatMap Piece.ids := by
  cases d with
  | none => rfl
  | some body => exact Stmt.idsList_eq body

theorem SwitchCase.idsList_eq (cs : List SwitchCase) :
    SwitchCase.idsList cs = (cs.map SwitchCase.piece).flatMap Piece.ids := by
  induction cs with
  | nil => rfl
  | cons c rest ih => rw [SwitchCase.idsList, ih]; rfl

/-! ### Nodes -/

/-- Something with a span of its own: its number, if it has one, and its parts in the order of the text. -/
structure Node where
  id : Option Nat
  span : Span
  parts : List Piece

/-- The node goes forward in the text, its parts stand inside it and one behind the other. -/
def Node.Nested (n : Node) : Prop := n.span.Holds (n.parts.map Piece.span)

/-- The number of the node is greater than all numbers inside it. -/
def Node.Tops (n : Node) : Prop := ∀ part ∈ n.parts, ∀ i ∈ part.ids, ∀ id ∈ n.id, i < id

mutual

/-- All nodes of an expression have a property. -/
def Expr.Every (P : Node → Prop) : Expr → Prop
  | .int m _ | .float m _ | .char m _ | .string m _ | .null m | .name m _ => P ⟨m.id, m.span, []⟩
  | .array m items => P ⟨m.id, m.span, items.map Expr.piece⟩ ∧ Expr.EveryList P items
  | .binary m _ left right =>
    P ⟨m.id, m.span, [left.piece, right.piece]⟩ ∧ left.Every P ∧ right.Every P
  | .unary m _ operand => P ⟨m.id, m.span, [operand.piece]⟩ ∧ operand.Every P
  | .call m callee arguments =>
    P ⟨m.id, m.span, callee.piece :: arguments.map Expr.piece⟩ ∧ callee.Every P ∧ Expr.EveryList P arguments
  | .index m object position =>
    P ⟨m.id, m.span, [object.piece, position.piece]⟩ ∧ object.Every P ∧ position.Every P
  | .member m object _ _ => P ⟨m.id, m.span, [object.piece]⟩ ∧ object.Every P
  | .cast m target operand =>
    P ⟨m.id, m.span, [target.piece, operand.piece]⟩ ∧ target.Every P ∧ operand.Every P
  | .sizeof m target => P ⟨m.id, m.span, [target.piece]⟩ ∧ target.Every P

def Expr.EveryList (P : Node → Prop) : List Expr → Prop
  | [] => True
  | e :: rest => e.Every P ∧ Expr.EveryList P rest

/-- All nodes of a type have a property. -/
def TypeExpr.Every (P : Node → Prop) : TypeExpr → Prop
  | .name span _ | .vararg span => P ⟨none, span, []⟩
  | .pointer span target => P ⟨none, span, [target.piece]⟩ ∧ target.Every P
  | .array span element size =>
    P ⟨none, span, [element.piece, size.piece]⟩ ∧ element.Every P ∧ size.Every P
  | .function span params returns =>
    P ⟨none, span, params.map TypeExpr.piece ++ [returns.piece]⟩ ∧ TypeExpr.EveryList P params ∧ returns.Every P

def TypeExpr.EveryList (P : Node → Prop) : List TypeExpr → Prop
  | [] => True
  | t :: rest => t.Every P ∧ TypeExpr.EveryList P rest

end

structure VarDecl.Every (P : Node → Prop) (d : VarDecl) : Prop where
  declared : ∀ t ∈ d.declared, t.Every P
  init : ∀ e ∈ d.init, e.Every P

structure Field.Every (P : Node → Prop) (f : Field) : Prop where
  here : P ⟨none, f.span, [f.type.piece]⟩
  type : f.type.Every P

structure Param.Every (P : Node → Prop) (p : Param) : Prop where
  here : P ⟨none, p.span, p.declared?.toList.map TypeExpr.piece⟩
  declared : ∀ t ∈ p.declared?, t.Every P

structure FunctionHead.Every (P : Node → Prop) (f : FunctionHead) : Prop where
  params : ∀ p ∈ f.params, p.Every P
  returns : ∀ t ∈ f.returns, t.Every P

/-- The head is the one that was written behind a name, or the entry point's with what that leaves out
filled in where the name stands. -/
def FunctionHead.Fills (head : FunctionHead) (name : Span) (written : FunctionHead) : Prop :=
  if written.name = EntryPoint.functionName then EntryPoint.fill name written = .ok head
  else head = written

/-- The name and the pieces of a head that was written behind it. -/
def FunctionHead.piecesBehind (f : FunctionHead) (name : Span) : List Piece := ⟨name, []⟩ :: f.pieces

mutual

/-- All nodes of a statement have a property. -/
def Stmt.Every (P : Node → Prop) : Stmt → Prop
  | .expr m e => P ⟨m.id, m.span, [e.piece]⟩ ∧ e.Every P
  | .declare m d => P ⟨m.id, m.span, d.pieces⟩ ∧ d.Every P
  | .assign m target value =>
    P ⟨m.id, m.span, [target.piece, value.piece]⟩ ∧ target.Every P ∧ value.Every P
  | .announce m f => ∃ name written, f.Fills name written ∧
      P ⟨m.id, m.span, written.piecesBehind name⟩ ∧ written.Every P
  | .function m f body => ∃ name written, f.Fills name written ∧
      P ⟨m.id, m.span, written.piecesBehind name ++ body.map Stmt.piece⟩ ∧ written.Every P ∧
      Stmt.EveryList P body
  | .result m value | .define m _ value =>
    P ⟨m.id, m.span, value.toList.map Expr.piece⟩ ∧ ∀ e ∈ value, e.Every P
  | .ifElse m c body orelse | .whileLoop m c body orelse =>
    P ⟨m.id, m.span, c.piece :: (body.map Stmt.piece ++ orelse.map Stmt.piece)⟩ ∧ c.Every P ∧
      Stmt.EveryList P body ∧ Stmt.EveryList P orelse
  | .doLoop m body c =>
    P ⟨m.id, m.span, body.map Stmt.piece ++ [c.piece]⟩ ∧ Stmt.EveryList P body ∧ c.Every P
  | .switch m subject cases default =>
    (∃ front back, cases = front ++ back ∧ P ⟨m.id, m.span, subject.piece :: (front.map SwitchCase.piece ++
        (default.getD []).map Stmt.piece ++ back.map SwitchCase.piece)⟩) ∧
      subject.Every P ∧ SwitchCase.EveryList P cases ∧ Stmt.EveryBlock P default
  | .struct m _ fields => P ⟨m.id, m.span, fields.map Field.piece⟩ ∧ ∀ f ∈ fields, f.Every P
  | .typedef m target _ => P ⟨m.id, m.span, [target.piece]⟩ ∧ target.Every P
  | .leave m | .pass m | .enum m _ _ | .includeFile m _ | .ifndef m _ | .endif m =>
    P ⟨m.id, m.span, []⟩

def Stmt.EveryList (P : Node → Prop) : List Stmt → Prop
  | [] => True
  | s :: rest => s.Every P ∧ Stmt.EveryList P rest

def Stmt.EveryBlock (P : Node → Prop) : Option (List Stmt) → Prop
  | none => True
  | some body => Stmt.EveryList P body

def SwitchCase.Every (P : Node → Prop) : SwitchCase → Prop
  | .mk span values body =>
    P ⟨none, span, values.map Expr.piece ++ body.map Stmt.piece⟩ ∧ Expr.EveryList P values ∧ Stmt.EveryList P body

def SwitchCase.EveryList (P : Node → Prop) : List SwitchCase → Prop
  | [] => True
  | c :: rest => c.Every P ∧ SwitchCase.EveryList P rest

end

/-! ### The entry point -/

namespace EntryPoint

theorem fillParam_cases {p q : Param} {expected : TypeExpr} (h : fillParam p expected = .ok q) :
    q = p ∨ ∃ name, p.kind = .named name none ∧ q = { p with kind := .named name (some expected) } := by
  unfold fillParam at h
  split at h
  · cases h
  · rename_i name hkind
    cases h
    exact .inr ⟨name, hkind, rfl⟩
  · split at h <;> cases h
    exact .inl rfl

/-- What is filled in for a parameter holds no numbers. -/
theorem ids_fillParam {p q : Param} {expected : TypeExpr} (h : fillParam p expected = .ok q)
    (hexpected : expected.ids = []) : q.piece.ids = p.piece.ids := by
  obtain rfl | ⟨name, hkind, rfl⟩ := fillParam_cases h
  · rfl
  · show TypeExpr.idsList [expected] = TypeExpr.idsList p.declared?.toList
    rw [Param.declared?, hkind, TypeExpr.idsList, hexpected]
    rfl

theorem ids_fillParams {s : Span} {params filled : List Param} (h : fillParams s params = .ok filled) :
    (filled.map Param.piece).flatMap Piece.ids = (params.map Param.piece).flatMap Piece.ids := by
  unfold fillParams at h
  split at h
  · cases h
    rfl
  · rename_i first second
    cases hfirst : fillParam first (countType s) with
    | error => simp [hfirst, bind, Except.bind] at h
    | ok first' =>
      cases hsecond : fillParam second (textsType s) with
      | error => simp [hfirst, hsecond, bind, Except.bind] at h
      | ok second' =>
        simp only [hfirst, hsecond, bind, Except.bind, pure, Except.pure] at h
        cases h
        simp only [List.map_cons, List.map_nil, List.flatMap_cons, List.flatMap_nil,
          ids_fillParam hfirst rfl, ids_fillParam hsecond rfl]
  · cases h

theorem ids_fillResult {s : Span} {returns : Option TypeExpr} {filled : TypeExpr}
    (h : fillResult s returns = .ok filled) :
    filled.ids = (returns.toList.map TypeExpr.piece).flatMap Piece.ids := by
  unfold fillResult at h
  split at h
  · cases h
    rfl
  · split at h <;> cases h
    exact (List.append_nil _).symm

/-- Filling in adds no numbers. -/
theorem ids_fill {s : Span} {written head : FunctionHead} (h : fill s written = .ok head) :
    head.pieces.flatMap Piece.ids = written.pieces.flatMap Piece.ids := by
  unfold fill at h
  cases hparams : fillParams s written.params with
  | error => simp [hparams, bind, Except.bind] at h
  | ok params =>
    cases hreturns : fillResult s written.returns with
    | error => simp [hparams, hreturns, bind, Except.bind] at h
    | ok returns =>
      simp only [hparams, hreturns, bind, Except.bind, pure, Except.pure] at h
      cases h
      have hresult : ((some returns).toList.map TypeExpr.piece).flatMap Piece.ids = returns.ids := List.append_nil _
      simp only [FunctionHead.pieces, List.flatMap_append, ids_fillParams hparams, hresult, ids_fillResult hreturns]

end EntryPoint

theorem FunctionHead.Fills.ids {head written : FunctionHead} {name : Span} (h : head.Fills name written) :
    head.pieces.flatMap Piece.ids = (written.piecesBehind name).flatMap Piece.ids := by
  unfold Fills at h
  split at h
  · exact EntryPoint.ids_fill h
  · rw [h]
    rfl

end Offside
