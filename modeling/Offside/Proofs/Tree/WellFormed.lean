import Offside.Grammar.EntryPoint
import Offside.Proofs.Token.Lexeme
import Offside.Proofs.Tree.Blur

/-! Trees that a text can have.

A tree is well formed when it holds no types, its names and literals can be written, dots stand only
among the parameters of a function type, no block is empty, and what must differ does. Reading gives
nothing else (`Module.ofText_wellFormed`), and every such tree can be written and read back. -/
namespace Offside

open Text Number

mutual

def Expr.WellFormed : Expr → Prop
  | .int m n => m.type = none ∧ (TokenKind.int n).Genuine
  | .float m x => m.type = none ∧ (TokenKind.float x).Genuine
  | .char m c => m.type = none ∧ (TokenKind.char c).Genuine
  | .string m _ => m.type = none
  | .null m => m.type = none
  | .name m n => m.type = none ∧ IsName n
  | .array m items => m.type = none ∧ Expr.WellFormedList items
  | .binary m _ l r => m.type = none ∧ l.WellFormed ∧ r.WellFormed
  | .unary m _ e => m.type = none ∧ e.WellFormed
  | .call m f args => m.type = none ∧ f.WellFormed ∧ Expr.WellFormedList args
  | .index m o i => m.type = none ∧ o.WellFormed ∧ i.WellFormed
  | .member m o n _ => m.type = none ∧ o.WellFormed ∧ IsName n
  | .cast m t e => m.type = none ∧ t.isVararg = false ∧ t.WellFormed ∧ e.WellFormed
  | .sizeof m t => m.type = none ∧ t.isVararg = false ∧ t.WellFormed

def Expr.WellFormedList : List Expr → Prop
  | [] => True
  | e :: rest => e.WellFormed ∧ Expr.WellFormedList rest

def TypeExpr.WellFormed : TypeExpr → Prop
  | .name _ n => IsName n
  | .pointer _ t => t.isVararg = false ∧ t.WellFormed
  | .array _ t size => t.isVararg = false ∧ t.WellFormed ∧ size.WellFormed
  | .function _ params returns =>
    TypeExpr.WellFormedList params ∧ returns.isVararg = false ∧ returns.WellFormed
  | .vararg _ => True

def TypeExpr.WellFormedList : List TypeExpr → Prop
  | [] => True
  | t :: rest => t.WellFormed ∧ TypeExpr.WellFormedList rest

end

/-- A type that may stand anywhere. -/
structure TypeExpr.Plain (t : TypeExpr) : Prop where
  noVararg : t.isVararg = false
  wellFormed : t.WellFormed

structure VarDecl.WellFormed (d : VarDecl) : Prop where
  name : IsName d.name
  declared : ∃ t, d.declared = some t ∧ t.Plain
  init : ∀ e, d.init = some e → e.WellFormed
  untyped : d.type = none

structure Field.WellFormed (f : Field) : Prop where
  name : IsName f.name
  type : f.type.Plain

structure Param.WellFormed (p : Param) : Prop where
  named : ∀ n declared, p.kind = .named n declared → IsName n ∧ ∀ t, declared = some t → t.Plain
  untyped : p.type = none

structure FunctionHead.WellFormed (f : FunctionHead) : Prop where
  name : IsName f.name
  params : ∀ p ∈ f.params, p.WellFormed
  returns : ∀ t, f.returns = some t → t.Plain
  untyped : f.signature = none
  /-- Nothing is left to fill in. -/
  entry : f.name = EntryPoint.functionName → ∀ s, EntryPoint.fill s f = .ok f

mutual

def Stmt.WellFormed : Stmt → Prop
  | .expr _ e => e.WellFormed
  | .declare _ d => d.WellFormed
  | .assign _ target value => target.isPlace = true ∧ target.WellFormed ∧ value.WellFormed
  | .announce _ f => f.WellFormed
  | .function _ f body => f.WellFormed ∧ body ≠ [] ∧ Stmt.WellFormedList body
  | .result _ value => ∀ e, value = some e → e.WellFormed
  | .ifElse _ c body orelse =>
    c.WellFormed ∧ body ≠ [] ∧ Stmt.WellFormedList body ∧ Stmt.WellFormedList orelse
  | .whileLoop _ c body orelse =>
    c.WellFormed ∧ body ≠ [] ∧ Stmt.WellFormedList body ∧ Stmt.WellFormedList orelse
  | .doLoop _ body c => body ≠ [] ∧ Stmt.WellFormedList body ∧ c.WellFormed
  | .switch _ subject cases default =>
    subject.WellFormed ∧ (cases = [] → default ≠ none) ∧ SwitchCase.WellFormedList cases ∧
      Stmt.WellFormedBlock default
  | .leave _ => True
  | .pass _ => True
  | .struct _ n fields =>
    IsName n ∧ (∀ f ∈ fields, f.WellFormed) ∧ (fields.map Field.name).Nodup
  | .enum _ n members => IsName n ∧ (∀ member ∈ members, IsName member) ∧ members.Nodup
  | .typedef _ t n => t.Plain ∧ IsName n
  | .define _ n value => IsName n ∧ ∀ e, value = some e → e.WellFormed
  | .includeFile _ _ => True
  | .ifndef _ n => IsName n
  | .endif _ => True

def Stmt.WellFormedList : List Stmt → Prop
  | [] => True
  | s :: rest => s.WellFormed ∧ Stmt.WellFormedList rest

def Stmt.WellFormedBlock : Option (List Stmt) → Prop
  | none => True
  | some body => body ≠ [] ∧ Stmt.WellFormedList body

def SwitchCase.WellFormed : SwitchCase → Prop
  | .mk _ values body =>
    values ≠ [] ∧ Expr.WellFormedList values ∧ body ≠ [] ∧ Stmt.WellFormedList body

def SwitchCase.WellFormedList : List SwitchCase → Prop
  | [] => True
  | c :: rest => c.WellFormed ∧ SwitchCase.WellFormedList rest

end

/-! ### Without types -/

theorem ExprMark.blur_types {m : ExprMark} (h : m.type = none) : m.blur .types = m := by
  obtain ⟨m, type⟩ := m
  cases h
  rfl

mutual

theorem Expr.blur_types : (e : Expr) → e.WellFormed → e.blur .types = e
  | .int m _, h | .float m _, h | .char m _, h | .name m _, h => by
    rw [Expr.blur, ExprMark.blur_types h.1]
  | .string m _, h => by rw [Expr.blur, ExprMark.blur_types h]
  | .null m, h => by rw [Expr.blur, ExprMark.blur_types h]
  | .array m items, h => by
    rw [Expr.blur, ExprMark.blur_types h.1, Expr.blurList_types items h.2]
  | .binary m op l r, h => by
    rw [Expr.blur, ExprMark.blur_types h.1, Expr.blur_types l h.2.1, Expr.blur_types r h.2.2]
  | .unary m op e, h => by rw [Expr.blur, ExprMark.blur_types h.1, Expr.blur_types e h.2]
  | .call m f args, h => by
    rw [Expr.blur, ExprMark.blur_types h.1, Expr.blur_types f h.2.1, Expr.blurList_types args h.2.2]
  | .index m o i, h => by
    rw [Expr.blur, ExprMark.blur_types h.1, Expr.blur_types o h.2.1, Expr.blur_types i h.2.2]
  | .member m o _ _, h => by rw [Expr.blur, ExprMark.blur_types h.1, Expr.blur_types o h.2.1]
  | .cast m t e, h => by
    rw [Expr.blur, ExprMark.blur_types h.1, TypeExpr.blur_types t h.2.2.1, Expr.blur_types e h.2.2.2]
  | .sizeof m t, h => by
    rw [Expr.blur, ExprMark.blur_types h.1, TypeExpr.blur_types t h.2.2]

theorem Expr.blurList_types : (es : List Expr) → Expr.WellFormedList es → Expr.blurList .types es = es
  | [], _ => rfl
  | e :: rest, h => by
    rw [Expr.blurList, Expr.blur_types e h.1, Expr.blurList_types rest h.2]

theorem TypeExpr.blur_types : (t : TypeExpr) → t.WellFormed → t.blur .types = t
  | .name _ _, _ => rfl
  | .pointer _ t, h => by
    rw [TypeExpr.blur, TypeExpr.blur_types t h.2]
    rfl
  | .array _ t size, h => by
    rw [TypeExpr.blur, TypeExpr.blur_types t h.2.1, Expr.blur_types size h.2.2]
    rfl
  | .function _ params returns, h => by
    rw [TypeExpr.blur, TypeExpr.blurList_types params h.1, TypeExpr.blur_types returns h.2.2]
    rfl
  | .vararg _, _ => rfl

theorem TypeExpr.blurList_types : (ts : List TypeExpr) → TypeExpr.WellFormedList ts → TypeExpr.blurList .types ts = ts
  | [], _ => rfl
  | t :: rest, h => by
    rw [TypeExpr.blurList, TypeExpr.blur_types t h.1, TypeExpr.blurList_types rest h.2]

end

theorem optionMap_eq_self {α : Type} {f : α → α} {o : Option α} (h : ∀ a, o = some a → f a = a) : o.map f = o := by
  cases o with
  | none => rfl
  | some a => rw [Option.map_some, h a rfl]

theorem VarDecl.blur_types {d : VarDecl} (h : d.WellFormed) : d.blur .types = d := by
  obtain ⟨declared, hdeclared, hplain⟩ := h.declared
  have hinit := optionMap_eq_self fun e he => Expr.blur_types e (h.init e he)
  have htype := h.untyped
  obtain ⟨name, _, init, _⟩ := d
  cases hdeclared
  cases htype
  simp only [VarDecl.blur, Option.map_some, TypeExpr.blur_types _ hplain.wellFormed, hinit]
  rfl

theorem Field.blur_types {f : Field} (h : f.WellFormed) : f.blur .types = f := by
  simp only [Field.blur, TypeExpr.blur_types _ h.type.wellFormed]
  rfl

theorem Param.blur_types {p : Param} (h : p.WellFormed) : p.blur .types = p := by
  obtain ⟨kind, span, type⟩ := p
  obtain ⟨hnamed, rfl⟩ := h
  cases kind with
  | vararg => rfl
  | named name declared =>
    have hdeclared := optionMap_eq_self fun t ht =>
      TypeExpr.blur_types t ((hnamed name declared rfl).2 t ht).wellFormed
    simp only [Param.blur, ParamKind.blur, hdeclared]
    rfl

theorem FunctionHead.blur_types {f : FunctionHead} (h : f.WellFormed) : f.blur .types = f := by
  have hparams : f.params.map (·.blur .types) = f.params :=
    (List.map_congr_left fun p hp => Param.blur_types (h.params p hp)).trans (List.map_id' _)
  have hreturns := optionMap_eq_self fun t ht => TypeExpr.blur_types t (h.returns t ht).wellFormed
  have hsignature := h.untyped
  obtain ⟨name, params, returns, _⟩ := f
  cases hsignature
  simp only [FunctionHead.blur, hparams, hreturns]
  rfl

mutual

theorem Stmt.blur_types : (s : Stmt) → s.WellFormed → s.blur .types = s
  | .expr _ e, h => by
    rw [Stmt.blur, Expr.blur_types e h]
    rfl
  | .declare _ d, h => by
    rw [Stmt.blur, VarDecl.blur_types h]
    rfl
  | .assign _ target value, h => by
    rw [Stmt.blur, Expr.blur_types target h.2.1, Expr.blur_types value h.2.2]
    rfl
  | .announce _ f, h => by
    rw [Stmt.blur, FunctionHead.blur_types h]
    rfl
  | .function _ f body, h => by
    rw [Stmt.blur, FunctionHead.blur_types h.1, Stmt.blurList_types body h.2.2]
    rfl
  | .result _ value, h => by
    rw [Stmt.blur, optionMap_eq_self fun e he => Expr.blur_types e (h e he)]
    rfl
  | .ifElse _ c body orelse, h | .whileLoop _ c body orelse, h => by
    rw [Stmt.blur, Expr.blur_types c h.1, Stmt.blurList_types body h.2.2.1, Stmt.blurList_types orelse h.2.2.2]
    rfl
  | .doLoop _ body c, h => by
    rw [Stmt.blur, Stmt.blurList_types body h.2.1, Expr.blur_types c h.2.2]
    rfl
  | .switch _ subject cases default, h => by
    rw [Stmt.blur, Expr.blur_types subject h.1, SwitchCase.blurList_types cases h.2.2.1,
      Stmt.blurBlock_types default h.2.2.2]
    rfl
  | .leave _, _ | .pass _, _ | .endif _, _ => rfl
  | .struct _ _ fields, h => by
    rw [Stmt.blur, (List.map_congr_left fun f hf => Field.blur_types (h.2.1 f hf)).trans (List.map_id' _)]
    rfl
  | .enum _ _ _, _ => rfl
  | .typedef _ t _, h => by
    rw [Stmt.blur, TypeExpr.blur_types t h.1.wellFormed]
    rfl
  | .define _ _ value, h => by
    rw [Stmt.blur, optionMap_eq_self fun e he => Expr.blur_types e (h.2 e he)]
    rfl
  | .includeFile _ _, _ | .ifndef _ _, _ => rfl

theorem Stmt.blurList_types : (ss : List Stmt) → Stmt.WellFormedList ss → Stmt.blurList .types ss = ss
  | [], _ => rfl
  | s :: rest, h => by
    rw [Stmt.blurList, Stmt.blur_types s h.1, Stmt.blurList_types rest h.2]

theorem Stmt.blurBlock_types : (d : Option (List Stmt)) → Stmt.WellFormedBlock d → Stmt.blurBlock .types d = d
  | none, _ => rfl
  | some body, h => by rw [Stmt.blurBlock, Stmt.blurList_types body h.2]

theorem SwitchCase.blur_types : (c : SwitchCase) → c.WellFormed → c.blur .types = c
  | .mk _ values body, h => by
    rw [SwitchCase.blur, Expr.blurList_types values h.2.1, Stmt.blurList_types body h.2.2.2]
    rfl

theorem SwitchCase.blurList_types : (cs : List SwitchCase) → SwitchCase.WellFormedList cs →
    SwitchCase.blurList .types cs = cs
  | [], _ => rfl
  | c :: rest, h => by
    rw [SwitchCase.blurList, SwitchCase.blur_types c h.1, SwitchCase.blurList_types rest h.2]

end

end Offside
