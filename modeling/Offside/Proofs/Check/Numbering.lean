import Offside.Proofs.Check.Decoration
import Offside.Proofs.Grammar.Files

/-! Nodes are numbered in the order in which they are completed.

A file is read in a row (`Module.ofText_row`), so its numbers are those from zero on. A check drops the name
that an assignment declares and keeps all other nodes: the numbers of a checked statement are found in what
`Stmt.restore` makes of it, in the same order. -/
namespace Offside

/-! ### Types are noted without touching numbers -/

mutual

theorem Expr.ids_blur_types : (e : Expr) → (e.blur .types).ids = e.ids
  | .int _ _ | .float _ _ | .char _ _ | .string _ _ | .null _ | .name _ _ => rfl
  | .array m items => by
    rw [Expr.blur, Expr.ids, Expr.ids, Expr.idsList_blur_types items]
    rfl
  | .binary m op left right => by
    rw [Expr.blur, Expr.ids, Expr.ids, left.ids_blur_types, right.ids_blur_types]
    rfl
  | .unary m op operand => by
    rw [Expr.blur, Expr.ids, Expr.ids, operand.ids_blur_types]
    rfl
  | .call m callee arguments => by
    rw [Expr.blur, Expr.ids, Expr.ids, callee.ids_blur_types, Expr.idsList_blur_types arguments]
    rfl
  | .index m object position => by
    rw [Expr.blur, Expr.ids, Expr.ids, object.ids_blur_types, position.ids_blur_types]
    rfl
  | .member m object name arrow => by
    rw [Expr.blur, Expr.ids, Expr.ids, object.ids_blur_types]
    rfl
  | .cast m target operand => by
    rw [Expr.blur, Expr.ids, Expr.ids, target.ids_blur_types, operand.ids_blur_types]
    rfl
  | .sizeof m target => by
    rw [Expr.blur, Expr.ids, Expr.ids, target.ids_blur_types]
    rfl

theorem Expr.idsList_blur_types : (es : List Expr) → Expr.idsList (Expr.blurList .types es) = Expr.idsList es
  | [] => rfl
  | e :: rest => by
    rw [Expr.blurList, Expr.idsList, Expr.idsList, e.ids_blur_types, Expr.idsList_blur_types rest]

theorem TypeExpr.ids_blur_types : (t : TypeExpr) → (t.blur .types).ids = t.ids
  | .name _ _ | .vararg _ => rfl
  | .pointer s target => by rw [TypeExpr.blur, TypeExpr.ids, TypeExpr.ids, target.ids_blur_types]
  | .array s element size => by
    rw [TypeExpr.blur, TypeExpr.ids, TypeExpr.ids, element.ids_blur_types, size.ids_blur_types]
  | .function s params returns => by
    rw [TypeExpr.blur, TypeExpr.ids, TypeExpr.ids, TypeExpr.idsList_blur_types params, returns.ids_blur_types]

theorem TypeExpr.idsList_blur_types : (ts : List TypeExpr) →
    TypeExpr.idsList (TypeExpr.blurList .types ts) = TypeExpr.idsList ts
  | [] => rfl
  | t :: rest => by
    rw [TypeExpr.blurList, TypeExpr.idsList, TypeExpr.idsList, t.ids_blur_types, TypeExpr.idsList_blur_types rest]

end

theorem Expr.idsOption_blur_types (value : Option Expr) :
    Expr.idsList (value.map (·.blur .types)).toList = Expr.idsList value.toList := by
  cases value with
  | none => rfl
  | some e => exact Expr.idsList_blur_types [e]

theorem TypeExpr.idsOption_blur_types (declared : Option TypeExpr) :
    TypeExpr.idsList (declared.map (·.blur .types)).toList = TypeExpr.idsList declared.toList := by
  cases declared with
  | none => rfl
  | some t => exact TypeExpr.idsList_blur_types [t]

theorem VarDecl.ids_blur_types (d : VarDecl) :
    (d.blur .types).pieces.flatMap Piece.ids = d.pieces.flatMap Piece.ids := by
  unfold VarDecl.pieces
  rw [List.flatMap_append, List.flatMap_append, ← TypeExpr.idsList_eq, ← TypeExpr.idsList_eq,
    ← Expr.idsList_eq, ← Expr.idsList_eq]
  exact congrArg₂ _ (TypeExpr.idsOption_blur_types _) (Expr.idsOption_blur_types _)

theorem Field.ids_blur_types (fields : List Field) :
    ((fields.map (·.blur .types)).map Field.piece).flatMap Piece.ids =
      (fields.map Field.piece).flatMap Piece.ids := by
  induction fields with
  | nil => rfl
  | cons f rest ih =>
    simp only [List.map_cons, List.flatMap_cons, ih]
    exact congrArg (· ++ _) f.type.ids_blur_types

theorem Param.ids_blur_types (p : Param) : (p.blur .types).piece.ids = p.piece.ids := by
  obtain ⟨kind, span, type⟩ := p
  cases kind with
  | named name declared => exact TypeExpr.idsOption_blur_types declared
  | vararg => rfl

theorem FunctionHead.ids_blur_types (f : FunctionHead) :
    (f.blur .types).pieces.flatMap Piece.ids = f.pieces.flatMap Piece.ids := by
  unfold FunctionHead.pieces
  rw [List.flatMap_append, List.flatMap_append, ← TypeExpr.idsList_eq, ← TypeExpr.idsList_eq]
  refine congrArg₂ _ ?_ (TypeExpr.idsOption_blur_types _)
  show ((f.params.map (·.blur .types)).map Param.piece).flatMap Piece.ids = _
  induction f.params with
  | nil => rfl
  | cons p rest ih =>
    simp only [List.map_cons, List.flatMap_cons, ih]
    exact congrArg (· ++ _) p.ids_blur_types

/-! ### A check drops the names that it declares -/

theorem VarDecl.ids_restore (m : Mark) (d : VarDecl) (targets : List Mark) :
    (Stmt.declare m d).ids.Sublist ((Stmt.declare m d).restore targets).1.ids := by
  obtain ⟨name, declared, init, type⟩ := d
  cases declared with
  | some t =>
    show (Stmt.declare m _).ids.Sublist (Stmt.declare m (VarDecl.blur .types _)).ids
    rw [Stmt.ids, Stmt.ids, VarDecl.ids_blur_types]
  | none =>
    cases init with
    | none => exact .refl _
    | some value =>
      show (value.ids ++ [] ++ [m.id]).Sublist ([(targets.headD default).id] ++ (value.blur .types).ids ++ [m.id])
      rw [List.append_nil, value.ids_blur_types]
      exact (List.sublist_append_right _ _).append (.refl _)

mutual

/-- The numbers of a checked statement are found, in their order, in the statement that was checked. -/
theorem Stmt.ids_restore : (s : Stmt) → (targets : List Mark) → s.ids.Sublist (s.restore targets).1.ids
  | .expr m e, _ => by
    show (e.ids ++ [m.id]).Sublist ((e.blur .types).ids ++ [m.id])
    rw [e.ids_blur_types]
  | .declare m d, targets => d.ids_restore m targets
  | .assign m target value, _ => by
    show (target.ids ++ value.ids ++ [m.id]).Sublist ((target.blur .types).ids ++ (value.blur .types).ids ++ [m.id])
    rw [target.ids_blur_types, value.ids_blur_types]
  | .announce m f, _ => by
    show (f.pieces.flatMap Piece.ids ++ [m.id]).Sublist ((f.blur .types).pieces.flatMap Piece.ids ++ [m.id])
    rw [f.ids_blur_types]
  | .function m f body, targets => by
    rw [Stmt.restore, Stmt.ids, Stmt.ids, f.ids_blur_types]
    exact ((List.Sublist.refl _).append (Stmt.idsList_restore body targets)).append (.refl _)
  | .result m value, _ | .define m _ value, _ => by
    show (Expr.idsList value.toList ++ [m.id]).Sublist (Expr.idsList (value.map (·.blur .types)).toList ++ [m.id])
    rw [Expr.idsOption_blur_types]
  | .ifElse m c body orelse, targets | .whileLoop m c body orelse, targets => by
    rw [Stmt.restore, Stmt.ids, Stmt.ids, c.ids_blur_types]
    exact (((List.Sublist.refl _).append (Stmt.idsList_restore body targets)).append
      (Stmt.idsList_restore orelse _)).append (.refl _)
  | .doLoop m body c, targets => by
    rw [Stmt.restore, Stmt.ids, Stmt.ids, c.ids_blur_types]
    exact ((Stmt.idsList_restore body targets).append (.refl _)).append (.refl _)
  | .switch m subject cases default, targets => by
    rw [Stmt.restore, Stmt.ids, Stmt.ids, subject.ids_blur_types]
    exact (((List.Sublist.refl _).append (SwitchCase.idsList_restore cases targets)).append
      (Stmt.idsBlock_restore default _)).append (.refl _)
  | .struct m _ fields, _ => by
    show ((fields.map Field.piece).flatMap Piece.ids ++ [m.id]).Sublist
      (((fields.map (·.blur .types)).map Field.piece).flatMap Piece.ids ++ [m.id])
    rw [Field.ids_blur_types]
  | .typedef m target _, _ => by
    show (target.ids ++ [m.id]).Sublist ((target.blur .types).ids ++ [m.id])
    rw [target.ids_blur_types]
  | .leave _, _ | .pass _, _ | .enum _ _ _, _ | .includeFile _ _, _ | .ifndef _ _, _ | .endif _, _ =>
    .refl _

theorem Stmt.idsList_restore : (ss : List Stmt) → (targets : List Mark) →
    (Stmt.idsList ss).Sublist (Stmt.idsList (Stmt.restoreList ss targets).1)
  | [], _ => .refl _
  | s :: rest, targets => (s.ids_restore targets).append (Stmt.idsList_restore rest _)

theorem Stmt.idsBlock_restore : (d : Option (List Stmt)) → (targets : List Mark) →
    (Stmt.idsBlock d).Sublist (Stmt.idsBlock (Stmt.restoreBlock d targets).1)
  | none, _ => .refl _
  | some body, targets => Stmt.idsList_restore body targets

theorem SwitchCase.ids_restore : (c : SwitchCase) → (targets : List Mark) → c.ids.Sublist (c.restore targets).1.ids
  | .mk _ values body, targets => by
    rw [SwitchCase.restore, SwitchCase.ids, SwitchCase.ids, Expr.idsList_blur_types]
    exact (List.Sublist.refl _).append (Stmt.idsList_restore body targets)

theorem SwitchCase.idsList_restore : (cs : List SwitchCase) → (targets : List Mark) →
    (SwitchCase.idsList cs).Sublist (SwitchCase.idsList (SwitchCase.restoreList cs targets).1)
  | [], _ => .refl _
  | c :: rest, targets => (c.ids_restore targets).append (SwitchCase.idsList_restore rest _)

end

/-! ### Whole programs -/

/-- **Nodes are numbered in the order in which they are completed.** In every text that can be read the
numbers of the statements and expressions, those in types included, are all different and are the first
ones there are, and the number of each node is greater than all numbers inside it. They are still all
different in the program that a check gives. -/
theorem Module.ofText_numbered {file text : String} {m : Module} (h : Module.ofText file text = .ok m) :
    m.ids.Nodup ∧ (∀ i, i ∈ m.ids ↔ i < m.ids.length) ∧ Stmt.EveryList Node.Tops m.body ∧
      ∀ (config : Config) (path : Option Path) (u : CheckedUnit),
        CheckedUnit.ofModule config m path = .ok u → u.module.ids.Nodup := by
  obtain ⟨⟨q, hrow⟩, hevery⟩ := Module.ofText_row Node.Tops h
  have hperm : m.ids.Perm (List.range' 0 q.next) := by
    have hnumbers := hrow.numbers.perm
    rwa [← Stmt.idsList_eq, Nat.sub_zero] at hnumbers
  have hnodup : m.ids.Nodup := hperm.nodup_iff.mpr (List.nodup_range')
  have hlength : m.ids.length = q.next := hperm.length_eq.trans List.length_range'
  refine ⟨hnodup, fun i => ?_, hevery, fun config path u hu => ?_⟩
  · rw [hperm.mem_iff, hlength, List.mem_range'_1]
    omega
  · unfold CheckedUnit.ofModule at hu
    split at hu
    · rename_i body s hrun
      cases hu
      obtain ⟨targets, hrestore⟩ := Check.statements_restorable h hrun
      have hsublist : (Stmt.idsList body).Sublist m.ids := by
        have hbody := Stmt.idsList_restore body targets
        rwa [show (Stmt.restoreList body targets).1 = m.body from
          congrArg (fun r => Module.body r.1) hrestore] at hbody
      exact hnodup.sublist hsublist
    · cases hu

/-- A function with the size of an array in its head and a declaration by assignment. -/
theorem Module.ofText_numbered_program : let text := "def f(a: int[2 + 1]) -> int:\n    x = a[0]\n    return x\n"
    ∃ m u, Module.ofText "a.cu" text = .ok m ∧ CheckedUnit.ofModule {} m none = .ok u ∧ m.ids.Nodup ∧
      (∀ i, i ∈ m.ids ↔ i < m.ids.length) ∧ Stmt.EveryList Node.Tops m.body ∧ u.module.ids.Nodup := by
  intro text
  have haccepted : (CheckedUnit.ofText {} "a.cu" text).isOk = true := by decide +kernel
  cases h : CheckedUnit.ofText {} "a.cu" text with
  | error failure =>
    rw [h] at haccepted
    cases haccepted
  | ok u =>
    obtain ⟨m, hm, hu⟩ := CheckedUnit.ofText_ok h
    obtain ⟨hnodup, hfirst, htops, hchecked⟩ := Module.ofText_numbered hm
    exact ⟨m, u, hm, hu, hnodup, hfirst, htops, hchecked {} none u hu⟩

end Offside
