import Offside.Proofs.Tree.Tokens
import Offside.Proofs.Tree.WellFormed

/-! Writing types out.

Printing a checked tree writes the types that were found where the program leaves them out. `Stmt.spell`
puts them into the tree instead, as written types (`ValueType.spell`): the tree it gives prints to the same
text, whatever notes are then taken away (`Stmt.print_spell`), and leaves nothing out. -/
namespace Offside

open List

/-! ### Trees without notes -/

/-- Without notes of any kind. -/
def Blur.bare : Blur := ⟨fun _ => default, fun _ => default, fun _ => none⟩

@[simp] theorem Blur.bare_mark (m : Mark) : Blur.bare.mark m = default := rfl

@[simp] theorem Blur.bare_span (s : Span) : Blur.bare.span s = default := rfl

@[simp] theorem Blur.bare_type (t : Option ValueType) : Blur.bare.type t = none := rfl

@[simp] theorem ExprMark.blur_bare (m : ExprMark) : m.blur .bare = ⟨default, none⟩ := rfl

mutual

/-- Of a tree that is blurred, nothing more is lost than all notes. -/
theorem Expr.blur_bare (b : Blur) : (e : Expr) → (e.blur b).blur .bare = e.blur .bare
  | .int _ _ | .float _ _ | .char _ _ | .string _ _ | .null _ | .name _ _ => rfl
  | .array _ items => by simp only [Expr.blur, Expr.blurList_bare b items]; rfl
  | .binary _ _ l r => by simp only [Expr.blur, Expr.blur_bare b l, Expr.blur_bare b r]; rfl
  | .unary _ _ e => by simp only [Expr.blur, Expr.blur_bare b e]; rfl
  | .call _ f args => by simp only [Expr.blur, Expr.blur_bare b f, Expr.blurList_bare b args]; rfl
  | .index _ o i => by simp only [Expr.blur, Expr.blur_bare b o, Expr.blur_bare b i]; rfl
  | .member _ o _ _ => by simp only [Expr.blur, Expr.blur_bare b o]; rfl
  | .cast _ t e => by simp only [Expr.blur, TypeExpr.blur_bare b t, Expr.blur_bare b e]; rfl
  | .sizeof _ t => by simp only [Expr.blur, TypeExpr.blur_bare b t]; rfl

theorem Expr.blurList_bare (b : Blur) : (es : List Expr) →
    Expr.blurList .bare (Expr.blurList b es) = Expr.blurList .bare es
  | [] => rfl
  | e :: rest => by simp only [Expr.blurList, Expr.blur_bare b e, Expr.blurList_bare b rest]

theorem TypeExpr.blur_bare (b : Blur) : (t : TypeExpr) → (t.blur b).blur .bare = t.blur .bare
  | .name _ _ | .vararg _ => rfl
  | .pointer _ t => by simp only [TypeExpr.blur, TypeExpr.blur_bare b t]; rfl
  | .array _ t size => by simp only [TypeExpr.blur, TypeExpr.blur_bare b t, Expr.blur_bare b size]; rfl
  | .function _ params returns => by
    simp only [TypeExpr.blur, TypeExpr.blurList_bare b params, TypeExpr.blur_bare b returns]; rfl

theorem TypeExpr.blurList_bare (b : Blur) : (ts : List TypeExpr) →
    TypeExpr.blurList .bare (TypeExpr.blurList b ts) = TypeExpr.blurList .bare ts
  | [] => rfl
  | t :: rest => by simp only [TypeExpr.blurList, TypeExpr.blur_bare b t, TypeExpr.blurList_bare b rest]

end

theorem VarDecl.blur_bare (b : Blur) (d : VarDecl) : (d.blur b).blur .bare = d.blur .bare := by
  obtain ⟨name, declared, init, type⟩ := d
  cases declared <;> cases init <;>
    simp only [VarDecl.blur, Option.map_some, Option.map_none, Expr.blur_bare, TypeExpr.blur_bare] <;> rfl

theorem Field.blur_bare (b : Blur) (f : Field) : (f.blur b).blur .bare = f.blur .bare := by
  simp only [Field.blur, TypeExpr.blur_bare]
  rfl

theorem Param.blur_bare (b : Blur) (p : Param) : (p.blur b).blur .bare = p.blur .bare := by
  obtain ⟨kind, span, type⟩ := p
  match kind with
  | .vararg | .named _ none => rfl
  | .named _ (some declared) =>
    simp only [Param.blur, ParamKind.blur, Option.map_some, TypeExpr.blur_bare]
    rfl

theorem FunctionHead.blur_bare (b : Blur) (f : FunctionHead) : (f.blur b).blur .bare = f.blur .bare := by
  obtain ⟨name, params, returns, signature⟩ := f
  have hparams : (params.map (·.blur b)).map (·.blur .bare) = params.map (·.blur .bare) := by
    rw [map_map]
    exact map_congr_left fun p _ => p.blur_bare b
  cases returns <;>
    simp only [FunctionHead.blur, hparams, Option.map_some, Option.map_none, TypeExpr.blur_bare] <;> rfl

mutual

theorem Stmt.blur_bare (b : Blur) : (s : Stmt) → (s.blur b).blur .bare = s.blur .bare
  | .expr _ e => by simp only [Stmt.blur, Expr.blur_bare]; rfl
  | .declare _ d => by simp only [Stmt.blur, VarDecl.blur_bare]; rfl
  | .assign _ target value => by simp only [Stmt.blur, Expr.blur_bare]; rfl
  | .announce _ f => by simp only [Stmt.blur, FunctionHead.blur_bare]; rfl
  | .function _ f body => by
    simp only [Stmt.blur, FunctionHead.blur_bare, Stmt.blurList_bare b body]; rfl
  | .result _ none | .define _ _ none => rfl
  | .result _ (some e) | .define _ _ (some e) => by
    simp only [Stmt.blur, Option.map_some, Expr.blur_bare]; rfl
  | .ifElse _ c body orelse | .whileLoop _ c body orelse => by
    simp only [Stmt.blur, Expr.blur_bare, Stmt.blurList_bare b body, Stmt.blurList_bare b orelse]; rfl
  | .doLoop _ body c => by simp only [Stmt.blur, Expr.blur_bare, Stmt.blurList_bare b body]; rfl
  | .switch _ subject cases default => by
    simp only [Stmt.blur, Expr.blur_bare, SwitchCase.blurList_bare b cases, Stmt.blurBlock_bare b default]
    rfl
  | .struct _ _ fields => by
    have hfields : (fields.map (·.blur b)).map (·.blur .bare) = fields.map (·.blur .bare) := by
      rw [map_map]
      exact map_congr_left fun f _ => f.blur_bare b
    simp only [Stmt.blur, hfields]
    rfl
  | .typedef _ t _ => by simp only [Stmt.blur, TypeExpr.blur_bare]; rfl
  | .leave _ | .pass _ | .enum _ _ _ | .includeFile _ _ | .ifndef _ _ | .endif _ => rfl

theorem Stmt.blurList_bare (b : Blur) : (ss : List Stmt) →
    Stmt.blurList .bare (Stmt.blurList b ss) = Stmt.blurList .bare ss
  | [] => rfl
  | s :: rest => by simp only [Stmt.blurList, Stmt.blur_bare b s, Stmt.blurList_bare b rest]

theorem Stmt.blurBlock_bare (b : Blur) : (d : Option (List Stmt)) →
    Stmt.blurBlock .bare (Stmt.blurBlock b d) = Stmt.blurBlock .bare d
  | none => rfl
  | some body => by simp only [Stmt.blurBlock, Stmt.blurList_bare b body]

theorem SwitchCase.blur_bare (b : Blur) : (c : SwitchCase) → (c.blur b).blur .bare = c.blur .bare
  | .mk _ values body => by
    simp only [SwitchCase.blur, Expr.blurList_bare, Stmt.blurList_bare b body]; rfl

theorem SwitchCase.blurList_bare (b : Blur) : (cs : List SwitchCase) →
    SwitchCase.blurList .bare (SwitchCase.blurList b cs) = SwitchCase.blurList .bare cs
  | [] => rfl
  | c :: rest => by simp only [SwitchCase.blurList, SwitchCase.blur_bare b c, SwitchCase.blurList_bare b rest]

end

/-! ### Types as they would be written -/

mutual

/-- The type as it would be written. -/
def ValueType.spell : ValueType → TypeExpr
  | .scalar .vararg => .vararg default
  | .scalar s => .name default s.name
  | .struct name _ => .name default name
  | .pointer t => .pointer default t.spell
  | .array t (.fixed n) => .array default t.spell (.int default n)
  | .array t (.symbolic text) => .array default t.spell (.name default text)
  | .function params returns => .function default (ValueType.spellEach params) returns.spell

def ValueType.spellEach : List ValueType → List TypeExpr
  | [] => []
  | t :: rest => t.spell :: ValueType.spellEach rest

end

theorem ValueType.isFunction_spell (t : ValueType) : t.spell.isFunction = t.isFunction := by
  cases t with
  | scalar s => cases s <;> rfl
  | array t size => cases size <;> rfl
  | _ => rfl

mutual

theorem ValueType.print_spell : (t : ValueType) → t.spell.print = t.text
  | .scalar s => by cases s <;> rfl
  | .struct _ _ => rfl
  | .pointer t => by
    simp only [ValueType.spell, TypeExpr.print, ValueType.text, TypeExpr.suffixBase, ValueType.suffixBase,
      t.isFunction_spell, ValueType.print_spell t]
  | .array t size => by
    cases size <;>
      simp only [ValueType.spell, TypeExpr.print, ValueType.text, TypeExpr.suffixBase, ValueType.suffixBase,
        t.isFunction_spell, ValueType.print_spell t] <;> rfl
  | .function params returns => by
    simp only [ValueType.spell, TypeExpr.print, ValueType.text, ValueType.printList_spellEach params,
      ValueType.print_spell returns, commaSeparated]

theorem ValueType.printList_spellEach : (ts : List ValueType) →
    TypeExpr.printList (ValueType.spellEach ts) = ValueType.textList ts
  | [] => rfl
  | t :: rest => by
    simp only [ValueType.spellEach, TypeExpr.printList, ValueType.textList, ValueType.print_spell t,
      ValueType.printList_spellEach rest]

end

/-! ### Trees that leave no type out -/

def VarDecl.spell (d : VarDecl) : VarDecl :=
  { d with declared := d.declared.or (d.type.map ValueType.spell) }

def ParamKind.spell (found : Option ValueType) : ParamKind → ParamKind
  | .named n declared => .named n (declared.or (found.map ValueType.spell))
  | .vararg => .vararg

def Param.spell (p : Param) : Param := { p with kind := p.kind.spell p.type }

/-- The type of the results of a function that has been checked. -/
def FunctionHead.result? (f : FunctionHead) : Option ValueType := match f.signature with
  | some (.function _ returns) => some returns
  | _ => none

def FunctionHead.spell (f : FunctionHead) : FunctionHead :=
  { f with
    params := f.params.map Param.spell
    returns := f.returns.or (f.result?.map ValueType.spell) }

mutual

/-- The statement with the types written out that a check has found. -/
def Stmt.spell : Stmt → Stmt
  | .declare m d => .declare m d.spell
  | .announce m f => .announce m f.spell
  | .function m f body => .function m f.spell (Stmt.spellList body)
  | .ifElse m c body orelse => .ifElse m c (Stmt.spellList body) (Stmt.spellList orelse)
  | .whileLoop m c body orelse => .whileLoop m c (Stmt.spellList body) (Stmt.spellList orelse)
  | .doLoop m body c => .doLoop m (Stmt.spellList body) c
  | .switch m subject cases default =>
    .switch m subject (SwitchCase.spellList cases) (Stmt.spellBlock default)
  | s => s

def Stmt.spellList : List Stmt → List Stmt
  | [] => []
  | s :: rest => s.spell :: Stmt.spellList rest

def Stmt.spellBlock : Option (List Stmt) → Option (List Stmt)
  | none => none
  | some body => some (Stmt.spellList body)

def SwitchCase.spell : SwitchCase → SwitchCase
  | .mk span values body => .mk span values (Stmt.spellList body)

def SwitchCase.spellList : List SwitchCase → List SwitchCase
  | [] => []
  | c :: rest => c.spell :: SwitchCase.spellList rest

end

/-- The module with all types written out. -/
def Module.spell (m : Module) : Module := ⟨m.file, Stmt.spellList m.body⟩

/-! ### Their text -/

theorem Expr.level_blur (b : Blur) (e : Expr) : (e.blur b).level = e.level := by
  cases e <;> rfl

theorem TypeExpr.isFunction_blur (b : Blur) (t : TypeExpr) : (t.blur b).isFunction = t.isFunction := by
  cases t <;> rfl

mutual

/-- Notes are not printed. -/
theorem Expr.printBare_blur (b : Blur) : (e : Expr) → (e.blur b).printBare = e.printBare
  | .int _ _ | .float _ _ | .char _ _ | .string _ _ | .null _ | .name _ _ => rfl
  | .array _ items => by simp only [Expr.blur, Expr.printBare, Expr.printList_blur b items]
  | .binary _ _ l r => by
    simp only [Expr.blur, Expr.printBare, Expr.level_blur, Expr.printBare_blur b l, Expr.printBare_blur b r]
  | .unary _ _ e => by simp only [Expr.blur, Expr.printBare, Expr.level_blur, Expr.printBare_blur b e]
  | .call _ f args => by
    simp only [Expr.blur, Expr.printBare, Expr.level_blur, Expr.printBare_blur b f, Expr.printList_blur b args]
  | .index _ o i => by
    simp only [Expr.blur, Expr.printBare, Expr.level_blur, Expr.printBare_blur b o, Expr.printBare_blur b i]
  | .member _ o _ _ => by simp only [Expr.blur, Expr.printBare, Expr.level_blur, Expr.printBare_blur b o]
  | .cast _ t e => by
    simp only [Expr.blur, Expr.printBare, Expr.level_blur, TypeExpr.print_blur b t, Expr.printBare_blur b e]
  | .sizeof _ t => by simp only [Expr.blur, Expr.printBare, TypeExpr.print_blur b t]

theorem Expr.printList_blur (b : Blur) : (es : List Expr) → Expr.printList (Expr.blurList b es) = Expr.printList es
  | [] => rfl
  | e :: rest => by
    simp only [Expr.blurList, Expr.printList, Expr.printBare_blur b e, Expr.printList_blur b rest]

theorem TypeExpr.print_blur (b : Blur) : (t : TypeExpr) → (t.blur b).print = t.print
  | .name _ _ | .vararg _ => rfl
  | .pointer _ t => by
    simp only [TypeExpr.blur, TypeExpr.print, TypeExpr.suffixBase, TypeExpr.isFunction_blur, TypeExpr.print_blur b t]
  | .array _ t size => by
    simp only [TypeExpr.blur, TypeExpr.print, TypeExpr.suffixBase, TypeExpr.isFunction_blur,
      TypeExpr.print_blur b t, Expr.printBare_blur b size]
  | .function _ params returns => by
    simp only [TypeExpr.blur, TypeExpr.print, TypeExpr.printList_blur b params, TypeExpr.print_blur b returns]

theorem TypeExpr.printList_blur (b : Blur) : (ts : List TypeExpr) →
    TypeExpr.printList (TypeExpr.blurList b ts) = TypeExpr.printList ts
  | [] => rfl
  | t :: rest => by
    simp only [TypeExpr.blurList, TypeExpr.printList, TypeExpr.print_blur b t, TypeExpr.printList_blur b rest]

end

theorem Expr.print_blur (b : Blur) (e : Expr) : (e.blur b).print = e.print := e.printBare_blur b

section

variable {b : Blur} (hb : ∀ type, b.type type = none)
include hb

/-- A type that is written out is shown as it was found. -/
theorem shownTypeText_spell (declared : Option TypeExpr) (found : Option ValueType) :
    shownTypeText ((declared.or (found.map ValueType.spell)).map (·.blur b)) (b.type found) =
      shownTypeText declared found := by
  rw [hb]
  cases declared with
  | some t => exact congrArg some (t.print_blur b)
  | none =>
    cases found with
    | some t => exact congrArg some ((TypeExpr.print_blur b _).trans t.print_spell)
    | none => rfl

theorem VarDecl.print_spell (d : VarDecl) : (d.spell.blur b).print = d.print := by
  obtain ⟨name, declared, init, type⟩ := d
  have hshown := shownTypeText_spell hb declared type
  cases init <;> simp only [VarDecl.print, VarDecl.spell, VarDecl.blur, hshown, Option.map_some, Option.map_none,
      Expr.print_blur]

theorem Param.print_spell (p : Param) : (p.spell.blur b).print = p.print := by
  obtain ⟨kind, span, type⟩ := p
  cases kind with
  | vararg => rfl
  | named n declared =>
    have hshown := shownTypeText_spell hb declared type
    simp only [Param.print, Param.spell, ParamKind.spell, Param.blur, ParamKind.blur, hshown]

theorem FunctionHead.print_spell (f : FunctionHead) : (f.spell.blur b).print = f.print := by
  obtain ⟨name, params, returns, signature⟩ := f
  have hparams : ((params.map Param.spell).map (·.blur b)).map Param.print = params.map Param.print := by
    rw [map_map, map_map]
    exact map_congr_left fun p _ => Param.print_spell hb p
  simp only [FunctionHead.print, FunctionHead.spell, FunctionHead.blur, hparams, hb]
  cases returns with
  | some t => simp only [Option.some_or, Option.map_some, TypeExpr.print_blur]
  | none =>
    unfold FunctionHead.result?
    rcases signature with _ | signature
    · rfl
    · cases signature with
      | function types t => simp only [Option.none_or, Option.map_some, TypeExpr.print_blur, t.print_spell]
      | _ => rfl

end

/-- Two statements never continue a chain of conditions. -/
theorem Stmt.printElse_cons_cons (depth : Nat) (s s' : Stmt) (rest : List Stmt) :
    Stmt.printElse depth (s :: s' :: rest) = printLine depth "else:" ++
      (s.print (depth + 1) ++ Stmt.printList (depth + 1) (s' :: rest)) := by
  rw [Stmt.printElse]
  simp

mutual

/-- **With the types written out a statement prints to the same text**, also without notes. -/
theorem Stmt.print_spell {b : Blur} (hb : ∀ type, b.type type = none) (depth : Nat) : (s : Stmt) →
    (s.spell.blur b).print depth = s.print depth
  | .expr _ e => by simp only [Stmt.spell, Stmt.blur, Stmt.print, Expr.print_blur]
  | .declare _ d => by simp only [Stmt.spell, Stmt.blur, Stmt.print, VarDecl.print_spell hb]
  | .assign _ target value => by simp only [Stmt.spell, Stmt.blur, Stmt.print, Expr.print_blur]
  | .announce _ f => by simp only [Stmt.spell, Stmt.blur, Stmt.print, FunctionHead.print_spell hb]
  | .function _ f body => by
    simp only [Stmt.spell, Stmt.blur, Stmt.print, FunctionHead.print_spell hb,
      Stmt.printBlock_spell hb (depth + 1) body]
  | .result _ none | .define _ _ none => rfl
  | .result _ (some e) | .define _ _ (some e) => by
    simp only [Stmt.spell, Stmt.blur, Option.map_some, Stmt.print, Expr.print_blur]
  | .ifElse _ c body orelse => by
    simp only [Stmt.spell, Stmt.blur, Stmt.print, Expr.print_blur, Stmt.printBlock_spell hb (depth + 1) body,
      Stmt.printElse_spell hb depth orelse]
  | .whileLoop _ c body [] => by
    simp only [Stmt.spell, Stmt.spellList, Stmt.blur, Stmt.blurList, Stmt.print, Expr.print_blur,
      Stmt.printBlock_spell hb (depth + 1) body]
  | .whileLoop _ c body (s :: orelse) => by
    simp only [Stmt.spell, Stmt.spellList, Stmt.blur, Stmt.blurList, Stmt.print, Expr.print_blur,
      Stmt.printBlock_spell hb (depth + 1) body, Stmt.print_spell hb (depth + 1) s,
      Stmt.printList_spell hb (depth + 1) orelse]
  | .doLoop _ body c => by
    simp only [Stmt.spell, Stmt.blur, Stmt.print, Expr.print_blur, Stmt.printBlock_spell hb (depth + 1) body]
  | .switch _ subject cases default => by
    simp only [Stmt.spell, Stmt.blur, Stmt.print, Expr.print_blur,
      SwitchCase.printList_spell hb (depth + 1) cases, Stmt.printDefault_spell hb (depth + 1) default]
  | .struct _ _ [] => rfl
  | .struct _ _ (f :: fields) => by
    simp only [Stmt.spell, Stmt.blur, map_cons, Stmt.print]
    rw [← map_cons, foldl_map]
    simp only [Field.blur, TypeExpr.print_blur]
  | .typedef _ t _ => by simp only [Stmt.spell, Stmt.blur, Stmt.print, TypeExpr.print_blur]
  | .leave _ | .pass _ | .enum _ _ _ | .includeFile _ _ | .ifndef _ _ | .endif _ => rfl

theorem Stmt.printList_spell {b : Blur} (hb : ∀ type, b.type type = none) (depth : Nat) : (ss : List Stmt) →
    Stmt.printList depth (Stmt.blurList b (Stmt.spellList ss)) = Stmt.printList depth ss
  | [] => rfl
  | s :: rest => by
    simp only [Stmt.spellList, Stmt.blurList, Stmt.printList, Stmt.print_spell hb depth s,
      Stmt.printList_spell hb depth rest]

theorem Stmt.printBlock_spell {b : Blur} (hb : ∀ type, b.type type = none) (depth : Nat) : (ss : List Stmt) →
    Stmt.printBlock depth (Stmt.blurList b (Stmt.spellList ss)) = Stmt.printBlock depth ss
  | [] => rfl
  | s :: rest => by
    simp only [Stmt.spellList, Stmt.blurList, Stmt.printBlock, Stmt.print_spell hb depth s,
      Stmt.printList_spell hb depth rest]

theorem Stmt.printElse_spell {b : Blur} (hb : ∀ type, b.type type = none) (depth : Nat) : (ss : List Stmt) →
    Stmt.printElse depth (Stmt.blurList b (Stmt.spellList ss)) = Stmt.printElse depth ss
  | [] => rfl
  | [s] => by
    have hprint := Stmt.print_spell hb (depth + 1) s
    cases s with
    | ifElse _ c body orelse =>
      simp only [Stmt.spellList, Stmt.spell, Stmt.blurList, Stmt.blur, Stmt.printElse, Expr.print_blur,
        Stmt.printBlock_spell hb (depth + 1) body, Stmt.printElse_spell hb depth orelse]
    | _ =>
      rw [Stmt.printElse, ← hprint]
      · rfl
      · simp
  | s :: s' :: rest => by
    simp only [Stmt.spellList, Stmt.blurList, Stmt.printElse_cons_cons, Stmt.printList,
      Stmt.print_spell hb (depth + 1) s, Stmt.print_spell hb (depth + 1) s',
      Stmt.printList_spell hb (depth + 1) rest]

theorem Stmt.printDefault_spell {b : Blur} (hb : ∀ type, b.type type = none) (depth : Nat) :
    (d : Option (List Stmt)) →
    Stmt.printDefault depth (Stmt.blurBlock b (Stmt.spellBlock d)) = Stmt.printDefault depth d
  | none => rfl
  | some body => by
    simp only [Stmt.spellBlock, Stmt.blurBlock, Stmt.printDefault, Stmt.printBlock_spell hb (depth + 1) body]

theorem SwitchCase.print_spell {b : Blur} (hb : ∀ type, b.type type = none) (depth : Nat) : (c : SwitchCase) →
    (c.spell.blur b).print depth = c.print depth
  | .mk _ values body => by
    simp only [SwitchCase.spell, SwitchCase.blur, SwitchCase.print, Expr.printList_blur,
      Stmt.printBlock_spell hb (depth + 1) body]

theorem SwitchCase.printList_spell {b : Blur} (hb : ∀ type, b.type type = none) (depth : Nat) :
    (cs : List SwitchCase) →
    SwitchCase.printList depth (SwitchCase.blurList b (SwitchCase.spellList cs)) = SwitchCase.printList depth cs
  | [] => rfl
  | c :: rest => by
    simp only [SwitchCase.spellList, SwitchCase.blurList, SwitchCase.printList,
      SwitchCase.print_spell hb depth c, SwitchCase.printList_spell hb depth rest]

end

theorem Module.print_spell {b : Blur} (hb : ∀ type, b.type type = none) (m : Module) :
    (m.spell.blur b).print = m.print :=
  Stmt.printList_spell hb 0 m.body

/-! ### Their floating point literals -/

mutual

theorem Expr.floats_blur (b : Blur) : (e : Expr) → (e.blur b).floats = e.floats
  | .int _ _ | .float _ _ | .char _ _ | .string _ _ | .null _ | .name _ _ => rfl
  | .array _ items => Expr.floatsList_blur b items
  | .binary _ _ l r => by simp only [Expr.blur, Expr.floats, Expr.floats_blur b l, Expr.floats_blur b r]
  | .unary _ _ e => Expr.floats_blur b e
  | .call _ f args => by
    simp only [Expr.blur, Expr.floats, Expr.floats_blur b f, Expr.floatsList_blur b args]
  | .index _ o i => by simp only [Expr.blur, Expr.floats, Expr.floats_blur b o, Expr.floats_blur b i]
  | .member _ o _ _ => Expr.floats_blur b o
  | .cast _ t e => by simp only [Expr.blur, Expr.floats, TypeExpr.floats_blur b t, Expr.floats_blur b e]
  | .sizeof _ t => TypeExpr.floats_blur b t

theorem Expr.floatsList_blur (b : Blur) : (es : List Expr) → Expr.floatsList (Expr.blurList b es) = Expr.floatsList es
  | [] => rfl
  | e :: rest => by
    simp only [Expr.blurList, Expr.floatsList, Expr.floats_blur b e, Expr.floatsList_blur b rest]

theorem TypeExpr.floats_blur (b : Blur) : (t : TypeExpr) → (t.blur b).floats = t.floats
  | .name _ _ | .vararg _ => rfl
  | .pointer _ t => TypeExpr.floats_blur b t
  | .array _ t size => by
    simp only [TypeExpr.blur, TypeExpr.floats, TypeExpr.floats_blur b t, Expr.floats_blur b size]
  | .function _ params returns => by
    simp only [TypeExpr.blur, TypeExpr.floats, TypeExpr.floatsList_blur b params, TypeExpr.floats_blur b returns]

theorem TypeExpr.floatsList_blur (b : Blur) : (ts : List TypeExpr) →
    TypeExpr.floatsList (TypeExpr.blurList b ts) = TypeExpr.floatsList ts
  | [] => rfl
  | t :: rest => by
    simp only [TypeExpr.blurList, TypeExpr.floatsList, TypeExpr.floats_blur b t, TypeExpr.floatsList_blur b rest]

end

mutual

theorem ValueType.floats_spell : (t : ValueType) → t.spell.floats = []
  | .scalar s => by cases s <;> rfl
  | .struct _ _ => rfl
  | .pointer t => ValueType.floats_spell t
  | .array t (.fixed _) | .array t (.symbolic _) => by
    simp only [ValueType.spell, TypeExpr.floats, ValueType.floats_spell t, Expr.floats, append_nil]
  | .function params returns => by
    simp only [ValueType.spell, TypeExpr.floats, ValueType.floatsList_spellEach params,
      ValueType.floats_spell returns, append_nil]

theorem ValueType.floatsList_spellEach : (ts : List ValueType) → TypeExpr.floatsList (ValueType.spellEach ts) = []
  | [] => rfl
  | t :: rest => by
    simp only [ValueType.spellEach, TypeExpr.floatsList, ValueType.floats_spell t,
      ValueType.floatsList_spellEach rest, append_nil]

end

/-- A type that is written out adds no literal. -/
theorem floats_spelled (b : Blur) (declared : Option TypeExpr) (found : Option ValueType) :
    ((declared.or (found.map ValueType.spell)).map (·.blur b)).elim [] TypeExpr.floats =
      declared.elim [] TypeExpr.floats := by
  cases declared with
  | some t => exact t.floats_blur b
  | none =>
    cases found with
    | some t => exact (TypeExpr.floats_blur b _).trans t.floats_spell
    | none => rfl

theorem VarDecl.floats_spell (b : Blur) (d : VarDecl) : (d.spell.blur b).floats = d.floats := by
  obtain ⟨name, declared, init, type⟩ := d
  cases init <;>
    simp only [VarDecl.floats, VarDecl.spell, VarDecl.blur, floats_spelled b declared type, Option.map_some,
      Option.map_none, Option.elim_some, Option.elim_none, Expr.floats_blur]

theorem FunctionHead.floats_spell (b : Blur) (f : FunctionHead) : (f.spell.blur b).floats = f.floats := by
  have hparam (p : Param) : (p.spell.blur b).floats = p.floats := by
    obtain ⟨kind, span, type⟩ := p
    cases kind with
    | vararg => rfl
    | named n declared => exact floats_spelled b declared type
  have hparams : ((f.params.map Param.spell).map (·.blur b)).flatMap Param.floats =
      f.params.flatMap Param.floats := by
    rw [map_map, flatMap_map]
    exact congrArg (f.params.flatMap ·) (funext hparam)
  simp only [FunctionHead.floats, FunctionHead.spell, FunctionHead.blur, hparams, floats_spelled]

mutual

theorem Stmt.floats_spell (b : Blur) : (s : Stmt) → (s.spell.blur b).floats = s.floats
  | .expr _ e => e.floats_blur b
  | .declare _ d => d.floats_spell b
  | .assign _ target value => by simp only [Stmt.spell, Stmt.blur, Stmt.floats, Expr.floats_blur]
  | .announce _ f => f.floats_spell b
  | .function _ f body => by
    simp only [Stmt.spell, Stmt.blur, Stmt.floats, FunctionHead.floats_spell, Stmt.floatsList_spell b body]
  | .result _ none | .define _ _ none => rfl
  | .result _ (some e) | .define _ _ (some e) => e.floats_blur b
  | .ifElse _ c body orelse | .whileLoop _ c body orelse => by
    simp only [Stmt.spell, Stmt.blur, Stmt.floats, Expr.floats_blur, Stmt.floatsList_spell b body,
      Stmt.floatsList_spell b orelse]
  | .doLoop _ body c => by
    simp only [Stmt.spell, Stmt.blur, Stmt.floats, Expr.floats_blur, Stmt.floatsList_spell b body]
  | .switch _ subject cases default => by
    simp only [Stmt.spell, Stmt.blur, Stmt.floats, Expr.floats_blur, SwitchCase.floatsList_spell b cases,
      Stmt.floatsDefault_spell b default]
  | .struct _ _ fields => by
    simp only [Stmt.spell, Stmt.blur, Stmt.floats, flatMap_map, Field.blur, TypeExpr.floats_blur]
  | .typedef _ t _ => t.floats_blur b
  | .leave _ | .pass _ | .enum _ _ _ | .includeFile _ _ | .ifndef _ _ | .endif _ => rfl

theorem Stmt.floatsList_spell (b : Blur) : (ss : List Stmt) →
    Stmt.floatsList (Stmt.blurList b (Stmt.spellList ss)) = Stmt.floatsList ss
  | [] => rfl
  | s :: rest => by
    simp only [Stmt.spellList, Stmt.blurList, Stmt.floatsList, Stmt.floats_spell b s, Stmt.floatsList_spell b rest]

theorem Stmt.floatsDefault_spell (b : Blur) : (d : Option (List Stmt)) →
    Stmt.floatsDefault (Stmt.blurBlock b (Stmt.spellBlock d)) = Stmt.floatsDefault d
  | none => rfl
  | some body => Stmt.floatsList_spell b body

theorem SwitchCase.floats_spell (b : Blur) : (c : SwitchCase) → (c.spell.blur b).floats = c.floats
  | .mk _ values body => by
    simp only [SwitchCase.spell, SwitchCase.blur, SwitchCase.floats, Expr.floatsList_blur,
      Stmt.floatsList_spell b body]

theorem SwitchCase.floatsList_spell (b : Blur) : (cs : List SwitchCase) →
    SwitchCase.floatsList (SwitchCase.blurList b (SwitchCase.spellList cs)) = SwitchCase.floatsList cs
  | [] => rfl
  | c :: rest => by
    simp only [SwitchCase.spellList, SwitchCase.blurList, SwitchCase.floatsList,
      SwitchCase.floats_spell b c, SwitchCase.floatsList_spell b rest]

end

/-! ### Types that mean the same everywhere -/

mutual

/-- Whether a type is built from the scalars that every program starts with. Such a type means the same
wherever it is written. -/
def ValueType.isStandard : ValueType → Bool
  | .scalar s => Scalar.builtin.contains s
  | .pointer t => t.isStandard
  | .array t (.fixed n) => t.isStandard && !t.isVoid && n ≤ Number.wordMax
  | .function params returns => ValueType.areStandard params && returns.isStandard
  | .array _ (.symbolic _) | .struct _ _ => false

/-- Dots may stand among the parameters of a function type. -/
def ValueType.areStandard : List ValueType → Bool
  | [] => true
  | t :: rest => (t.isVararg || t.isStandard) && ValueType.areStandard rest

end

theorem Scalar.isName_builtin : ∀ s ∈ Scalar.builtin, IsName s.name := by
  decide +kernel

theorem ValueType.isVararg_spell (b : Blur) {t : ValueType} (h : t.isStandard) :
    (t.spell.blur b).isVararg = false := by
  cases t with
  | scalar s =>
    cases s with
    | vararg => cases h
    | _ => rfl
  | array t size => cases size <;> rfl
  | _ => rfl

mutual

theorem ValueType.wellFormed_spell {b : Blur} (hb : ∀ type, b.type type = none) :
    (t : ValueType) → t.isStandard → (t.spell.blur b).WellFormed
  | .scalar s, h => by
    have hname : IsName s.name := Scalar.isName_builtin s (by simpa [ValueType.isStandard] using h)
    cases s with
    | vararg => trivial
    | _ => exact hname
  | .pointer t, h => ⟨ValueType.isVararg_spell b h, ValueType.wellFormed_spell hb t h⟩
  | .array t (.fixed n), h => by
    simp only [ValueType.isStandard, Bool.and_eq_true, decide_eq_true_eq] at h
    obtain ⟨⟨ht, _⟩, hn⟩ := h
    exact ⟨ValueType.isVararg_spell b ht, ValueType.wellFormed_spell hb t ht, hb _, Int.natCast_nonneg n, hn⟩
  | .function params returns, h => by
    simp only [ValueType.isStandard, Bool.and_eq_true] at h
    exact ⟨ValueType.wellFormedList_spellEach hb params h.1, ValueType.isVararg_spell b h.2,
      ValueType.wellFormed_spell hb returns h.2⟩
  | .array _ (.symbolic _), h | .struct _ _, h => by cases h

theorem ValueType.wellFormedList_spellEach {b : Blur} (hb : ∀ type, b.type type = none) :
    (ts : List ValueType) → ValueType.areStandard ts →
      TypeExpr.WellFormedList (TypeExpr.blurList b (ValueType.spellEach ts))
  | [], _ => trivial
  | t :: rest, h => by
    simp only [ValueType.areStandard, Bool.and_eq_true, Bool.or_eq_true] at h
    refine ⟨?_, ValueType.wellFormedList_spellEach hb rest h.2⟩
    rcases h.1 with hvararg | ht
    · cases t with
      | scalar s =>
        cases s with
        | vararg => trivial
        | _ => cases hvararg
      | _ => cases hvararg
    · exact ValueType.wellFormed_spell hb t ht

end

theorem ValueType.plain_spell {b : Blur} (hb : ∀ type, b.type type = none) {t : ValueType}
    (h : t.isStandard) : (t.spell.blur b).Plain :=
  ⟨ValueType.isVararg_spell b h, ValueType.wellFormed_spell hb t h⟩

end Offside
