import Offside.Check.Statement

/-! When the types on a tree are right.

`Expr.HasType` derives the type of an expression from the types that its parts carry, and asks of every
node to carry the type derived for it. `Stmt.WellTyped` asks the same of the expressions in a statement
and that each value fits the place it is put in. Neither looks anything up: all they know of a name is the
type on it, and all they know of a member is the type of the struct.

A result has to fit the type of its function, and there are two rules for that (`ResultRule`): one for
functions that say what they return and one for those whose first result says it for all. -/
namespace Offside

open List

/-! ### Expressions -/

/-- A struct with a member of a type. Nothing is asked of a struct that is known by name only. -/
def ValueType.HasMember (struct : ValueType) (name : String) (type : ValueType) : Prop :=
  ∃ s members, struct = .struct s members ∧ (members ≠ [] → struct.member name = some type)

/-- Whether so many arguments can be passed: one for each parameter, and more only if dots are last. -/
def takesArguments (params : List ValueType) (count : Nat) : Bool :=
  if (splitVararg params).2 then (splitVararg params).1.length ≤ count
  else count = (splitVararg params).1.length

mutual

/-- The expression carries the type, and each of its parts carries one from which that follows. -/
inductive Expr.HasType : Expr → ValueType → Prop where
  | int {m : Mark} {value : Int} : HasType (.int ⟨m, some .int⟩ value) .int
  | float {m : Mark} {value : Number.Double} : HasType (.float ⟨m, some .float⟩ value) .float
  | char {m : Mark} {value : Char} : HasType (.char ⟨m, some .char⟩ value) .char
  | string {m : Mark} {value : String} :
      HasType (.string ⟨m, some (.ofString value)⟩ value) (.ofString value)
  | null {m : Mark} : HasType (.null ⟨m, some .null⟩) .null
  | name {m : Mark} {name : String} {t : ValueType} : HasType (.name ⟨m, some t⟩ name) t
  /-- The first item gives the type of all. -/
  | array {m : Mark} {first : Expr} {rest : List Expr} {t u : ValueType} :
      HasType first t → Expr.Fill t rest → u = .array t (.fixed (rest.length + 1)) →
      HasType (.array ⟨m, some u⟩ (first :: rest)) u
  | binary {m : Mark} {op : BinaryOp} {left right : Expr} {a b t : ValueType} :
      HasType left a → HasType right b → ValueType.binaryResult op a b = .ok t →
      HasType (.binary ⟨m, some t⟩ op left right) t
  | unary {m : Mark} {op : UnaryOp} {operand : Expr} {a t : ValueType} :
      HasType operand a → ValueType.unaryResult op operand.isPlace a = .ok t →
      HasType (.unary ⟨m, some t⟩ op operand) t
  | call {m : Mark} {callee : Expr} {arguments : List Expr} {c t : ValueType}
      {params : List ValueType} :
      HasType callee c → c.callable? = some (params, t) →
      takesArguments params arguments.length = true →
      Expr.Pass (splitVararg params).1 arguments → HasType (.call ⟨m, some t⟩ callee arguments) t
  | index {m : Mark} {object position : Expr} {o p t : ValueType} :
      HasType object o → o.target? = some t → HasType position p → p.isIntegerLike = true →
      HasType (.index ⟨m, some t⟩ object position) t
  | member {m : Mark} {object : Expr} {name : String} {arrow : Bool} {struct t : ValueType} :
      HasType object (if arrow then .pointer struct else struct) → struct.HasMember name t →
      HasType (.member ⟨m, some t⟩ object name arrow) t
  | cast {m : Mark} {target : TypeExpr} {operand : Expr} {a t : ValueType} :
      HasType operand a → ValueType.canCast a t = true → HasType (.cast ⟨m, some t⟩ target operand) t
  | sizeof {m : Mark} {target : TypeExpr} {t : ValueType} : HasType (.sizeof ⟨m, some t⟩ target) t

/-- Each expression can be stored as an item of the type. -/
inductive Expr.Fill : ValueType → List Expr → Prop where
  | nil {t : ValueType} : Fill t []
  | cons {t a : ValueType} {e : Expr} {rest : List Expr} :
      HasType e a → ValueType.canAssign e.origin t a = true → Fill t rest → Fill t (e :: rest)

/-- The expressions can be passed for parameters of these types; those that are left over have values. -/
inductive Expr.Pass : List ValueType → List Expr → Prop where
  | nil {params : List ValueType} : Pass params []
  | cons {t a : ValueType} {params : List ValueType} {e : Expr} {rest : List Expr} :
      HasType e a → ValueType.canAssign e.origin t a = true → Pass params rest →
      Pass (t :: params) (e :: rest)
  | extra {a : ValueType} {e : Expr} {rest : List Expr} :
      HasType e a → a.isVoid = false → Pass [] rest → Pass [] (e :: rest)

end

/-- The type that is derived is the type on the node. -/
theorem Expr.HasType.type? {e : Expr} {t : ValueType} (h : e.HasType t) : e.type? = some t := by
  cases h <;> rfl

/-- The expression carries a type that follows from those on its parts. -/
def Expr.WellTyped (e : Expr) : Prop := ∃ t, e.HasType t

theorem Expr.Fill.wellTyped {t : ValueType} {es : List Expr} (h : Expr.Fill t es) :
    ∀ e ∈ es, e.WellTyped := by
  induction es with
  | nil => exact nofun
  | cons first rest ih =>
    cases h with
    | cons hfirst _ hrest => exact forall_mem_cons.mpr ⟨⟨_, hfirst⟩, ih hrest⟩

theorem Expr.Pass.wellTyped {params : List ValueType} {es : List Expr} (h : Expr.Pass params es) :
    ∀ e ∈ es, e.WellTyped := by
  induction es generalizing params with
  | nil => exact nofun
  | cons first rest ih =>
    cases h with
    | cons hfirst _ hrest | extra hfirst _ hrest =>
      exact forall_mem_cons.mpr ⟨⟨_, hfirst⟩, ih hrest⟩

mutual

/-- The expressions that an expression is made of, except those inside types. -/
def Expr.inside : Expr → List Expr
  | .array _ items => Expr.allOf items
  | .binary _ _ left right => left :: left.inside ++ right :: right.inside
  | .unary _ _ operand => operand :: operand.inside
  | .call _ callee arguments => callee :: callee.inside ++ Expr.allOf arguments
  | .index _ object position => object :: object.inside ++ position :: position.inside
  | .member _ object _ _ => object :: object.inside
  | .cast _ _ operand => operand :: operand.inside
  | _ => []

/-- The expressions of a list with those that they are made of. -/
def Expr.allOf : List Expr → List Expr
  | [] => []
  | e :: rest => e :: e.inside ++ Expr.allOf rest

end

mutual

/-- What a well-typed expression is made of is well typed. -/
theorem Expr.WellTyped.inside : (e : Expr) → e.WellTyped → ∀ p ∈ e.inside, p.WellTyped
  | .array _ items, ⟨_, h⟩ => by
    have hitems : ∀ e ∈ items, e.WellTyped := by
      cases h with
      | array hfirst hrest _ => exact forall_mem_cons.mpr ⟨⟨_, hfirst⟩, hrest.wellTyped⟩
    exact Expr.WellTyped.allOf items hitems
  | .binary _ _ left right, ⟨_, h⟩ => by
    cases h with
    | binary hleft hright _ =>
      have hleft : left.WellTyped := ⟨_, hleft⟩
      have hright : right.WellTyped := ⟨_, hright⟩
      exact forall_mem_append.mpr ⟨forall_mem_cons.mpr ⟨hleft, Expr.WellTyped.inside left hleft⟩,
          forall_mem_cons.mpr ⟨hright, Expr.WellTyped.inside right hright⟩⟩
  | .unary _ _ operand, ⟨_, h⟩ => by
    cases h with
    | unary hoperand _ =>
      have hoperand : operand.WellTyped := ⟨_, hoperand⟩
      exact forall_mem_cons.mpr ⟨hoperand, Expr.WellTyped.inside operand hoperand⟩
  | .call _ callee arguments, ⟨_, h⟩ => by
    cases h with
    | call hcallee _ _ hpass =>
      have hcallee : callee.WellTyped := ⟨_, hcallee⟩
      exact forall_mem_append.mpr ⟨forall_mem_cons.mpr ⟨hcallee, Expr.WellTyped.inside callee hcallee⟩,
          Expr.WellTyped.allOf arguments hpass.wellTyped⟩
  | .index _ object position, ⟨_, h⟩ => by
    cases h with
    | index hobject _ hposition _ =>
      have hobject : object.WellTyped := ⟨_, hobject⟩
      have hposition : position.WellTyped := ⟨_, hposition⟩
      exact forall_mem_append.mpr ⟨forall_mem_cons.mpr ⟨hobject, Expr.WellTyped.inside object hobject⟩,
          forall_mem_cons.mpr ⟨hposition, Expr.WellTyped.inside position hposition⟩⟩
  | .member _ object _ _, ⟨_, h⟩ => by
    cases h with
    | member hobject _ =>
      have hobject : object.WellTyped := ⟨_, hobject⟩
      exact forall_mem_cons.mpr ⟨hobject, Expr.WellTyped.inside object hobject⟩
  | .cast _ _ operand, ⟨_, h⟩ => by
    cases h with
    | cast hoperand _ =>
      have hoperand : operand.WellTyped := ⟨_, hoperand⟩
      exact forall_mem_cons.mpr ⟨hoperand, Expr.WellTyped.inside operand hoperand⟩
  | .int _ _, _ | .float _ _, _ | .char _ _, _ | .string _ _, _ | .null _, _ | .name _ _, _
  | .sizeof _ _, _ => nofun

theorem Expr.WellTyped.allOf : (es : List Expr) → (∀ e ∈ es, e.WellTyped) → ∀ p ∈ Expr.allOf es, p.WellTyped
  | [], _ => nofun
  | e :: rest, h => by
    have he := h e mem_cons_self
    exact forall_mem_append.mpr ⟨forall_mem_cons.mpr ⟨he, Expr.WellTyped.inside e he⟩,
        Expr.WellTyped.allOf rest fun p hp => h p (mem_cons_of_mem _ hp)⟩

end

/-! ### Statements -/

/-- What the results of a function have to fit. -/
inductive ResultRule where
  /-- The type that the function is declared to return. -/
  | declared (type : ValueType)
  /-- The type of the first result, where none is declared. -/
  | inferred (type : ValueType)

namespace ResultRule

/-- The type that the function returns. -/
def type : ResultRule → ValueType
  | declared t | inferred t => t

/-- Whether a result of a type fits. -/
def takes (origin : ValueOrigin) (found : ValueType) : ResultRule → Bool
  | declared expected => Check.resultFits origin expected found
  | inferred first =>
    !(found.decay.isNull || found.decay.isVararg) && ValueType.matchesOnAssign first found.decay

end ResultRule

/-- A variable with a written type takes what can be stored as that type; one that an assignment declares
has the type of the value. -/
def VarDecl.WellTyped (d : VarDecl) : Prop := ∃ t, d.type = some t ∧ t.isVoid = false ∧ match d.declared, d.init with
    | some _, none => True
    | some _, some e => ∃ a, e.HasType a ∧ ValueType.canAssign e.origin t a = true
    | none, some e => e.HasType t ∧ t.isNull = false ∧ t.isVararg = false
    | none, none => False

/-- Whether a value may be assigned to a target. A name takes only what matches its type. -/
def Expr.mayBecome (target value : Expr) (t a : ValueType) : Bool := match target with
  | .name _ _ => ValueType.matchesOnAssign t a
  | _ => ValueType.canAssign value.origin t a

/-- The head of a function carries its type, which its parameters carry one by one. -/
def FunctionHead.HasType (head : FunctionHead) (returns : ValueType) : Prop :=
  ∃ types, head.signature = some (.function types returns) ∧ head.params.map Param.type = types.map some

/-- A value that can be tested. -/
def Expr.IsCondition (e : Expr) : Prop := ∃ t, e.HasType t ∧ t.isTruthy = true

/-- The first label can be stored as the subject, and the others have the type of the first. -/
def Expr.AreLabels (subject : ValueType) : List Expr → Prop
  | [] => True
  | e :: rest => ∃ t, e.HasType t ∧ ValueType.canAssign e.origin subject t = true ∧
      ∀ e' ∈ rest, ∃ t', e'.HasType t' ∧ ValueType.same t t' = true

mutual

/-- The types on the expressions of the statement are right, and every value fits the place it is put in.
The rule is that for results of the function around the statement. -/
def Stmt.WellTyped (rule : ResultRule) : Stmt → Prop
  | .expr _ e => e.WellTyped
  | .declare _ d => d.WellTyped
  | .assign _ target value => ∃ t a, target.HasType t ∧ value.HasType a ∧
      Check.isFixed t = false ∧ target.mayBecome value t a = true
  | .announce _ head => ∃ returns, head.HasType returns
  | .function _ head body => ∃ own : ResultRule, head.HasType own.type ∧
      (head.returns.isSome = true → own = .declared own.type) ∧ Stmt.AllTyped own body
  | .result _ none => rule.takes .value .void = true
  | .result _ (some e) => ∃ t, e.HasType t ∧ rule.takes e.origin t = true
  | .ifElse _ c body orelse =>
    c.IsCondition ∧ Stmt.AllTyped rule body ∧ Stmt.AllTyped rule orelse
  | .whileLoop _ c body orelse =>
    c.IsCondition ∧ Stmt.AllTyped rule body ∧ Stmt.AllTyped rule orelse
  | .doLoop _ body c => Stmt.AllTyped rule body ∧ c.IsCondition
  | .switch _ subject cases default => ∃ t, subject.HasType t ∧ t.isIntegerLike = true ∧
      SwitchCase.AllTyped rule t cases ∧ Stmt.BlockTyped rule default
  | .define _ _ value => ∀ e ∈ value, e.WellTyped
  | .leave _ | .pass _ | .struct _ _ _ | .enum _ _ _ | .typedef _ _ _ | .includeFile _ _
  | .ifndef _ _ | .endif _ => True

def Stmt.AllTyped (rule : ResultRule) : List Stmt → Prop
  | [] => True
  | s :: rest => s.WellTyped rule ∧ Stmt.AllTyped rule rest

def Stmt.BlockTyped (rule : ResultRule) : Option (List Stmt) → Prop
  | none => True
  | some body => Stmt.AllTyped rule body

def SwitchCase.WellTyped (rule : ResultRule) (subject : ValueType) : SwitchCase → Prop
  | .mk _ values body => Expr.AreLabels subject values ∧ Stmt.AllTyped rule body

def SwitchCase.AllTyped (rule : ResultRule) (subject : ValueType) : List SwitchCase → Prop
  | [] => True
  | c :: rest => c.WellTyped rule subject ∧ SwitchCase.AllTyped rule subject rest

end

/-- Outside functions there are no results, so that any rule does for them. -/
def Module.WellTyped (m : Module) : Prop := ∀ rule, Stmt.AllTyped rule m.body

mutual

/-- The expressions that stand in a statement. -/
def Stmt.expressions : Stmt → List Expr
  | .expr _ e => [e]
  | .declare _ d => d.init.toList
  | .assign _ target value => [target, value]
  | .function _ _ body => Stmt.expressionsOf body
  | .result _ value => value.toList
  | .ifElse _ c body orelse => c :: Stmt.expressionsOf body ++ Stmt.expressionsOf orelse
  | .whileLoop _ c body orelse => c :: Stmt.expressionsOf body ++ Stmt.expressionsOf orelse
  | .doLoop _ body c => c :: Stmt.expressionsOf body
  | .switch _ subject cases default =>
    subject :: SwitchCase.expressionsOf cases ++ Stmt.blockExpressions default
  | .define _ _ value => value.toList
  | _ => []

def Stmt.expressionsOf : List Stmt → List Expr
  | [] => []
  | s :: rest => s.expressions ++ Stmt.expressionsOf rest

def Stmt.blockExpressions : Option (List Stmt) → List Expr
  | none => []
  | some body => Stmt.expressionsOf body

def SwitchCase.expressions : SwitchCase → List Expr
  | .mk _ values body => values ++ Stmt.expressionsOf body

def SwitchCase.expressionsOf : List SwitchCase → List Expr
  | [] => []
  | c :: rest => c.expressions ++ SwitchCase.expressionsOf rest

end

/-- All expressions of a program, except those inside types. -/
def Module.expressions (m : Module) : List Expr := Expr.allOf (Stmt.expressionsOf m.body)

theorem VarDecl.WellTyped.init {d : VarDecl} (h : d.WellTyped) : ∀ e ∈ d.init, e.WellTyped := by
  obtain ⟨name, declared, init, type⟩ := d
  obtain ⟨t, _, _, h⟩ := h
  cases init with
  | none => exact nofun
  | some e =>
    rintro _ ⟨⟩
    cases declared with
    | none => exact ⟨t, h.1⟩
    | some declared =>
      obtain ⟨a, ha, _⟩ := h
      exact ⟨a, ha⟩

theorem Expr.AreLabels.wellTyped {subject : ValueType} {es : List Expr} (h : Expr.AreLabels subject es) :
    ∀ e ∈ es, e.WellTyped := by
  cases es with
  | nil => exact nofun
  | cons first rest =>
    obtain ⟨t, hfirst, _, hrest⟩ := h
    refine forall_mem_cons.mpr ⟨⟨t, hfirst⟩, fun e he => ?_⟩
    obtain ⟨t', ht', _⟩ := hrest e he
    exact ⟨t', ht'⟩

theorem Expr.IsCondition.wellTyped {e : Expr} (h : e.IsCondition) : e.WellTyped := h.imp fun _ h => h.1

mutual

/-- The expressions of a well-typed statement are well typed. -/
theorem Stmt.WellTyped.expressions (rule : ResultRule) : (s : Stmt) → s.WellTyped rule →
    ∀ e ∈ s.expressions, e.WellTyped
  | .expr _ _, h => forall_mem_singleton.mpr h
  | .declare _ _, h => fun e he => h.init e (Option.mem_toList.mp he)
  | .assign _ _ _, ⟨t, a, ht, ha, _⟩ =>
    forall_mem_cons.mpr ⟨⟨t, ht⟩, forall_mem_singleton.mpr ⟨a, ha⟩⟩
  | .function _ _ body, ⟨own, _, _, hbody⟩ => Stmt.AllTyped.expressions own body hbody
  | .result _ none, _ => nofun
  | .result _ (some _), ⟨t, ht, _⟩ => forall_mem_singleton.mpr ⟨t, ht⟩
  | .ifElse _ _ body orelse, ⟨hc, hbody, horelse⟩ | .whileLoop _ _ body orelse, ⟨hc, hbody, horelse⟩ =>
    forall_mem_append.mpr ⟨forall_mem_cons.mpr ⟨hc.wellTyped, Stmt.AllTyped.expressions rule body hbody⟩,
        Stmt.AllTyped.expressions rule orelse horelse⟩
  | .doLoop _ body _, ⟨hbody, hc⟩ =>
    forall_mem_cons.mpr ⟨hc.wellTyped, Stmt.AllTyped.expressions rule body hbody⟩
  | .switch _ _ cases default, ⟨t, ht, _, hcases, hdefault⟩ =>
    forall_mem_append.mpr ⟨forall_mem_cons.mpr ⟨⟨t, ht⟩, SwitchCase.AllTyped.expressions rule t cases hcases⟩,
        Stmt.BlockTyped.expressions rule default hdefault⟩
  | .define _ _ _, h => fun e he => h e (Option.mem_toList.mp he)
  | .announce _ _, _ | .leave _, _ | .pass _, _ | .struct _ _ _, _ | .enum _ _ _, _ | .typedef _ _ _, _
  | .includeFile _ _, _ | .ifndef _ _, _ | .endif _, _ => nofun

theorem Stmt.AllTyped.expressions (rule : ResultRule) : (ss : List Stmt) → Stmt.AllTyped rule ss →
    ∀ e ∈ Stmt.expressionsOf ss, e.WellTyped
  | [], _ => nofun
  | s :: rest, ⟨hs, hrest⟩ =>
    forall_mem_append.mpr ⟨Stmt.WellTyped.expressions rule s hs, Stmt.AllTyped.expressions rule rest hrest⟩

theorem Stmt.BlockTyped.expressions (rule : ResultRule) : (d : Option (List Stmt)) →
    Stmt.BlockTyped rule d → ∀ e ∈ Stmt.blockExpressions d, e.WellTyped
  | none, _ => nofun
  | some body, h => Stmt.AllTyped.expressions rule body h

theorem SwitchCase.WellTyped.expressions (rule : ResultRule) (subject : ValueType) :
    (c : SwitchCase) → c.WellTyped rule subject → ∀ e ∈ c.expressions, e.WellTyped
  | .mk _ _ body, ⟨hvalues, hbody⟩ =>
    forall_mem_append.mpr ⟨hvalues.wellTyped, Stmt.AllTyped.expressions rule body hbody⟩

theorem SwitchCase.AllTyped.expressions (rule : ResultRule) (subject : ValueType) :
    (cs : List SwitchCase) → SwitchCase.AllTyped rule subject cs → ∀ e ∈ SwitchCase.expressionsOf cs, e.WellTyped
  | [], _ => nofun
  | c :: rest, ⟨hc, hrest⟩ =>
    forall_mem_append.mpr ⟨SwitchCase.WellTyped.expressions rule subject c hc,
      SwitchCase.AllTyped.expressions rule subject rest hrest⟩

end

/-- In a well-typed program every expression carries a type that follows from those on its parts. -/
theorem Module.WellTyped.expressions {m : Module} (h : m.WellTyped) : ∀ e ∈ m.expressions, e.WellTyped :=
  Expr.WellTyped.allOf _ (Stmt.AllTyped.expressions (.declared .void) m.body (h _))

end Offside
