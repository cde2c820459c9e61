import Offside.Proofs.Check.Growth
import Offside.Proofs.Check.Typing
import Offside.Proofs.Grammar.Files

/-! A check adds types to a tree and nothing else.

Two things happen to a tree that is checked: types are noted on its nodes, and an assignment that
declares its target becomes a declaration. `Module.restore` undoes both; all that is lost on the way is
the number and the place of the target's name, which it is given. For expressions the types are followed
in the same pass (`Check.typed_sound`). -/
namespace Offside

/-! ### Undoing a check -/

mutual

/-- The statement without the types a check has found. A declaration without a written type becomes the
assignment it was; the marks of the targets are taken from the front of a list. -/
def Stmt.restore : Stmt → List Mark → Stmt × List Mark
  | .declare m ⟨name, none, some value, _⟩, targets =>
    (.assign m (.name ⟨targets.headD default, none⟩ name) (value.blur .types), targets.tail)
  | .function m f body, targets =>
    let (body, targets) := Stmt.restoreList body targets
    (.function m (f.blur .types) body, targets)
  | .ifElse m c body orelse, targets =>
    let (body, targets) := Stmt.restoreList body targets
    let (orelse, targets) := Stmt.restoreList orelse targets
    (.ifElse m (c.blur .types) body orelse, targets)
  | .whileLoop m c body orelse, targets =>
    let (body, targets) := Stmt.restoreList body targets
    let (orelse, targets) := Stmt.restoreList orelse targets
    (.whileLoop m (c.blur .types) body orelse, targets)
  | .doLoop m body c, targets =>
    let (body, targets) := Stmt.restoreList body targets
    (.doLoop m body (c.blur .types), targets)
  | .switch m subject cases default, targets =>
    let (cases, targets) := SwitchCase.restoreList cases targets
    let (default, targets) := Stmt.restoreBlock default targets
    (.switch m (subject.blur .types) cases default, targets)
  | s, targets => (s.blur .types, targets)

def Stmt.restoreList : List Stmt → List Mark → List Stmt × List Mark
  | [], targets => ([], targets)
  | s :: rest, targets =>
    let (s, targets) := s.restore targets
    let (rest, targets) := Stmt.restoreList rest targets
    (s :: rest, targets)

def Stmt.restoreBlock : Option (List Stmt) → List Mark → Option (List Stmt) × List Mark
  | none, targets => (none, targets)
  | some body, targets =>
    let (body, targets) := Stmt.restoreList body targets
    (some body, targets)

def SwitchCase.restore : SwitchCase → List Mark → SwitchCase × List Mark
  | .mk span values body, targets =>
    let (body, targets) := Stmt.restoreList body targets
    (.mk span (Expr.blurList .types values) body, targets)

def SwitchCase.restoreList : List SwitchCase → List Mark → List SwitchCase × List Mark
  | [], targets => ([], targets)
  | c :: rest, targets =>
    let (c, targets) := c.restore targets
    let (rest, targets) := SwitchCase.restoreList rest targets
    (c :: rest, targets)

end

/-- The module as it was before it was checked, and the marks that were not needed. -/
def Module.restore (m : Module) (targets : List Mark) : Module × List Mark :=
  let (body, targets) := Stmt.restoreList m.body targets
  (⟨m.file, body⟩, targets)

/-! ### Expressions -/

theorem Expr.origin_blur (b : Blur) (e : Expr) : (e.blur b).origin = e.origin := by
  cases e <;> rfl

theorem Expr.origin_of_blur {b : Blur} {e e' : Expr} (h : e'.blur b = e.blur b) : e'.origin = e.origin := by
  rw [← e'.origin_blur b, h, e.origin_blur]

/-- Anything but a name takes what can be stored as its type. -/
theorem Expr.mayBecome_of_notName {target : Expr} (h : ∀ m name, target ≠ .name m name) (value : Expr)
    (t a : ValueType) : target.mayBecome value t a = ValueType.canAssign value.origin t a := by
  cases target with
  | name m name => exact absurd rfl (h m name)
  | _ => rfl

theorem Expr.notName_of_types {e e' : Expr} (h : ∀ m name, e ≠ .name m name)
    (hsame : e'.blur .types = e.blur .types) : ∀ m name, e' ≠ .name m name := by
  rintro m name rfl
  cases e with
  | name m' name' => exact h m' name' rfl
  | _ => cases hsame

@[simp] theorem Expr.blur_types_typed (e : Expr) (t : ValueType) : (e.typed t).blur .types = e.blur .types := by
  cases e <;> rfl

theorem Check.blur_types_given (e : Expr) (t : ValueType) : (Check.given e t).1.blur .types = e.blur .types :=
  e.blur_types_typed t

namespace Check

theorem fail_yields {α : Type} {fault : SemanticFault} {l : Location} {post : α → Prop} :
    Yields (fail fault l) post := .throw

theorem require_yields (kept : Bool) (fault : SemanticFault) (l : Location) :
    Yields (require kept fault l) fun _ => kept = true := by
  unfold require
  split
  · rename_i h
    exact .pure h
  · exact fail_yields

theorem binary_yields (op : BinaryOp) (left right : ValueType) (l : Location) :
    Yields (binary op left right l) fun t => ValueType.binaryResult op left right = .ok t := by
  unfold binary
  split
  · rename_i h
    exact .pure h
  · exact fail_yields
  · exact fail_yields

theorem unary_yields (op : UnaryOp) (place : Bool) (operand : ValueType) (l : Location) :
    Yields (unary op place operand l) fun t => ValueType.unaryResult op place operand = .ok t := by
  unfold unary
  split
  · rename_i h
    exact .pure h
  · exact fail_yields
  · exact fail_yields

/-- A struct with members is taken as it is. -/
theorem completeStruct_yields (name : String) (members : List (String × ValueType)) (l : Location) :
    Yields (completeStruct (.struct name members) l) fun t =>
      members ≠ [] → t = .struct name members := by
  cases members with
  | nil => exact fun _ _ _ _ _ h => absurd rfl h
  | cons first rest => exact .pure fun _ => rfl

/-- A member of a struct, which is looked up by name if its members are not known. -/
theorem structMember_yields (name : String) (members : List (String × ValueType)) (member : String)
    (l : Location) :
    Yields (do
      let struct ← completeStruct (.struct name members) l
      match struct.member member with
      | some type => return type
      | none => fail (.noMember struct.text member) l) fun t =>
        (ValueType.struct name members).HasMember member t := by
  refine (completeStruct_yields name members l).bind fun struct hstruct => ?_
  split
  · rename_i t ht
    refine .pure ⟨name, members, rfl, fun hmembers => ?_⟩
    rw [← hstruct hmembers]
    exact ht
  · exact fail_yields

theorem memberType_yields (object : ValueType) (member : String) (arrow : Bool) (l : Location) :
    Yields (memberType object member arrow l) fun t => ∃ struct : ValueType,
      object = (if arrow then .pointer struct else struct) ∧ struct.HasMember member t := by
  have hother (operator : String) : Yields (fail (.notAStruct operator object) l : Check ValueType) fun t =>
      ∃ struct : ValueType, object = (if arrow then .pointer struct else struct) ∧
        struct.HasMember member t := fail_yields
  unfold memberType
  cases arrow with
  | false =>
    cases object with
    | struct name members => exact fun s t s' hs h => ⟨_, rfl, structMember_yields name members member l s t s' hs h⟩
    | _ => exact hother _
  | true =>
    cases object with
    | pointer target =>
      cases target with
      | struct name members => exact fun s t s' hs h => ⟨_, rfl, structMember_yields name members member l s t s' hs h⟩
      | _ => exact hother _
    | _ => exact hother _

mutual

/-- A checked expression is the expression with types on it, and these form a derivation. -/
theorem typed_sound (sources : Sources) : (e : Expr) →
    Yields (typed sources e) fun r => r.1.blur .types = e.blur .types ∧ r.1.HasType r.2
  | .int _ _ => .pure ⟨rfl, .int⟩
  | .float _ _ => .pure ⟨rfl, .float⟩
  | .char _ _ => .pure ⟨rfl, .char⟩
  | .string _ _ => .pure ⟨rfl, .string⟩
  | .null _ => .pure ⟨rfl, .null⟩
  | .name _ name => by
    refine .after fun found => ?_
    cases found with
    | some type => exact .pure ⟨rfl, .name⟩
    | none => exact fail_yields
  | .array _ [] => by
    intro s r s' _ h
    cases h
  | .array m (e :: rest) => by
    have hitems : Yields (arrayItems sources none (e :: rest)) fun r => ∃ first more t,
        r = (first :: more, some t) ∧ (first.blur .types = e.blur .types ∧ first.HasType t) ∧
          Expr.blurList .types more = Expr.blurList .types rest ∧ Expr.Fill t more := by
      refine (typed_sound sources e).bind fun ⟨first, t⟩ hfirst => ?_
      refine (arrayItems_fill sources t rest).bind fun ⟨more, element⟩ hmore => .pure ?_
      obtain ⟨hsame, hmore, rfl⟩ := hmore
      exact ⟨first, more, t, rfl, hfirst, hsame, hmore⟩
    refine hitems.bind fun r hr => ?_
    obtain ⟨first, more, t, rfl, hfirst, hsame, hmore⟩ := hr
    refine .pure ⟨?_, .array hfirst.2 hmore rfl⟩
    simp only [blur_types_given, Expr.blur, Expr.blurList, hfirst.1, hsame]
  | .binary m op left right => by
    refine (typed_sound sources left).bind fun l hl => (typed_sound sources right).bind fun r hr => ?_
    refine (binary_yields op l.2 r.2 _).bind fun t ht => .pure ⟨?_, .binary hl.2 hr.2 ht⟩
    simp only [blur_types_given, Expr.blur, hl.1, hr.1]
  | .unary m op operand => by
    refine (typed_sound sources operand).bind fun r hr => ?_
    refine (unary_yields op r.1.isPlace r.2 _).bind fun t ht => .pure ⟨?_, .unary hr.2 ht⟩
    simp only [blur_types_given, Expr.blur, hr.1]
  | .call m callee arguments => by
    refine (typed_sound sources callee).bind fun ⟨f, c⟩ hf => ?_
    dsimp only at hf ⊢
    cases hc : c.callable? with
    | none => exact fail_yields
    | some signature =>
      obtain ⟨params, returns⟩ := signature
      refine (require_yields _ _ _).bind fun _ henough => ?_
      refine (callArguments_pass sources _ _ _ arguments).bind fun arguments' hpass => .pure ⟨?_, ?_⟩
      · simp only [blur_types_given, Expr.blur, hf.1, hpass.1]
      · refine .call hf.2 hc ?_ hpass.2.1
        rw [hpass.2.2]
        unfold takesArguments
        simpa using henough
  | .index m object position => by
    refine (typed_sound sources object).bind fun ⟨o, objectType⟩ ho => ?_
    refine (typed_sound sources position).bind fun ⟨p, positionType⟩ hp => ?_
    dsimp only at ho hp ⊢
    cases htarget : objectType.target? with
    | none => exact fail_yields
    | some element =>
      refine (require_yields _ _ _).bind fun _ hinteger => .pure ⟨?_, .index ho.2 htarget hp.2 hinteger⟩
      simp only [blur_types_given, Expr.blur, ho.1, hp.1]
  | .member m object member arrow => by
    refine (typed_sound sources object).bind fun ⟨o, objectType⟩ ho => ?_
    refine (memberType_yields objectType member arrow _).bind fun t ht => ?_
    obtain ⟨struct, rfl, hmember⟩ := ht
    refine .pure ⟨?_, .member ho.2 hmember⟩
    simp only [blur_types_given, Expr.blur, ho.1]
  | .cast m target operand => by
    refine .after fun targetType => (typed_sound sources operand).bind fun ⟨e, a⟩ he => ?_
    refine (require_yields _ _ _).bind fun _ hcast => .pure ⟨?_, .cast he.2 hcast⟩
    simp only [blur_types_given, Expr.blur, he.1]
  | .sizeof _ _ => .after fun _ => .after fun _ => .pure ⟨rfl, .sizeof⟩

theorem arrayItems_fill (sources : Sources) (expected : ValueType) : (es : List Expr) →
    Yields (arrayItems sources (some expected) es) fun r =>
      Expr.blurList .types r.1 = Expr.blurList .types es ∧ Expr.Fill expected r.1 ∧ r.2 = some expected
  | [] => .pure ⟨rfl, .nil, rfl⟩
  | e :: rest => by
    refine (typed_sound sources e).bind fun ⟨item, t⟩ hitem => ?_
    refine (require_yields _ _ _).bind fun _ hfits => ?_
    refine (arrayItems_fill sources expected rest).bind fun more hmore => .pure ⟨?_, ?_, hmore.2.2⟩
    · simp only [Expr.blurList, hitem.1, hmore.1]
    · exact .cons hitem.2 (by rw [Expr.origin_of_blur hitem.1]; exact hfits) hmore.2.1

theorem callArguments_pass (sources : Sources) (callee : String) (number : Nat)
    (params : List ValueType) : (es : List Expr) → Yields (callArguments sources callee number params es) fun r =>
        Expr.blurList .types r = Expr.blurList .types es ∧ Expr.Pass params r ∧ r.length = es.length
  | [] => .pure ⟨rfl, .nil, rfl⟩
  | e :: rest => by
    refine (typed_sound sources e).bind fun ⟨argument, t⟩ h => ?_
    have hrest := callArguments_pass sources callee (number + 1) params.tail rest
    cases params with
    | nil =>
      refine (require_yields _ _ _).bind fun _ hvalue => hrest.bind fun more hmore => .pure ⟨?_, ?_⟩
      · simp only [Expr.blurList, h.1, hmore.1]
      · exact ⟨.extra h.2 (by simpa using hvalue) hmore.2.1, congrArg Nat.succ hmore.2.2⟩
    | cons param params =>
      refine (require_yields _ _ _).bind fun _ hfits => hrest.bind fun more hmore => .pure ⟨?_, ?_⟩
      · simp only [Expr.blurList, h.1, hmore.1]
      · exact ⟨.cons h.2 (by rw [Expr.origin_of_blur h.1]; exact hfits) hmore.2.1, congrArg Nat.succ hmore.2.2⟩

end

theorem typed_yields (sources : Sources) (e : Expr) :
    Yields (typed sources e) fun r => r.1.blur .types = e.blur .types :=
  fun s r s' hs h => (typed_sound sources e s r s' hs h).1

theorem typed_hasType (sources : Sources) (e : Expr) : Yields (typed sources e) fun r => r.1.HasType r.2 :=
  fun s r s' hs h => (typed_sound sources e s r s' hs h).2

end Check

/-! ### What is restored -/

/-- With the right marks, and with no others used, `f` gives `a`. -/
def Restores {α : Type} (f : List Mark → α × List Mark) (a : α) : Prop := ∃ used, ∀ more, f (used ++ more) = (a, more)

namespace Restores

variable {α β γ : Type} {f : List Mark → α × List Mark} {g : List Mark → β × List Mark} {a : α} {b : β}

theorem here (a : α) : Restores (fun targets => (a, targets)) a := ⟨[], fun _ => rfl⟩

theorem map (k : α → γ) (hf : Restores f a) : Restores (fun targets => (k (f targets).1, (f targets).2)) (k a) := by
  obtain ⟨used, hf⟩ := hf
  exact ⟨used, fun more => by simp only [hf]⟩

theorem pair (k : α → β → γ) (hf : Restores f a) (hg : Restores g b) :
    Restores (fun targets => (k (f targets).1 (g (f targets).2).1, (g (f targets).2).2)) (k a b) := by
  obtain ⟨used, hf⟩ := hf
  obtain ⟨used', hg⟩ := hg
  refine ⟨used ++ used', fun more => ?_⟩
  simp only [List.append_assoc, hf, hg]

end Restores

/-- The first assignment to a name, which declares it. -/
theorem Stmt.restores_implicit (m : Mark) (name : String) (mark : ExprMark) {value value' : Expr}
    (type : Option ValueType) (hvalue : value'.blur .types = value.blur .types) :
    Restores (Stmt.declare m ⟨name, none, some value', type⟩).restore
      ((Stmt.assign m (.name mark name) value).blur .types) := by
  refine ⟨[mark.toMark], fun more => ?_⟩
  simp only [Stmt.restore, Stmt.blur, Expr.blur, hvalue]
  rfl

namespace Check

theorem during_yields {α : Type} {enter : CheckState → CheckState}
    {leave : CheckState → CheckState → CheckState} {part : Check α} {post : α → Prop}
    (h : Yields part post) : Yields (during enter leave part) post := by
  intro s a s' _ hrun
  obtain ⟨t, hpart, _⟩ := during_ok hrun
  exact h _ a t trivial hpart

/-! ### Heads of functions -/

theorem paramTypes_yields (sources : Sources) (function : String) (params : List Param) :
    Yields (paramTypes sources function params) fun types => types.length = params.length := by
  induction params with
  | nil => exact .pure rfl
  | cons p rest ih =>
    exact .after fun _ => ih.bind fun more hmore => .pure (congrArg Nat.succ hmore)

theorem matchParams_yields (sources : Sources) (function : String) (params : List Param)
    (announced : List ValueType) (hlen : params.length = announced.length) :
    Yields (matchParams sources function params announced) fun types =>
      types.length = params.length := by
  induction params generalizing announced with
  | nil => cases announced <;> exact .pure rfl
  | cons p rest ih =>
    cases announced with
    | nil => cases hlen
    | cons t others =>
      refine .after fun _ => .after fun _ => ?_
      refine (ih others (Nat.succ.inj hlen)).bind fun more hmore => .pure ?_
      exact congrArg Nat.succ hmore

/-- There is a type for each parameter, and a definition that says what it returns is known to return
it. -/
theorem definitionTypes_yields (sources : Sources) (head : FunctionHead) (l : Location) :
    Yields (definitionTypes sources head l) fun r =>
      r.1.length = head.params.length ∧ (head.returns.isSome → r.2.isSome) := by
  refine .after fun scope => ?_
  split
  · refine (paramTypes_yields sources _ _).bind fun types htypes => ?_
    cases head.returns with
    | none => exact .after fun _ => .pure ⟨htypes, fun h => Bool.noConfusion h⟩
    | some t =>
      exact .bind (.bind .any fun returns _ => .pure rfl) fun returns hreturns =>
        .pure ⟨htypes, fun _ => hreturns⟩
  · refine (require_yields _ _ _).bind fun _ hlen => ?_
    refine (matchParams_yields sources _ _ _ (by simpa using hlen)).bind fun types htypes => ?_
    split
    · exact .pure ⟨htypes, fun _ => rfl⟩
    · exact .after fun _ => .after fun _ => .pure ⟨htypes, fun _ => rfl⟩
  · exact fail_yields

/-- The types are all that is new on the parameters. -/
theorem withTypes_types (params : List Param) (types : List ValueType) (hlen : types.length = params.length) :
    (withTypes params types).map (·.blur .types) = params.map (·.blur .types) ∧
      (withTypes params types).map Param.type = types.map some := by
  induction params generalizing types with
  | nil => rw [List.length_eq_zero_iff.mp hlen]; exact ⟨rfl, rfl⟩
  | cons p rest ih =>
    cases types with
    | nil => cases hlen
    | cons t types =>
      have hrest := ih types (Nat.succ.inj hlen)
      simp only [withTypes] at hrest
      simp only [withTypes, List.zipWith_cons_cons, List.map_cons, hrest]
      exact ⟨rfl, trivial⟩

/-- A head with types for its parameters and for itself. -/
theorem blur_types_head (head : FunctionHead) (types : List ValueType) (signature : ValueType)
    (hlen : types.length = head.params.length) :
    ({ head with params := withTypes head.params types, signature := some signature } :
      FunctionHead).blur .types = head.blur .types := by
  simp only [FunctionHead.blur, (withTypes_types head.params types hlen).1]
  rfl

theorem announce_yields (sources : Sources) (head : FunctionHead) (l : Location) :
    Yields (announce sources head l) fun r =>
      r.blur .types = head.blur .types ∧ ∃ returns, r.HasType returns := by
  refine .after fun _ => (paramTypes_yields sources _ _).bind fun types htypes => ?_
  refine .after fun returns => .after fun scope => ?_
  obtain ⟨binding, scope'⟩ := scope.bind head.name (.function types (returns.getD .int))
  have hhead : Yields (do
      modify (·.setScope scope')
      return { head with
        params := withTypes head.params types
        signature := some (.function types (returns.getD .int)) } : Check FunctionHead)
      fun r => r.blur .types = head.blur .types ∧ ∃ returns, r.HasType returns :=
    .after fun _ => .pure ⟨blur_types_head head types _ htypes, _, types, rfl, (withTypes_types _ _ htypes).2⟩
  cases binding with
  | new | repeated => exact hhead
  | conflict =>
    dsimp only
    split <;> exact fail_yields

theorem openDefinition_yields (sources : Sources) (head : FunctionHead) (l : Location) :
    Yields (openDefinition sources head l) fun r =>
      r.1.length = head.params.length ∧ (head.returns.isSome → r.2.isSome) := by
  refine .after fun _ => .after fun _ => .after fun _ => .after fun _ => .after fun _ => ?_
  refine (definitionTypes_yields sources head l).bind fun ⟨types, returns⟩ hdefinition => ?_
  refine .after fun _ => ?_
  cases returns with
  | none => exact .pure hdefinition
  | some returns => exact .after fun _ => .pure hdefinition

/-- The rule for results of a function, given the type it is declared to return and the one inferred at
the end of its body. -/
def resultRule : (returns inferred : Option ValueType) → ResultRule
  | some type, _ => .declared type
  | none, inferred => .inferred (inferred.getD .void)

theorem closeDefinition_yields (head : FunctionHead) (types : List ValueType)
    (returns inferred : Option ValueType) (l : Location) (hlen : types.length = head.params.length) :
    Yields (closeDefinition head types returns inferred l) fun r => r.blur .types = head.blur .types ∧
      r.HasType (resultRule returns inferred).type ∧ r.returns = head.returns := by
  have hblur (signature : ValueType) := blur_types_head head types signature hlen
  have htypes := (withTypes_types _ _ hlen).2
  unfold closeDefinition
  cases returns with
  | none => exact .after fun _ => .pure ⟨hblur _, ⟨types, rfl, htypes⟩, rfl⟩
  | some returns => exact .pure ⟨hblur _, ⟨types, rfl, htypes⟩, rfl⟩

/-! ### Statements -/

/-- A declaration without a written type is refused. -/
theorem variableDeclaration_yields (sources : Sources) (d : VarDecl) (l : Location) :
    Yields (variableDeclaration sources d l) fun d' =>
      d'.blur .types = d.blur .types ∧ d'.declared ≠ none ∧ d'.WellTyped := by
  obtain ⟨name, declared, init, type⟩ := d
  unfold variableDeclaration
  cases declared with
  | none =>
    simp only [pure_bind]
    refine (require_yields _ _ _).bind fun _ h => ?_
    cases h
  | some declared =>
    refine .after fun type => (require_yields _ _ _).bind fun _ hvoid => ?_
    have hvoid : type.isVoid = false := by simpa using hvoid
    cases init with
    | none =>
      simp only [pure_bind]
      exact .after fun _ => .pure ⟨rfl, by simp, type, rfl, hvoid, trivial⟩
    | some e =>
      refine (typed_sound sources e).bind fun r hr => (require_yields _ _ _).bind fun _ hfits => ?_
      simp only [pure_bind]
      refine .after fun _ => .pure ⟨?_, by simp, type, rfl, hvoid, r.2, hr.2, ?_⟩
      · simp only [VarDecl.blur, Option.map_some, hr.1]
        rfl
      · rw [Expr.origin_of_blur hr.1]
        exact hfits

theorem implicitDeclaration_yields (sources : Sources) (m : Mark) (name : String) (mark : ExprMark)
    (value : Expr) (l : Location) :
    Yields (implicitDeclaration sources m name value l) fun s =>
      Restores s.restore ((Stmt.assign m (.name mark name) value).blur .types) ∧ ∀ rule, s.WellTyped rule := by
  refine (typed_sound sources value).bind fun ⟨value', type⟩ hvalue => ?_
  refine (require_yields _ _ _).bind fun _ hkind => .after fun _ => .pure ⟨?_, fun rule => ?_⟩
  · exact Stmt.restores_implicit m name mark (some type) hvalue.1
  · simp only [Bool.not_eq_true', Bool.or_eq_false_iff] at hkind
    obtain ⟨⟨hnull, hvoid⟩, hvararg⟩ := hkind
    exact ⟨type, rfl, hvoid, hvalue.2, hnull, hvararg⟩

theorem restores_assign (m : Mark) {target target' value value' : Expr}
    (ht : target'.blur .types = target.blur .types) (hv : value'.blur .types = value.blur .types) :
    Restores (Stmt.assign m target' value').restore ((Stmt.assign m target value).blur .types) := by
  rw [Stmt.blur, ← ht, ← hv]
  exact .here _

section

variable (sources : Sources)
include sources

theorem assignment_yields (m : Mark) (target value : Expr) : Yields (assignment sources m target value) fun s =>
      Restores s.restore ((Stmt.assign m target value).blur .types) ∧ ∀ rule, s.WellTyped rule := by
  unfold assignment
  split
  · rename_i mark name
    refine .after fun found => ?_
    cases found with
    | none => exact implicitDeclaration_yields sources m name mark value _
    | some type =>
      refine (require_yields _ _ _).bind fun _ hfixed => ?_
      refine (typed_sound sources value).bind fun v hv => ?_
      refine (require_yields _ _ _).bind fun _ hmatches => .pure ⟨?_, fun rule => ?_⟩
      · exact restores_assign m (Expr.blur_types_typed _ _) hv.1
      · exact ⟨type, v.2, .name, hv.2, by simpa using hfixed, hmatches⟩
  · rename_i hname
    refine (typed_sound sources target).bind fun t ht => (require_yields _ _ _).bind fun _ hfixed => ?_
    refine (typed_sound sources value).bind fun v hv => ?_
    refine (require_yields _ _ _).bind fun _ hfits => .pure ⟨restores_assign m ht.1 hv.1, fun rule => ?_⟩
    refine ⟨t.2, v.2, ht.2, hv.2, by simpa using hfixed, ?_⟩
    rw [Expr.mayBecome_of_notName (Expr.notName_of_types hname ht.1), Expr.origin_of_blur hv.1]
    exact hfits

theorem result_yields (value : Option Expr) (l : Location) :
    Yields (result sources value l) fun r => r.map (·.blur .types) = value.map (·.blur .types) := by
  have hrest (function : FunctionContext) (value' : Option Expr) (found : ValueType)
      (origin : ValueOrigin) (h : value'.map (·.blur .types) = value.map (·.blur .types)) :
      Yields (matchResult function value' found origin l) fun r =>
        r.map (·.blur .types) = value.map (·.blur .types) := by
    unfold matchResult
    cases function.returns with
    | some expected => exact .after fun _ => .pure h
    | none => exact .after fun _ => .pure h
  unfold result
  refine .after fun s => ?_
  cases s.function with
  | none => exact fail_yields
  | some function =>
    cases value with
    | none => exact hrest function none _ _ rfl
    | some e =>
      refine (typed_yields sources e).bind fun typed he => ?_
      exact hrest function (some typed.1) typed.2 e.origin (congrArg some he)

theorem condition_yields (e : Expr) (context : String) :
    Yields (condition sources e context) fun r => r.blur .types = e.blur .types :=
  (typed_yields sources e).bind fun _ he => .after fun _ => .pure he

theorem caseLabels_yields (subject : ValueType) (first : Option ValueType)
    (values : List Expr) :
    Yields (caseLabels sources subject first values) fun r =>
      Expr.blurList .types r = Expr.blurList .types values := by
  induction values generalizing first with
  | nil => exact .pure rfl
  | cons e rest ih =>
    refine (typed_yields sources e).bind fun ⟨label, type⟩ he => ?_
    have hrest : Yields (do
        let more ← caseLabels sources subject (some (first.getD type)) rest
        return label :: more) fun r =>
          Expr.blurList .types r = Expr.blurList .types (e :: rest) :=
      (ih _).bind fun more hmore => .pure (by simp only [Expr.blurList, he, hmore])
    cases first with
    | none => exact .after fun _ => hrest
    | some expected => exact .after fun _ => hrest

theorem define_yields (name : String) (value : Option Expr) (l : Location) :
    Yields (define sources name value l) fun r =>
      r.map (·.blur .types) = value.map (·.blur .types) ∧ ∀ e ∈ r, e.WellTyped := by
  unfold define
  cases value with
  | none => exact .after fun _ => .pure ⟨rfl, fun _ he => absurd he (Option.not_mem_none _)⟩
  | some e =>
    refine (typed_sound sources e).bind fun r hr => .after fun _ => .after fun _ => .pure ⟨?_, ?_⟩
    · exact congrArg some hr.1
    · rintro _ ⟨⟩
      exact ⟨r.2, hr.2⟩

end

mutual

theorem statement_yields (sources : Sources) : (s : Stmt) →
    Yields (statement sources s) fun s' => Restores s'.restore (s.blur .types)
  | .expr m e => by
    refine (typed_yields sources e).bind fun ⟨e', _⟩ he => .pure ?_
    rw [Stmt.blur, ← he]
    exact .here _
  | .declare m d => by
    refine (variableDeclaration_yields sources d _).bind fun d' hd => .pure ?_
    rw [Stmt.blur, ← hd.1]
    obtain ⟨name, declared, init, type⟩ := d'
    cases declared with
    | none => exact absurd rfl hd.2.1
    | some declared => exact .here _
  | .assign m target value =>
    fun s r s' hs h => (assignment_yields sources m target value s r s' hs h).1
  | .announce m head => by
    refine (announce_yields sources head _).bind fun head' hhead => .pure ?_
    rw [Stmt.blur, ← hhead.1]
    exact .here _
  | .function m head body => by
    refine (openDefinition_yields sources head _).bind fun ⟨types, returns⟩ hopened => ?_
    have hpart : Yields (do
        modifyScope (bindParams head.params types)
        let body ← statements sources body
        return (body, (← get).function.bind (·.inferred))) fun r =>
          Restores (Stmt.restoreList r.1) (Stmt.blurList .types body) :=
      .after fun _ => (statements_yields sources body).bind fun _ hbody => .after fun _ => .pure hbody
    refine (during_yields hpart).bind fun ⟨body', inferred⟩ hbody => ?_
    refine (closeDefinition_yields head types returns inferred _ hopened.1).bind fun head' hhead => ?_
    refine .pure ?_
    rw [Stmt.blur, ← hhead.1]
    exact hbody.map _
  | .result m value => by
    refine (result_yields sources value _).bind fun value' hvalue => .pure ?_
    rw [Stmt.blur, ← hvalue]
    exact .here _
  | .ifElse m c body orelse => by
    refine (condition_yields sources c _).bind fun c' hc => ?_
    refine (during_yields (statements_yields sources body)).bind fun body' hbody => ?_
    refine (during_yields (statements_yields sources orelse)).bind fun orelse' horelse => .pure ?_
    rw [Stmt.blur, ← hc]
    exact hbody.pair _ horelse
  | .whileLoop m c body orelse => by
    refine (condition_yields sources c _).bind fun c' hc => ?_
    refine (during_yields (during_yields (statements_yields sources body))).bind fun body' hbody => ?_
    refine (during_yields (statements_yields sources orelse)).bind fun orelse' horelse => .pure ?_
    rw [Stmt.blur, ← hc]
    exact hbody.pair _ horelse
  | .doLoop m body c => by
    refine (during_yields (during_yields (statements_yields sources body))).bind fun body' hbody => ?_
    refine (condition_yields sources c _).bind fun c' hc => .pure ?_
    rw [Stmt.blur, ← hc]
    exact hbody.map fun body => Stmt.doLoop m body (c'.blur .types)
  | .switch m subject cases default => by
    refine (typed_yields sources subject).bind fun ⟨subject', type⟩ hsubject => .after fun _ => ?_
    refine (switchCases_yields sources type cases).bind fun cases' hcases => ?_
    refine (defaultCase_yields sources default).bind fun default' hdefault => .pure ?_
    rw [Stmt.blur, ← hsubject]
    exact hcases.pair _ hdefault
  | .leave m => .after fun _ => .after fun _ => .pure (.here _)
  | .pass m => .pure (.here _)
  | .struct m name fields => .after fun _ => .pure (.here _)
  | .enum m name members => .after fun _ => .pure (.here _)
  | .typedef m target name => .after fun _ => .pure (.here _)
  | .define m name value => by
    refine (define_yields sources name value _).bind fun value' hvalue => .pure ?_
    rw [Stmt.blur, ← hvalue.1]
    exact .here _
  | .includeFile m path => .after fun _ => .after fun _ => .after fun _ => .pure (.here _)
  | .ifndef m name => .pure (.here _)
  | .endif m => .pure (.here _)

theorem statements_yields (sources : Sources) : (ss : List Stmt) →
    Yields (statements sources ss) fun ss' => Restores (Stmt.restoreList ss') (Stmt.blurList .types ss)
  | [] => .pure (.here _)
  | s :: rest =>
    (statement_yields sources s).bind fun _ hs =>
      (statements_yields sources rest).bind fun _ hrest => .pure (hs.pair List.cons hrest)

theorem switchCases_yields (sources : Sources) (subject : ValueType) : (cs : List SwitchCase) →
    Yields (switchCases sources subject cs) fun cs' =>
      Restores (SwitchCase.restoreList cs') (SwitchCase.blurList .types cs)
  | [] => .pure (.here _)
  | c :: rest =>
    (switchCase_yields sources subject c).bind fun _ hc =>
      (switchCases_yields sources subject rest).bind fun _ hrest => .pure (hc.pair List.cons hrest)

theorem switchCase_yields (sources : Sources) (subject : ValueType) : (c : SwitchCase) →
    Yields (switchCase sources subject c) fun c' => Restores c'.restore (c.blur .types)
  | .mk span values body => by
    refine (caseLabels_yields sources subject none values).bind fun values' hvalues => ?_
    refine (during_yields (during_yields (statements_yields sources body))).bind fun body' hbody => ?_
    refine .pure ?_
    rw [SwitchCase.blur, ← hvalues]
    exact hbody.map _

theorem defaultCase_yields (sources : Sources) : (d : Option (List Stmt)) →
    Yields (defaultCase sources d) fun d' => Restores (Stmt.restoreBlock d') (Stmt.blurBlock .types d)
  | none => .pure (.here _)
  | some body =>
    (during_yields (during_yields (statements_yields sources body))).bind fun _ hbody =>
      .pure (hbody.map some)

end

end Check

/-! ### Whole programs -/

/-- A file as a tree that a check has only added types to. -/
def Restorable (config : Config) (path : Path) (checked : Module) : Prop :=
  ∃ text m targets, config.files.textAt path = .ok text ∧ Module.ofText path.text text = .ok m ∧
    checked.restore targets = (m, [])

namespace Check

theorem statements_restorable {sources : Sources} {file text : String} {m : Module}
    {s s' : CheckState} {body : List Stmt} (hm : Module.ofText file text = .ok m)
    (h : (statements sources m.body).run s = .ok body s') :
    ∃ targets, Module.restore ⟨m.file, body⟩ targets = (m, []) := by
  obtain ⟨targets, hrestore⟩ := statements_yields sources m.body s body s' trivial h
  refine ⟨targets, ?_⟩
  have hbody := hrestore []
  rw [List.append_nil, Stmt.blurList_types m.body (Module.ofText_wellFormed hm)] at hbody
  simp only [Module.restore, hbody]

/-- New files are restorable. -/
theorem restorable_tolerates (config : Config) :
    Tolerates (fun s s' => ∀ u ∈ s'.units, u ∈ s.units ∨ Restorable config u.1 u.2) config where
  refl _ _ hu := .inl hu
  trans h h' u hu := (h' u hu).elim (h u) .inr
  add _ _ hu := .inl hu
  constants _ _ _ hu := .inl hu
  struct name fields l h := h.struct (fun _ _ _ _ hu => .inl hu) name fields l (fun _ _ => .any) trivial
  infer _ _ _ hu := .inl hu
  block h := h
  breakable h := h
  body _ _ h := h
  header h := h
  headerRead _ _ _ _ h := h
  visit _ _ hu := .inl hu
  file _ h := h
  unit := by
    intro sources s s' path text m body _ htext hm hrun h u hu
    rcases mem_insertUnit hu with rfl | hu
    · obtain ⟨targets, hrestore⟩ := statements_restorable hm hrun
      exact .inr ⟨text, m, targets, htext, hm, hrestore⟩
    · exact h u hu

end Check

theorem CheckedUnit.ofText_ok {config : Config} {file text : String} {u : CheckedUnit}
    (h : CheckedUnit.ofText config file text = .ok u) :
    ∃ m, Module.ofText file text = .ok m ∧ CheckedUnit.ofModule config m none = .ok u := by
  unfold CheckedUnit.ofText at h
  cases hm : Module.ofText file text with
  | error failure =>
    rw [hm] at h
    cases h
  | ok m =>
    rw [hm] at h
    exact ⟨m, rfl, h⟩

/-- **A check only decorates.** Without the types it has found, and with each declaration that has no
written type turned back into an assignment, a checked program is the program that was read, down to the
number and place of every node; so is every file it includes. -/
theorem checked_restores (config : Config) (file text : String) (m : Module) (path : Option Path)
    (u : CheckedUnit) (hm : Module.ofText file text = .ok m)
    (h : CheckedUnit.ofModule config m path = .ok u) :
    (∃ targets, u.module.restore targets = (m, [])) ∧
    ∀ p checked, (p, checked) ∈ u.units → ∃ text m targets,
      config.files.textAt p = .ok text ∧ Module.ofText p.text text = .ok m ∧ checked.restore targets = (m, []) := by
  unfold CheckedUnit.ofModule at h
  split at h
  · rename_i body s hrun
    cases h
    refine ⟨Check.statements_restorable hm hrun, fun p checked hp => ?_⟩
    have hunits := (Check.restorable_tolerates config).program m.body (CheckedUnit.startState path)
    rw [stateAfter_ok hrun] at hunits
    rcases hunits _ hp with hstart | hrestorable
    · cases path <;> cases hstart
    · exact hrestorable
  · cases h

/-- A program with an include, a declaration by assignment and an assignment. -/
theorem checked_restores_include :
    let config : Config :=
      { includeDirs := ["/lib"], files := ⟨[(["lib", "n.cu"], .file "n = 7\n".toUTF8)], []⟩ }
    ∃ m u, Module.ofText "main.cu" "include \"n.cu\"\nx = n + 1\nx = 2\n" = .ok m ∧
      CheckedUnit.ofModule config m none = .ok u ∧ u.units.length = 1 ∧
      (∃ targets, u.module.restore targets = (m, [])) ∧
      ∀ p checked, (p, checked) ∈ u.units → ∃ text m targets,
        config.files.textAt p = .ok text ∧ Module.ofText p.text text = .ok m ∧
          checked.restore targets = (m, []) := by
  intro config
  have hone : (match CheckedUnit.ofText config "main.cu" "include \"n.cu\"\nx = n + 1\nx = 2\n" with
      | .ok u => u.units.length == 1
      | .error _ => false) = true := by decide +kernel
  split at hone
  · rename_i u hu
    obtain ⟨m, hm, hu⟩ := CheckedUnit.ofText_ok hu
    exact ⟨m, u, hm, hu, by simpa using hone, checked_restores config _ _ m none u hm hu⟩
  · cases hone

end Offside
