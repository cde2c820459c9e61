import Offside.Check.Unit
import Offside.Proofs.Grammar.Files

/-! What a check does to its state.

Checking an expression changes the state by reading headers only, and checking a statement by a few
kinds of steps besides: one addition to the current scope (`Scope.Addition`), and parts that are done in
a changed state and put it back. So what is shown of these steps holds of every check, also of one that
fails. A `Course` says how checks may end; `LoadsAt` lists what has to be shown of it for expressions, and
the modules after this one do so for declarations, for statements and for programs. What is reported stands
at the beginning of something in the tree, so of failures it has to be shown for places that are known only;
where they do not matter, all are (`Loads` and so on). -/
namespace Offside

variable {s' : CheckState} {failure : Failure} {l : Location}

/-- Whether a failure is about the nesting of includes: files that include each other, or more of them
than the bound on their depth. -/
def Failure.nests : Failure → Bool
  | exhausted | semantic (.includeCycle _) _ => true
  | _ => false

/-- Whether a failure is about a statement that is not allowed where it stands. -/
def Failure.misplaces : Failure → Bool
  | semantic (.misplaced _) _ => true
  | _ => false

/-- Whether a failure is about neither. -/
def Failure.isCommon (failure : Failure) : Bool := !failure.nests && !failure.misplaces

theorem Failure.isCommon_of_ofText (h : failure.ofText) :
    failure.isCommon := by
  cases failure <;> first | rfl | cases h

theorem Failure.nests_of_isCommon (h : failure.isCommon) : failure.nests = false := by
  simp only [isCommon, Bool.and_eq_true, Bool.not_eq_true'] at h
  exact h.1

theorem Failure.misplaces_of_isCommon (h : failure.isCommon) : failure.misplaces = false := by
  simp only [isCommon, Bool.and_eq_true, Bool.not_eq_true'] at h
  exact h.2

theorem Failure.nests_of_ofText (h : failure.ofText) : failure.nests = false :=
  Failure.nests_of_isCommon (Failure.isCommon_of_ofText h)

/-- The failure names a place that `At` knows, or is the one about a bound. -/
def Failure.PointsTo (At : Location → Prop) (failure : Failure) : Prop :=
  failure = .exhausted ∨ ∃ l, failure.location? = some l ∧ At l

/-! ### Trees at any place -/

mutual

theorem Expr.Anchored.any : {e : Expr} → e.Anchored fun _ => True
  | .int .. | .float .. | .char .. | .string .. | .null _ | .name .. => trivial
  | .array .. | .unary .. | .member .. | .sizeof .. => ⟨trivial, .any⟩
  | .binary .. | .index .. | .call .. | .cast .. => ⟨trivial, .any, .any⟩

theorem Expr.AnchoredList.any : {es : List Expr} → Expr.AnchoredList (fun _ => True) es
  | [] => trivial
  | _ :: _ => ⟨.any, .any⟩

theorem TypeExpr.Anchored.any : {t : TypeExpr} → t.Anchored fun _ => True
  | .name .. | .vararg _ => trivial
  | .pointer .. => ⟨trivial, .any⟩
  | .array .. | .function .. => ⟨trivial, .any, .any⟩

theorem TypeExpr.AnchoredList.any : {ts : List TypeExpr} → TypeExpr.AnchoredList (fun _ => True) ts
  | [] => trivial
  | _ :: _ => ⟨.any, .any⟩

end

theorem VarDecl.Anchored.any {d : VarDecl} : d.Anchored fun _ => True := ⟨fun _ _ => .any, fun _ _ => .any⟩

theorem Field.Anchored.any {f : Field} : f.Anchored fun _ => True := ⟨trivial, .any⟩

theorem Param.Anchored.any {p : Param} : p.Anchored fun _ => True := ⟨trivial, fun _ _ => .any⟩

theorem FunctionHead.Anchored.any {f : FunctionHead} : f.Anchored fun _ => True := ⟨fun _ _ => .any, fun _ _ => .any⟩

mutual

theorem Stmt.Anchored.any : {s : Stmt} → s.Anchored fun _ => True
  | .expr .. | .declare .. | .announce .. | .typedef .. => ⟨trivial, .any⟩
  | .assign .. | .function .. | .doLoop .. => ⟨trivial, .any, .any⟩
  | .result .. | .define .. | .struct .. => ⟨trivial, fun _ _ => .any⟩
  | .ifElse .. | .whileLoop .. | .switch .. => ⟨trivial, .any, .any, .any⟩
  | .leave _ | .pass _ | .enum .. | .includeFile .. | .ifndef .. | .endif _ => trivial

theorem Stmt.AnchoredList.any : {body : List Stmt} → Stmt.AnchoredList (fun _ => True) body
  | [] => trivial
  | _ :: _ => ⟨.any, .any⟩

theorem Stmt.AnchoredBlock.any : {d : Option (List Stmt)} → Stmt.AnchoredBlock (fun _ => True) d
  | none => trivial
  | some _ => Stmt.AnchoredList.any

theorem SwitchCase.Anchored.any : {c : SwitchCase} → c.Anchored fun _ => True
  | .mk .. => ⟨.any, .any⟩

theorem SwitchCase.AnchoredList.any : {cases : List SwitchCase} → SwitchCase.AnchoredList (fun _ => True) cases
  | [] => trivial
  | _ :: _ => ⟨.any, .any⟩

end

/-- How a check may end: the state it begins in, its failure if there is one, and the state it ends in. -/
abbrev Course := CheckState → Option Failure → CheckState → Prop

namespace Check

variable {α β : Type} {At : Location → Prop} {T : Course} {R : CheckState → CheckState → Prop}
    {sources : Sources} {s : CheckState}

theorem require_ok {kept : Bool} {fault : SemanticFault} {a : Unit}
    (h : (require kept fault l).run s = .ok a s') : kept ∧ s' = s := by
  cases kept <;> cases h
  exact ⟨rfl, rfl⟩

/-- A course that sequences take, and failures at places that `At` knows. -/
structure ChainsAt (At : Location → Prop) (T : Course) : Prop where
  refl (s : CheckState) : T s none s
  trans {s t u : CheckState} {failure : Option Failure} : T s none t → T t failure u → T s failure u
  fail {failure : Failure} (s : CheckState) : failure.isCommon = true → failure.PointsTo At → T s (some failure) s

abbrev Chains : Course → Prop := ChainsAt fun _ => True

namespace ChainsAt

/-- An order on states is one. -/
theorem ofOrder (refl : ∀ s, R s s) (trans : ∀ {s t u}, R s t → R t u → R s u) : Chains (Always R) :=
  ⟨refl, trans, fun s _ _ => refl s⟩

variable (hT : ChainsAt At T)
include hT

/-- One part after another, from a given state. -/
theorem seq {p : Check α} {f : α → Check β} (hp : EndsFrom T p s)
    (hf : ∀ a s', p.run s = .ok a s' → EndsFrom T (f a) s') : EndsFrom T (p >>= f) s := by
  apply endsFrom_of_run
  · intro b s' hrun
    obtain ⟨a, t, ha, hb⟩ := run_bind_ok.mp hrun
    exact hT.trans (hp.ok ha) ((hf a t ha).ok hb)
  · intro failure s' hrun
    obtain hrun | ⟨a, t, ha, hb⟩ := run_bind_error hrun
    · exact hp.error hrun
    · exact hT.trans (hp.ok ha) ((hf a t ha).error hb)

theorem bind {p : Check α} {f : α → Check β} (hp : Ends T p) (hf : ∀ a, Ends T (f a)) : Ends T (p >>= f) :=
  fun s => hT.seq (hp s) fun a s' _ => hf a s'

theorem pure (a : α) : Ends T (Pure.pure a : Check α) := hT.refl

theorem failWith (fault : SemanticFault) (l : Location) (h : (Failure.semantic fault l).isCommon)
    (hl : At l) : Ends T (Check.fail fault l : Check α) :=
  fun s => hT.fail s h (.inr ⟨l, rfl, hl⟩)

theorem get : Ends T (MonadState.get : Check CheckState) := hT.refl

theorem scope : Ends T Check.scope := hT.refl

/-- A rule that may be broken in a given state. -/
theorem requireFrom {kept : Bool} {fault : SemanticFault}
    (h : kept = false → T s (some (.semantic fault l)) s) : EndsFrom T (Check.require kept fault l) s := by
  cases kept with
  | true => exact hT.refl s
  | false => exact h rfl

theorem require (kept : Bool) (fault : SemanticFault) (l : Location)
    (h : (Failure.semantic fault l).isCommon) (hl : At l) : Ends T (Check.require kept fault l) :=
  fun s => hT.requireFrom fun _ => hT.fail s h (.inr ⟨l, rfl, hl⟩)

theorem parsed (file text : String) (htext : ∀ l : Location, l.InText file text → At l) :
    Ends T (Check.parsed file text) := by
  intro s
  unfold Check.parsed
  cases h : Module.ofText file text with
  | ok m => exact hT.refl s
  | error failure =>
    obtain ⟨hkind, l, hl, hin⟩ := Module.ofText_error_inText h
    exact hT.fail s (Failure.isCommon_of_ofText hkind) (.inr ⟨l, hl, htext l hin⟩)

theorem checkParams (function : String) (seen : List String) (params : List Param)
    (h : ∀ p ∈ params, p.Anchored At) : Ends T (Check.checkParams function seen params) := by
  induction params generalizing seen with
  | nil => exact hT.pure _
  | cons p rest ih =>
    obtain ⟨hp, hrest⟩ := List.forall_mem_cons.mp h
    unfold Check.checkParams
    split
    · exact hT.bind (hT.require _ _ _ rfl hp.here) fun _ => ih _ hrest
    · exact hT.bind (hT.require _ _ _ rfl hp.here) fun _ => hT.require _ _ _ rfl hp.here

end ChainsAt

/-! ### Expressions -/

/-- A course that reading a header takes. -/
structure LoadsAt (At : Location → Prop) (T : Course) (sources : Sources) : Prop
    extends toChains : ChainsAt At T where
  load {header : Header} : header ∈ sources.headers → Ends T (sources.load header)

abbrev Loads : Course → Sources → Prop := LoadsAt fun _ => True

/-- A tree begins where it did before it was checked. -/
theorem typed_start (sources : Sources) : (e : Expr) → Yields (typed sources e) fun r => r.1.start = e.start
  | .int _ _ | .float _ _ | .char _ _ | .string _ _ | .null _ => .pure rfl
  | .name _ _ => .after fun found => by
    cases found with
    | some type => exact .pure rfl
    | none => exact .throw
  | .array _ _ => .after fun r => by
    obtain ⟨items, element⟩ := r
    cases element with
    | some element => exact .pure rfl
    | none => exact .throw
  | .binary _ _ _ _ => .after fun _ => .after fun _ => .after fun _ => .pure rfl
  | .unary _ _ _ | .member _ _ _ _ | .sizeof _ _ => .after fun _ => .after fun _ => .pure rfl
  | .call _ _ _ => .after fun r => by
    obtain ⟨callee, type⟩ := r
    dsimp only
    cases type.callable? with
    | none => exact .throw
    | some signature => exact .after fun _ => .after fun _ => .pure rfl
  | .index _ _ _ => .after fun r => .after fun _ => by
    obtain ⟨object, type⟩ := r
    dsimp only
    cases type.target? with
    | none => exact .throw
    | some element => exact .after fun _ => .pure rfl
  | .cast _ _ _ => .after fun _ => .after fun _ => .after fun _ => .pure rfl

namespace LoadsAt

variable (hT : LoadsAt At T sources)
include hT

/-- What follows an expression may name its beginning. -/
theorem from_typed {e : Expr} {f : Expr × ValueType → Check β} (he : e.Anchored At)
    (h : Ends T (Check.typed sources e)) (hf : ∀ e' type, At e'.start → Ends T (f (e', type))) :
    Ends T (Check.typed sources e >>= f) := by
  intro s
  refine hT.seq (h s) fun r s' hrun => hf r.1 r.2 ?_ s'
  rw [typed_start sources e s r s' trivial hrun]
  exact he.start

theorem lookup (name : String) : Ends T (Check.lookup sources name) := by
  refine hT.bind hT.scope fun scope => ?_
  cases scope.lookup name with
  | some type => exact hT.pure _
  | none =>
    dsimp only
    cases hfound : Header.ofVariable? sources.headers name with
    | some header =>
      have hmem := List.mem_of_find?_eq_some hfound
      exact hT.bind (hT.load hmem) fun _ => hT.bind hT.scope fun _ => hT.pure _
    | none => exact hT.pure _

theorem needType (name : String) : Ends T (Check.needType sources name) := by
  refine hT.bind hT.scope fun scope => ?_
  split
  · split
    · rename_i hfound
      exact hT.load (List.mem_of_find?_eq_some hfound)
    · exact hT.pure _
  · exact hT.pure _

theorem resolveName (name : String) (l : Location) (behindPointer : Bool) (h : At l) :
    Ends T (Check.resolveName sources name l behindPointer) := by
  refine hT.bind (hT.needType name) fun _ => hT.bind hT.scope fun scope => ?_
  dsimp only
  split
  · split
    · exact hT.pure _
    · exact hT.failWith _ _ rfl h
  · split
    · exact hT.pure _
    · exact hT.failWith _ _ rfl h

theorem arraySize (size : Expr) (h : size.Anchored At) : Ends T (Check.arraySize size) := by
  refine hT.bind hT.scope fun scope => ?_
  split
  · split
    · exact hT.failWith _ _ rfl h.start
    · exact hT.pure _
  · exact hT.pure _

mutual

theorem resolveWith (behindPointer : Bool) : (t : TypeExpr) → (h : t.Anchored At) →
    Ends T (Check.resolveWith sources behindPointer t)
  | .name span name, h => hT.resolveName name span.start behindPointer h
  | .pointer _ target, h => hT.bind (resolveWith true target h.2) fun _ => hT.pure _
  | .array _ element size, h =>
    hT.bind (resolveWith behindPointer element h.2.1) fun _ => hT.bind (hT.require _ _ _ rfl h.1) fun _ =>
      hT.bind (hT.arraySize size h.2.2) fun _ => hT.pure _
  | .function _ params returns, h =>
    hT.bind (resolveEach params h.2.1) fun _ => hT.bind (resolveWith false returns h.2.2) fun _ => hT.pure _
  | .vararg _, _ => hT.pure _

theorem resolveEach : (ts : List TypeExpr) → (h : TypeExpr.AnchoredList At ts) → Ends T (Check.resolveEach sources ts)
  | [], _ => hT.pure _
  | t :: rest, h =>
    hT.bind (resolveWith false t h.1) fun _ => hT.bind (resolveEach rest h.2) fun _ => hT.pure _

end

theorem resolve (t : TypeExpr) (h : t.Anchored At) : Ends T (Check.resolve sources t) := hT.resolveWith false t h

theorem resolveOption (t : Option TypeExpr) (h : ∀ type ∈ t, type.Anchored At) :
    Ends T (Check.resolveOption sources t) := by
  cases t with
  | none => exact hT.pure _
  | some t => exact hT.bind (hT.resolve t (h t rfl)) fun _ => hT.pure _

theorem completeStruct (t : ValueType) (l : Location) (h : At l) : Ends T (Check.completeStruct t l) := by
  unfold Check.completeStruct
  split
  · refine hT.bind hT.scope fun scope => ?_
    dsimp only
    split
    · split
      · exact hT.pure _
      · exact hT.failWith _ _ rfl h
    · exact hT.failWith _ _ rfl h
  · exact hT.pure _

theorem sizeType : Ends T (Check.sizeType sources) := by
  refine hT.bind (hT.needType _) fun _ => hT.bind hT.scope fun scope => ?_
  split
  · exact hT.pure _
  · exact hT.pure _

theorem binary (op : BinaryOp) (left right : ValueType) (l : Location) (h : At l) :
    Ends T (Check.binary op left right l) := by
  unfold Check.binary
  split
  · exact hT.pure _
  · exact hT.failWith _ _ rfl h
  · exact hT.failWith _ _ rfl h

theorem unary (op : UnaryOp) (place : Bool) (operand : ValueType) (l : Location) (h : At l) :
    Ends T (Check.unary op place operand l) := by
  unfold Check.unary
  split
  · exact hT.pure _
  · exact hT.failWith _ _ rfl h
  · exact hT.failWith _ _ rfl h

theorem memberType (object : ValueType) (member : String) (arrow : Bool) (l : Location)
    (h : At l) : Ends T (Check.memberType object member arrow l) := by
  unfold Check.memberType
  dsimp only
  split
  · refine hT.bind (hT.completeStruct _ l h) fun struct => ?_
    split
    · exact hT.pure _
    · exact hT.failWith _ _ rfl h
  · exact hT.failWith _ _ rfl h

mutual

theorem typed : (e : Expr) → (h : e.Anchored At) → Ends T (Check.typed sources e)
  | .int _ _, _ | .float _ _, _ | .char _ _, _ | .string _ _, _ | .null _, _ => hT.pure _
  | .name _ name, h => by
    refine hT.bind (hT.lookup name) fun found => ?_
    split
    · exact hT.pure _
    · exact hT.failWith _ _ rfl h
  | .array _ items, h => by
    refine hT.bind (arrayItems none items h.2) fun r => ?_
    obtain ⟨items', element⟩ := r
    cases element with
    | some element => exact hT.pure _
    | none => exact hT.failWith _ _ rfl h.1
  | .binary _ op left right, h =>
    hT.bind (typed left h.2.1) fun l => hT.bind (typed right h.2.2) fun r =>
      hT.bind (hT.binary op l.2 r.2 _ h.1) fun _ => hT.pure _
  | .unary _ op operand, h =>
    hT.bind (typed operand h.2) fun e => hT.bind (hT.unary op e.1.isPlace e.2 _ h.1) fun _ => hT.pure _
  | .call _ callee arguments, h => by
    refine hT.bind (typed callee h.2.1) fun ⟨callee', type⟩ => ?_
    dsimp only
    split
    · exact hT.failWith _ _ rfl h.1
    · exact hT.bind (hT.require _ _ _ rfl h.1) fun _ => hT.bind (callArguments _ _ _ arguments h.2.2) fun _ =>
        hT.pure _
  | .index _ object position, h => by
    refine hT.bind (typed object h.2.1) fun ⟨o, type⟩ => ?_
    refine hT.from_typed h.2.2 (typed position h.2.2) fun _ _ hposition => ?_
    dsimp only
    split
    · exact hT.failWith _ _ rfl h.1
    · exact hT.bind (hT.require _ _ _ rfl hposition) fun _ => hT.pure _
  | .member _ object member arrow, h =>
    hT.bind (typed object h.2) fun o => hT.bind (hT.memberType o.2 member arrow _ h.1) fun _ => hT.pure _
  | .cast _ target operand, h =>
    hT.bind (hT.resolve target h.2.1) fun _ => hT.bind (typed operand h.2.2) fun _ =>
      hT.bind (hT.require _ _ _ rfl h.1) fun _ => hT.pure _
  | .sizeof _ target, h =>
    hT.bind (hT.resolve target h.2) fun _ => hT.bind hT.sizeType fun _ => hT.pure _

theorem arrayItems (element : Option ValueType) : (es : List Expr) →
    (h : Expr.AnchoredList At es) → Ends T (Check.arrayItems sources element es)
  | [], _ => hT.pure _
  | e :: rest, h => by
    refine hT.from_typed h.1 (typed e h.1) fun item type hitem => ?_
    cases element with
    | none => exact hT.bind (arrayItems (some type) rest h.2) fun _ => hT.pure _
    | some expected =>
      exact hT.bind (hT.require _ _ _ rfl hitem) fun _ =>
        hT.bind (arrayItems (some expected) rest h.2) fun _ => hT.pure _

theorem callArguments (callee : String) (number : Nat) (params : List ValueType) : (es : List Expr) →
    (h : Expr.AnchoredList At es) → Ends T (Check.callArguments sources callee number params es)
  | [], _ => hT.pure _
  | e :: rest, h => by
    refine hT.from_typed h.1 (typed e h.1) fun argument type hargument => ?_
    cases params <;> exact hT.bind (hT.require _ _ _ rfl hargument) fun _ =>
        hT.bind (callArguments callee _ _ rest h.2) fun _ => hT.pure _

end

theorem typed_then {e : Expr} {f : Expr × ValueType → Check β} (he : e.Anchored At)
    (hf : ∀ e' type, At e'.start → Ends T (f (e', type))) : Ends T (Check.typed sources e >>= f) :=
  hT.from_typed he (hT.typed e he) hf

/-! ### Heads of functions -/

theorem paramType (function : String) (announced : Option ValueType) (p : Param)
    (h : p.Anchored At) : Ends T (Check.paramType sources function announced p) := by
  unfold Check.paramType
  split
  · exact hT.pure _
  · rename_i hkind
    refine hT.resolve _ (h.declared _ ?_)
    rw [Param.declared?, hkind]
    rfl
  · split
    · exact hT.pure _
    · exact hT.failWith _ _ rfl h.here

theorem paramTypes (function : String) (params : List Param) (h : ∀ p ∈ params, p.Anchored At) :
    Ends T (Check.paramTypes sources function params) := by
  induction params with
  | nil => exact hT.pure _
  | cons p rest ih =>
    obtain ⟨hp, hrest⟩ := List.forall_mem_cons.mp h
    exact hT.bind (hT.paramType function none p hp) fun _ => hT.bind (ih hrest) fun _ => hT.pure _

theorem matchParams (function : String) (params : List Param) (announced : List ValueType)
    (h : ∀ p ∈ params, p.Anchored At) :
    Ends T (Check.matchParams sources function params announced) := by
  induction params generalizing announced with
  | nil => exact hT.pure _
  | cons p rest ih =>
    obtain ⟨hp, hrest⟩ := List.forall_mem_cons.mp h
    cases announced with
    | nil => exact hT.pure _
    | cons t others =>
      exact hT.bind (hT.paramType function _ p hp) fun _ => hT.bind (hT.require _ _ _ rfl hp.here) fun _ =>
        hT.bind (ih others hrest) fun _ => hT.pure _

theorem definitionTypes (head : FunctionHead) (l : Location) (hhead : head.Anchored At)
    (h : At l) : Ends T (Check.definitionTypes sources head l) := by
  refine hT.bind hT.scope fun scope => ?_
  split
  · exact hT.bind (hT.paramTypes _ _ hhead.params) fun _ =>
      hT.bind (hT.resolveOption _ hhead.returns) fun _ => hT.pure _
  · refine hT.bind (hT.require _ _ _ rfl h) fun _ => hT.bind (hT.matchParams _ _ _ hhead.params) fun _ => ?_
    split
    · exact hT.pure _
    · rename_i declared hdeclared
      have hreturns := hhead.returns declared hdeclared
      exact hT.bind (hT.resolve _ hreturns) fun _ => hT.bind (hT.require _ _ _ rfl hreturns.start) fun _ =>
        hT.pure _
  · exact hT.failWith _ _ rfl h

/-! ### Parts of statements -/

theorem condition (e : Expr) (context : String) (h : e.Anchored At) : Ends T (Check.condition sources e context) :=
  hT.typed_then h fun _ _ hplace => hT.bind (hT.require _ _ _ rfl hplace) fun _ => hT.pure _

theorem caseLabels (subject : ValueType) (first : Option ValueType) (values : List Expr)
    (h : Expr.AnchoredList At values) :
    Ends T (Check.caseLabels sources subject first values) := by
  induction values generalizing first with
  | nil => exact hT.pure _
  | cons e rest ih =>
    refine hT.typed_then h.1 fun label type hlabel => ?_
    cases first <;>
      exact hT.bind (hT.require _ _ _ rfl hlabel) fun _ => hT.bind (ih _ h.2) fun _ => hT.pure _

theorem structMembers (struct : String) (fields : List Field)
    (h : ∀ f ∈ fields, f.Anchored At) : Ends T (Check.structMembers sources struct fields) := by
  induction fields with
  | nil => exact hT.pure _
  | cons f rest ih =>
    obtain ⟨hf, hrest⟩ := List.forall_mem_cons.mp h
    exact hT.bind (hT.resolve f.type hf.type) fun _ => hT.bind (hT.require _ _ _ rfl hf.here) fun _ =>
      hT.bind (hT.require _ _ _ rfl hf.here) fun _ => hT.bind (ih hrest) fun _ => hT.pure _

end LoadsAt

end Check

end Offside
