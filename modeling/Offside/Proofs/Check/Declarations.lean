import Mathlib.Data.List.Forall2
import Offside.Proofs.Check.Effect

/-! What declarations do to the state of a check.

`AddsAt` lists what has to be shown of a course for declarations that only add to the current scope, and
`DeclaresAt` for all declarations: for constants, which may be set anew, and structs, which are completed. -/
namespace Offside

variable {s' : CheckState} {failure : Failure} {l : Location}

/-- One addition to the scope that a statement makes. -/
inductive Scope.Addition (s : Scope) : Scope → Prop where
  | bind (name : String) (type : ValueType) : Addition s (s.bind name type).2
  | type {name : String} {type : ValueType} {types : TypeTable} :
      s.types.add name type = .ok types → Addition s { s with types }
  | synonym {name target : String} {types : TypeTable} :
      s.types.addAlias name target = .ok types → Addition s { s with types }
  | typedef {name : String} {type : ValueType} {types : TypeTable} :
      s.types.addTypedef name type = .ok types → Addition s { s with types }
  | function (name : String) :
      Addition s { s with definedFunctions := s.definedFunctions.insert name }
  | guard (name : String) : Addition s { s with macros := s.macros.insert name }

namespace CheckState

@[simp] theorem scope_setScope (s : CheckState) (scope : Scope) : (s.setScope scope).scope = scope :=
  Environment.current_setCurrent _ _

@[simp] theorem setScope_setScope (s : CheckState) (scope scope' : Scope) :
    (s.setScope scope).setScope scope' = s.setScope scope' := by
  unfold setScope Environment.setCurrent
  cases s.environment.locals <;> simp

@[simp] theorem setScope_scope (s : CheckState) : s.setScope s.scope = s := by
  obtain ⟨⟨locals, global⟩⟩ := s
  cases locals <;> rfl

/-- What relates the scopes of two states one by one relates the current ones. -/
theorem scope_of_forall₂ {R : Scope → Scope → Prop} {s s' : CheckState}
    (hlocals : List.Forall₂ R s.environment.locals s'.environment.locals)
    (hglobal : R s.environment.global s'.environment.global) : R s.scope s'.scope := by
  obtain ⟨⟨locals, global⟩⟩ := s
  obtain ⟨⟨locals', global'⟩⟩ := s'
  cases hlocals with
  | nil => exact hglobal
  | cons hfirst _ => exact hfirst

end CheckState

/-- Whether a statement holds no others, gives no result and includes nothing. -/
def Stmt.isPlain : Stmt → Bool
  | function .. | result .. | ifElse .. | whileLoop .. | doLoop .. | switch .. | includeFile .. => false
  | _ => true

namespace Check

variable {α β : Type} {At : Location → Prop} {T : Course} {sources : Sources} {s : CheckState}

/-- A course that additions to the scope take too. -/
structure AddsAt (At : Location → Prop) (T : Course) (sources : Sources) : Prop
    extends toLoads : LoadsAt At T sources where
  add {s : CheckState} {scope : Scope} : s.scope.Addition scope → T s none (s.setScope scope)

abbrev Adds : Course → Sources → Prop := AddsAt fun _ => True

theorem endsFrom_get_bind (f : CheckState → Check α) (s : CheckState) :
    EndsFrom T (get >>= f) s = EndsFrom T (f s) s := rfl

theorem endsFrom_scope_bind (f : Scope → Check α) (s : CheckState) :
    EndsFrom T (scope >>= f) s = EndsFrom T (f s.scope) s := rfl

namespace AddsAt

variable (hT : AddsAt At T sources)
include hT

theorem modifyScope {f : Scope → Scope} (h : ∀ s : Scope, s.Addition (f s)) : Ends T (Check.modifyScope f) :=
  fun s => hT.add (h s.scope)

theorem declare (name : String) (type : ValueType) (l : Location) (h : At l) :
    Ends T (Check.declare name type l) := by
  intro s
  have hadd : T s none (s.setScope (s.scope.bind name type).2) := hT.add (.bind name type)
  unfold Check.declare
  rw [endsFrom_scope_bind]
  generalize s.scope.bind name type = bound at hadd
  obtain ⟨binding, scope⟩ := bound
  cases binding with
  | new => exact hadd
  | repeated => exact hadd
  | conflict => exact hT.failWith _ _ rfl h s

theorem changeTypes (l : Location) (hl : At l) {change : TypeTable → Except TypeFault TypeTable}
    (h : ∀ (s : Scope) (types : TypeTable), change s.types = .ok types → s.Addition { s with types }) :
    Ends T (Check.changeTypes l change) := by
  intro s
  unfold Check.changeTypes
  rw [endsFrom_scope_bind]
  cases hc : change s.scope.types with
  | ok types => exact hT.add (h s.scope types hc)
  | error => exact hT.failWith _ _ rfl hl s

theorem announce (head : FunctionHead) (l : Location) (hhead : head.Anchored At)
    (h : At l) : Ends T (Check.announce sources head l) := by
  refine hT.bind (hT.checkParams _ _ _ hhead.params) fun _ => ?_
  refine hT.bind (hT.paramTypes _ _ hhead.params) fun types => ?_
  refine hT.bind (hT.resolveOption _ hhead.returns) fun returns s => ?_
  have hadd : T s none (s.setScope (s.scope.bind head.name _).2) :=
    hT.add (.bind head.name (.function types (returns.getD .int)))
  rw [endsFrom_scope_bind]
  generalize s.scope.bind head.name (.function types (returns.getD .int)) = bound at hadd
  obtain ⟨binding, scope⟩ := bound
  cases binding with
  | new => exact hadd
  | repeated => exact hadd
  | conflict =>
    dsimp only
    split
    · exact hT.failWith _ _ rfl h s
    · exact hT.failWith _ _ rfl h s

/-- The head of a definition, from a state where it may be refused for its place. -/
theorem openDefinition (head : FunctionHead) (l : Location) {s : CheckState} (hhead : head.Anchored At)
    (h : At l) (hmisplaced : s.atTopLevel = false → T s (some (.semantic (.misplaced .definition) l)) s) :
    EndsFrom T (Check.openDefinition sources head l) s := by
  unfold Check.openDefinition
  rw [endsFrom_get_bind]
  refine hT.seq (hT.requireFrom hmisplaced) fun _ s' _ =>
    hT.bind (hT.checkParams _ _ _ hhead.params) (fun _ => ?_) s'
  refine hT.bind hT.scope fun _ => hT.bind (hT.require _ _ _ rfl h) fun _ => ?_
  refine hT.bind (hT.definitionTypes _ _ hhead h) fun ⟨types, returns⟩ => ?_
  refine hT.bind (hT.modifyScope fun s => .function head.name) fun _ => ?_
  cases returns with
  | none => exact hT.pure _
  | some returns => exact hT.bind (hT.modifyScope fun s => .bind _ _) fun _ => hT.pure _

theorem closeDefinition (head : FunctionHead) (types : List ValueType)
    (returns inferred : Option ValueType) (l : Location) (h : At l) :
    Ends T (Check.closeDefinition head types returns inferred l) := by
  unfold Check.closeDefinition
  dsimp only
  split
  · exact hT.bind (hT.declare _ _ _ h) fun _ => hT.pure _
  · exact hT.pure _

theorem bindParams (params : List Param) (types : List ValueType) :
    Ends T (Check.modifyScope (Check.bindParams params types)) := by
  intro s
  show T s none (s.setScope (Check.bindParams params types s.scope))
  induction params generalizing types s with
  | nil => simpa [Check.bindParams] using hT.refl s
  | cons p rest ih =>
    cases types with
    | nil => simpa [Check.bindParams] using hT.refl s
    | cons type types =>
      unfold Check.bindParams
      cases p.kind with
      | vararg => exact ih types s
      | named name _ =>
        have hbind : T s none (s.setScope (s.scope.bind name type).2) := hT.add (.bind name type)
        simpa using hT.trans hbind (ih types _)

theorem variableDeclaration (d : VarDecl) (l : Location) (hd : d.Anchored At)
    (h : At l) : Ends T (Check.variableDeclaration sources d l) := by
  have hend (type : ValueType) (init : Option Expr) :
      Ends T (do
        Check.declare d.name type l
        return ({ d with init, type := some type } : VarDecl)) :=
    hT.bind (hT.declare _ _ _ h) fun _ => hT.pure _
  unfold Check.variableDeclaration
  dsimp only
  split
  · rename_i declared hdeclared
    refine hT.bind (hT.resolve _ (hd.declared declared hdeclared)) fun type => ?_
    refine hT.bind (hT.require _ _ _ rfl h) fun _ => ?_
    split
    · exact hT.bind (hT.pure none) (hend type)
    · rename_i e hinit
      refine hT.typed_then (hd.init e hinit) fun _ _ hplace => ?_
      exact hT.bind (hT.require _ _ _ rfl hplace) fun _ => hT.bind (hT.pure _) (hend type)
  · -- Without a written type the declaration is refused.
    exact fun s => hT.failWith _ _ rfl h s

theorem implicitDeclaration (m : Mark) (name : String) (value : Expr) (l : Location)
    (hvalue : value.Anchored At) (h : At l) :
    Ends T (Check.implicitDeclaration sources m name value l) :=
  hT.bind (hT.typed value hvalue) fun _ => hT.bind (hT.require _ _ _ rfl h) fun _ =>
    hT.bind (hT.declare _ _ _ h) fun _ => hT.pure _

theorem assignment (m : Mark) (target value : Expr) (htarget : target.Anchored At)
    (hvalue : value.Anchored At) : Ends T (Check.assignment sources m target value) := by
  unfold Check.assignment
  split
  · refine hT.bind (hT.lookup _) fun found => ?_
    split
    · exact hT.implicitDeclaration _ _ _ _ hvalue htarget
    · refine hT.bind (hT.require _ _ _ rfl htarget) fun _ => hT.typed_then hvalue fun _ _ hplace => ?_
      exact hT.bind (hT.require _ _ _ rfl hplace) fun _ => hT.pure _
  · refine hT.typed_then htarget fun _ _ hplace => hT.bind (hT.require _ _ _ rfl hplace) fun _ => ?_
    refine hT.typed_then hvalue fun _ _ hplace => ?_
    exact hT.bind (hT.require _ _ _ rfl hplace) fun _ => hT.pure _

/-- A struct, if giving members to a struct that is known by name is allowed anywhere. -/
theorem struct (hcomplete : ∀ (s : CheckState) name members,
      T s none (s.setTypes (s.scope.types.complete name (.struct name members))))
    (name : String) (fields : List Field) (l : Location) (hfields : ∀ f ∈ fields, f.Anchored At)
    (h : At l) : Ends T (Check.struct sources name fields l) :=
  hT.bind (hT.changeTypes l h fun _ _ h => .type h) fun _ =>
    hT.bind (hT.structMembers name fields hfields) fun members s => hcomplete s name members

theorem typedef (target : TypeExpr) (name : String) (l : Location) (htarget : target.Anchored At)
    (h : At l) : Ends T (Check.typedef sources target name l) := by
  have hother (t : TypeExpr) (ht : t.Anchored At) :
      Ends T (do
        let type ← Check.resolve sources t
        Check.changeTypes l fun types => types.addTypedef name type) :=
    hT.bind (hT.resolve t ht) fun _ => hT.changeTypes l h fun _ _ h => .typedef h
  unfold Check.typedef
  split
  · refine hT.bind (hT.needType _) fun _ => hT.bind hT.scope fun _ => ?_
    split
    · exact hT.changeTypes l h fun _ _ h => .synonym h
    · exact hother _ htarget
  · exact hother _ htarget

end AddsAt

/-- A course that all declarations take. Besides adding, they change what constants stand for, and give
members to a struct. -/
structure DeclaresAt (At : Location → Prop) (T : Course) (sources : Sources) : Prop
    extends toAdds : AddsAt At T sources where
  constants (s : CheckState) (constants : Dictionary Int) :
    T s none (s.setScope { s.scope with constants })
  struct (name : String) (fields : List Field) (l : Location) : (∀ f ∈ fields, f.Anchored At) → At l →
    Ends T (Check.struct sources name fields l)

abbrev Declares : Course → Sources → Prop := DeclaresAt fun _ => True

namespace DeclaresAt

variable (hT : DeclaresAt At T sources)
include hT

theorem enumMembers (type : ValueType) (l : Location) (value : Nat) (members : List String)
    (h : At l) : Ends T (Check.enumMembers type l value members) := by
  induction members generalizing value with
  | nil => exact hT.pure _
  | cons member rest ih =>
    exact hT.bind (hT.declare member type l h) fun _ =>
      hT.bind (fun s => hT.constants s (s.scope.constants.insert member value)) fun _ => ih _

theorem enum (name : String) (members : List String) (l : Location) (h : At l) : Ends T (Check.enum name members l) :=
  hT.bind (hT.changeTypes l h fun _ _ h => .type h) fun _ => hT.enumMembers _ _ _ _ h

theorem define (name : String) (value : Option Expr) (l : Location) (hvalue : ∀ e ∈ value, e.Anchored At) (h : At l) :
    Ends T (Check.define sources name value l) := by
  unfold Check.define
  cases value with
  | none => exact hT.bind (hT.modifyScope fun _ => .guard name) fun _ => hT.pure _
  | some e =>
    refine hT.bind (hT.typed e (hvalue e rfl)) fun _ => hT.bind (hT.declare _ _ _ h) fun _ => ?_
    refine hT.bind (fun s => ?_) fun _ => hT.pure _
    show T s none (s.setScope _)
    dsimp only
    split
    · exact hT.constants s _
    · exact hT.constants s _

/-- Statements that hold no others and give no result, from a state where a `break` may be refused for
its place. -/
theorem plain : (line : Stmt) → line.isPlain → line.Anchored At → (∀ m, line = .leave m → s.breakableDepth = 0 →
      T s (some (.semantic (.misplaced .leave) m.span.start)) s) →
    EndsFrom T (Check.statement sources line) s
  | .expr _ e, _, h, _ => hT.bind (hT.typed e h.2) (fun _ => hT.pure _) s
  | .declare _ d, _, h, _ => hT.bind (hT.variableDeclaration d _ h.2 h.1) (fun _ => hT.pure _) s
  | .assign m target value, _, h, _ => hT.assignment m target value h.2.1 h.2.2 s
  | .announce _ head, _, h, _ => hT.bind (hT.announce head _ h.2 h.1) (fun _ => hT.pure _) s
  | .leave m, _, _, hmisplaced => by
    unfold Check.statement
    rw [endsFrom_get_bind]
    refine hT.seq (hT.requireFrom fun h => hmisplaced m rfl ?_) fun _ s' _ => hT.pure _ s'
    simpa using h
  | .pass _, _, _, _ | .ifndef _ _, _, _, _ | .endif _, _, _, _ => hT.pure _ s
  | .struct _ name fields, _, h, _ => hT.bind (hT.struct name fields _ h.2 h.1) (fun _ => hT.pure _) s
  | .enum _ name members, _, h, _ => hT.bind (hT.enum name members _ h) (fun _ => hT.pure _) s
  | .typedef _ target name, _, h, _ => hT.bind (hT.typedef target name _ h.2 h.1) (fun _ => hT.pure _) s
  | .define _ name value, _, h, _ => hT.bind (hT.define name value _ h.2 h.1) (fun _ => hT.pure _) s

end DeclaresAt

end Check

end Offside
