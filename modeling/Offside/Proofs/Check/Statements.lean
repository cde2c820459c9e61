import Offside.Proofs.Check.Declarations

/-! What statements do to the state of a check.

`RespectsAt` lists what has to be shown of a course for statements: besides declarations, what becomes of it
inside blocks, loops and functions. `Shelters` is for courses that hold outside these only. -/
namespace Offside

variable {s' : CheckState} {failure : Failure} {l : Location}

namespace Check

variable {α β : Type} {At : Location → Prop} {T : Course} {sources : Sources} {s : CheckState}

/-- Whether two states stand at the same place of a program, as to functions and blocks. -/
def SamePlace (s s' : CheckState) : Prop := s'.function = s.function ∧ s'.blockDepth = s.blockDepth

/-- Headers are read at a place of their own. -/
structure Secludes (sources : Sources) : Prop where
  load {header : Header} : header ∈ sources.headers → Ends (Always SamePlace) (sources.load header)

theorem SamePlace.chains : Chains (Always SamePlace) :=
  .ofOrder (fun _ => ⟨rfl, rfl⟩) fun h h' => ⟨h'.1.trans h.1, h'.2.trans h.2⟩

theorem Secludes.adds (h : Secludes sources) : Adds (Always SamePlace) sources :=
  { SamePlace.chains with load := h.load, add := fun _ => ⟨rfl, rfl⟩ }

/-- A course that whole statements take. -/
structure RespectsAt (At : Location → Prop) (T : Course) (sources : Sources) : Prop
    extends toDeclares : DeclaresAt At T sources where
  secludes : Secludes sources
  misplaced (s : CheckState) (placement : Placement) (l : Location) (h : At l) :
    T s (some (.semantic (.misplaced placement) l)) s
  /-- The first result of a function whose type is being inferred. -/
  infer {s : CheckState} {f : FunctionContext} (type : ValueType) : s.function = some f →
    T s none { s with function := some { f with inferred := some type } }
  block {s s' : CheckState} {failure : Option Failure} :
    T { s with blockDepth := s.blockDepth + 1 } failure s' →
    T s failure { s' with blockDepth := s'.blockDepth - 1 }
  breakable {s s' : CheckState} {failure : Option Failure} :
    T { s with breakableDepth := s.breakableDepth + 1 } failure s' →
    T s failure { s' with breakableDepth := s'.breakableDepth - 1 }
  body {s s' : CheckState} {failure : Option Failure} (f : FunctionContext) : s.atTopLevel = true →
    T { s with function := some f, environment := s.environment.enter } failure s' →
    T s failure { s' with function := none, environment := s'.environment.exit }
  follow (path : String) (l : Location) {s : CheckState} : s.atTopLevel = true →
    (h : At l) → EndsFrom T (sources.follow path l) s

abbrev Respects : Course → Sources → Prop := RespectsAt fun _ => True

theorem endsFrom_during {enter : CheckState → CheckState}
    {leave : CheckState → CheckState → CheckState} (part : Check α) (s : CheckState) :
    EndsFrom T (during enter leave part) s =
      T s (failureAfter part (enter s)) (leave s (stateAfter part (enter s))) := by
  unfold EndsFrom failureAfter stateAfter during EStateM.run
  dsimp only
  cases part (enter s) <;> rfl

theorem during_ok {enter : CheckState → CheckState} {leave : CheckState → CheckState → CheckState}
    {part : Check α} {a : α} (h : (during enter leave part).run s = .ok a s') :
    ∃ t, part.run (enter s) = .ok a t ∧ s' = leave s t := by
  unfold during EStateM.run at h
  dsimp only at h
  split at h
  · rename_i t hpart
    cases h
    exact ⟨t, hpart, rfl⟩
  · cases h

/-- A definition whose head is in order stands at the top level, also behind its head. -/
theorem openDefinition_atTopLevel (h : Secludes sources) {head : FunctionHead} {r : List ValueType × Option ValueType}
    (hrun : (openDefinition sources head l).run s = .ok r s') : s'.atTopLevel := by
  have hplace := (h.adds.openDefinition head l .any trivial fun _ => ⟨rfl, rfl⟩).ok hrun
  obtain ⟨_, _, hget, hrun⟩ := run_bind_ok.mp hrun
  cases hget
  obtain ⟨_, _, htop, _⟩ := run_bind_ok.mp hrun
  have htop := (require_ok htop).1
  unfold CheckState.atTopLevel at htop ⊢
  rw [hplace.1, hplace.2]
  exact htop

/-- How `result` ends: the type that is found fits the one that is declared, or is inferred. -/
def matchResult (function : FunctionContext) (value : Option Expr) (found : ValueType)
    (origin : ValueOrigin) (l : Location) : Check (Option Expr) := do
  let place := (value.map Expr.start).getD l
  match function.returns with
  | some expected =>
    require (resultFits origin expected found) (.mismatch (.result function.name) expected found) place
  | none => inferResult function found place
  return value

/-! ### Results -/

namespace LoadsAt

variable (hT : LoadsAt At T sources)
  (hinfer : ∀ {s : CheckState} {f : FunctionContext} (type : ValueType), s.function = some f →
    T s none { s with function := some { f with inferred := some type } })
include hT hinfer

theorem inferResult {function : FunctionContext} (found : ValueType) (l : Location)
    (hs : s.function = some function) (h : At l) :
    EndsFrom T (Check.inferResult function found l) s := by
  refine hT.seq (hT.require _ _ _ rfl h s) fun _ s' hrun => ?_
  rw [(require_ok hrun).2]
  split
  · exact hT.require _ _ _ rfl h s
  · exact hinfer _ hs

theorem matchResult {function : FunctionContext} (value : Option Expr) (found : ValueType)
    (origin : ValueOrigin) (l : Location) {s : CheckState} (hs : s.function = some function)
    (hvalue : ∀ e ∈ value, At e.start) (h : At l) :
    EndsFrom T (Check.matchResult function value found origin l) s := by
  have hplace : At ((value.map Expr.start).getD l) := by
    cases value with
    | none => exact h
    | some e => exact hvalue e rfl
  unfold Check.matchResult
  cases function.returns with
  | some expected => exact hT.seq (hT.require _ _ _ rfl hplace s) fun _ s' _ => hT.pure _ s'
  | none => exact hT.seq (hT.inferResult hinfer found _ hs hplace) fun _ s' _ => hT.pure _ s'

/-- A `return`, from a state where it may be refused for its place. -/
theorem result (hsecludes : Secludes sources) (value : Option Expr) (l : Location) {s : CheckState}
    (hvalue : ∀ e ∈ value, e.Anchored At) (h : At l)
    (hmisplaced : s.function = none → T s (some (.semantic (.misplaced .result) l)) s) :
    EndsFrom T (Check.result sources value l) s := by
  unfold Check.result
  rw [endsFrom_get_bind]
  cases hfunction : s.function with
  | none => exact hmisplaced hfunction
  | some function =>
    cases value with
    | none =>
      exact hT.matchResult hinfer none _ _ l hfunction (fun _ he => absurd he (Option.not_mem_none _)) h
    | some e =>
      have he := hvalue e rfl
      refine hT.seq (hT.typed e he s) fun typed s' hrun => ?_
      have hplace := (hsecludes.adds.typed e .any).ok hrun
      refine hT.matchResult hinfer (some typed.1) typed.2 e.origin l (hplace.1.trans hfunction) ?_ h
      rintro _ ⟨⟩
      rw [typed_start sources e s typed s' trivial hrun]
      exact he.start

end LoadsAt

/-! ### Statements as a whole -/

namespace RespectsAt

variable (hT : RespectsAt At T sources) {part : Check α}
include hT

theorem openDefinition (head : FunctionHead) (l : Location) (hhead : head.Anchored At)
    (h : At l) : Ends T (Check.openDefinition sources head l) :=
  fun s => hT.toAdds.openDefinition head l hhead h fun _ => hT.misplaced s _ l h

theorem plain (line : Stmt) (hplain : line.isPlain) (h : line.Anchored At) :
    Ends T (Check.statement sources line) := by
  refine fun s => hT.toDeclares.plain line hplain h ?_
  rintro m rfl _
  exact hT.misplaced s _ _ h

theorem inBlock (h : Ends T part) : Ends T (Check.inBlock part) := by
  intro s
  unfold Check.inBlock
  rw [endsFrom_during]
  exact hT.block (h _)

theorem inBreakable (h : Ends T part) : Ends T (Check.inBreakable part) := by
  intro s
  unfold Check.inBreakable
  rw [endsFrom_during]
  exact hT.breakable (hT.inBlock h _)

theorem inFunction (f : FunctionContext) (h : Ends T part)
    (hs : s.atTopLevel) : EndsFrom T (Check.inFunction f part) s := by
  unfold Check.inFunction
  rw [endsFrom_during]
  exact hT.body f hs (h _)

theorem result (value : Option Expr) (l : Location) (hvalue : ∀ e ∈ value, e.Anchored At)
    (h : At l) : Ends T (Check.result sources value l) :=
  fun s => hT.toLoads.result hT.infer hT.secludes value l hvalue h fun _ => hT.misplaced s _ l h

mutual

theorem statement : (s : Stmt) → (h : s.Anchored At) → Ends T (Check.statement sources s)
  | .function _ head body, h => by
    intro s
    refine hT.seq (hT.openDefinition head _ h.2.1 h.1 s) fun ⟨types, returns⟩ s' hrun => ?_
    refine hT.seq ?_ fun ⟨body', inferred⟩ s'' _ => ?_
    · refine hT.inFunction _ ?_ (openDefinition_atTopLevel hT.secludes hrun)
      exact hT.bind (hT.bindParams head.params types) fun _ => hT.bind (statements body h.2.2) fun _ =>
        hT.bind hT.get fun _ => hT.pure _
    · exact hT.bind (hT.closeDefinition head types returns inferred _ h.1) (fun _ => hT.pure _) s''
  | .result _ value, h => hT.bind (hT.result value _ h.2 h.1) fun _ => hT.pure _
  | .ifElse _ c body orelse, h =>
    hT.bind (hT.condition c _ h.2.1) fun _ => hT.bind (hT.inBlock (statements body h.2.2.1)) fun _ =>
      hT.bind (hT.inBlock (statements orelse h.2.2.2)) fun _ => hT.pure _
  | .whileLoop _ c body orelse, h =>
    hT.bind (hT.condition c _ h.2.1) fun _ => hT.bind (hT.inBreakable (statements body h.2.2.1)) fun _ =>
      hT.bind (hT.inBlock (statements orelse h.2.2.2)) fun _ => hT.pure _
  | .doLoop _ body c, h =>
    hT.bind (hT.inBreakable (statements body h.2.1)) fun _ => hT.bind (hT.condition c _ h.2.2) fun _ =>
      hT.pure _
  | .switch _ subject cases default, h =>
    hT.typed_then h.2.1 fun _ type hsubject => hT.bind (hT.require _ _ _ rfl hsubject) fun _ =>
      hT.bind (switchCases type cases h.2.2.1) fun _ => hT.bind (defaultCase default h.2.2.2) fun _ =>
        hT.pure _
  | .includeFile _ path, h => by
    intro s
    refine hT.seq (hT.get s) fun _ s' hget => ?_
    cases hget
    refine hT.seq (hT.requireFrom fun _ => hT.misplaced s _ _ h) fun _ s' hrun => ?_
    obtain ⟨htop, rfl⟩ := require_ok hrun
    exact hT.seq (hT.follow path _ htop h) fun _ s' _ => hT.pure _ s'
  | .expr m e, h => hT.plain (.expr m e) rfl h
  | .declare m d, h => hT.plain (.declare m d) rfl h
  | .assign m target value, h => hT.plain (.assign m target value) rfl h
  | .announce m head, h => hT.plain (.announce m head) rfl h
  | .leave m, h => hT.plain (.leave m) rfl h
  | .pass m, h => hT.plain (.pass m) rfl h
  | .struct m name fields, h => hT.plain (.struct m name fields) rfl h
  | .enum m name members, h => hT.plain (.enum m name members) rfl h
  | .typedef m target name, h => hT.plain (.typedef m target name) rfl h
  | .define m name value, h => hT.plain (.define m name value) rfl h
  | .ifndef m name, h => hT.plain (.ifndef m name) rfl h
  | .endif m, h => hT.plain (.endif m) rfl h

theorem statements : (body : List Stmt) → (h : Stmt.AnchoredList At body) → Ends T (Check.statements sources body)
  | [], _ => hT.pure _
  | s :: rest, h => hT.bind (statement s h.1) fun _ => hT.bind (statements rest h.2) fun _ => hT.pure _

theorem switchCases (subject : ValueType) : (cases : List SwitchCase) →
    (h : SwitchCase.AnchoredList At cases) → Ends T (Check.switchCases sources subject cases)
  | [], _ => hT.pure _
  | c :: rest, h =>
    hT.bind (switchCase subject c h.1) fun _ => hT.bind (switchCases subject rest h.2) fun _ => hT.pure _

theorem switchCase (subject : ValueType) : (c : SwitchCase) → (h : c.Anchored At) →
    Ends T (Check.switchCase sources subject c)
  | .mk _ values body, h =>
    hT.bind (hT.caseLabels subject none values h.1) fun _ =>
      hT.bind (hT.inBreakable (statements body h.2)) fun _ => hT.pure _

theorem defaultCase : (d : Option (List Stmt)) → (h : Stmt.AnchoredBlock At d) → Ends T (Check.defaultCase sources d)
  | none, _ => hT.pure _
  | some body, h => hT.bind (hT.inBreakable (statements body h)) fun _ => hT.pure _

end

end RespectsAt

/-- A course `Q` for statements outside functions and blocks, given a course `T` for what these hold. -/
structure Shelters (Q T : Course) (sources : Sources) : Prop where
  outside : Declares Q sources
  inside : Respects T sources
  misplaced (s : CheckState) (placement : Placement) (l : Location) :
    Q s (some (.semantic (.misplaced placement) l)) s
  block {s s' : CheckState} {failure : Option Failure} :
    T { s with blockDepth := s.blockDepth + 1 } failure s' →
    Q s failure { s' with blockDepth := s'.blockDepth - 1 }
  breakable {s s' : CheckState} {failure : Option Failure} :
    Q { s with breakableDepth := s.breakableDepth + 1 } failure s' →
    Q s failure { s' with breakableDepth := s'.breakableDepth - 1 }
  body {s s' : CheckState} {failure : Option Failure} (f : FunctionContext) :
    T { s with function := some f, environment := s.environment.enter } failure s' →
    Q s failure { s' with function := none, environment := s'.environment.exit }
  result {s s' : CheckState} {failure : Option Failure} {f : FunctionContext} :
    s.function = some f → T s failure s' → Q s failure s'

namespace Shelters

variable {Q : Course} (h : Shelters Q T sources) {part : Check α}
include h

theorem inBlock (hpart : Ends T part) : Ends Q (Check.inBlock part) := by
  intro s
  unfold Check.inBlock
  rw [endsFrom_during]
  exact h.block (hpart _)

theorem inBreakable (hpart : Ends T part) : Ends Q (Check.inBreakable part) := by
  intro s
  unfold Check.inBreakable
  rw [endsFrom_during]
  exact h.breakable (h.inBlock hpart _)

theorem inFunction (f : FunctionContext) (hpart : Ends T part) : Ends Q (Check.inFunction f part) := by
  intro s
  unfold Check.inFunction
  rw [endsFrom_during]
  exact h.body f (hpart _)

theorem switchCases (subject : ValueType) (cases : List SwitchCase) :
    Ends Q (Check.switchCases sources subject cases) := by
  have hQ := h.outside
  induction cases with
  | nil => exact hQ.pure _
  | cons c rest ih =>
    obtain ⟨span, values, body⟩ := c
    refine hQ.bind ?_ fun _ => hQ.bind ih fun _ => hQ.pure _
    exact hQ.bind (hQ.caseLabels subject none values .any) fun _ =>
      hQ.bind (h.inBreakable (h.inside.statements body .any)) fun _ => hQ.pure _

/-- Statements other than includes. -/
theorem statement (s : Stmt) (hs : ∀ m path, s ≠ .includeFile m path) : Ends Q (Check.statement sources s) := by
  have hQ := h.outside
  have hT := h.inside
  cases s with
  | includeFile m path => exact absurd rfl (hs m path)
  | function m head body =>
    refine hQ.bind (fun s => hQ.openDefinition head _ .any trivial fun _ => h.misplaced s _ _)
      fun ⟨types, returns⟩ => ?_
    refine hQ.bind (h.inFunction _ ?_) fun ⟨body', inferred⟩ => ?_
    · exact hT.bind (hT.bindParams head.params types) fun _ => hT.bind (hT.statements body .any) fun _ =>
        hT.bind hT.get fun _ => hT.pure _
    · exact hQ.bind (hQ.closeDefinition head types returns inferred _ trivial) fun _ => hQ.pure _
  | result m value =>
    refine hQ.bind (fun s => ?_) fun _ => hQ.pure _
    cases hf : s.function with
    | none =>
      unfold Check.result
      rw [endsFrom_get_bind, hf]
      exact h.misplaced s _ _
    | some f => exact h.result hf (hT.result value _ (fun _ _ => .any) trivial s)
  | ifElse m c body orelse =>
    exact hQ.bind (hQ.condition c _ .any) fun _ => hQ.bind (h.inBlock (hT.statements body .any)) fun _ =>
      hQ.bind (h.inBlock (hT.statements orelse .any)) fun _ => hQ.pure _
  | whileLoop m c body orelse =>
    exact hQ.bind (hQ.condition c _ .any) fun _ => hQ.bind (h.inBreakable (hT.statements body .any)) fun _ =>
      hQ.bind (h.inBlock (hT.statements orelse .any)) fun _ => hQ.pure _
  | doLoop m body c =>
    exact hQ.bind (h.inBreakable (hT.statements body .any)) fun _ => hQ.bind (hQ.condition c _ .any) fun _ =>
      hQ.pure _
  | switch m subject cases default =>
    refine hQ.bind (hQ.typed subject .any) fun r => hQ.bind (hQ.require _ _ _ rfl trivial) fun _ => ?_
    refine hQ.bind (h.switchCases r.2 cases) fun _ => hQ.bind ?_ fun _ => hQ.pure _
    cases default with
    | none => exact hQ.pure _
    | some body => exact hQ.bind (h.inBreakable (hT.statements body .any)) fun _ => hQ.pure _
  | _ => exact fun s => hQ.plain _ rfl .any fun _ _ _ => h.misplaced s _ _

end Shelters

end Check

end Offside
