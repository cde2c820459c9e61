import Offside.Proofs.Check.Headers

/-! Reading a header changes nothing that is there.

Headers are read when a name is needed, in the middle of functions, loops and blocks. Wherever that is,
every scope goes on saying what it said, and knows what the header declares besides
(`Reached.load_transparent`). The places are the states that checks go through (`Reached`), and
two facts hold in all of them: the global scope is furnished, and what it knows every local scope
knows. -/
namespace Offside

namespace CheckState

/-- The scopes, innermost first. -/
def frames (s : CheckState) : List Scope := s.environment.locals ++ [s.environment.global]

/-- Every local scope knows the names of the global one. -/
def Visible (s : CheckState) : Prop := ∀ frame ∈ s.environment.locals, s.environment.global.CoveredBy frame

namespace Visible

variable {s s' : CheckState}

section

variable (h : s.Visible)
include h

theorem congr (henvironment : s'.environment = s.environment) : s'.Visible := by
  unfold Visible
  rw [henvironment]
  exact h

theorem current : s.environment.global.CoveredBy s.scope := by
  unfold scope Environment.current
  cases hlocals : s.environment.locals with
  | nil => exact .refl _
  | cons frame rest => exact h frame (hlocals ▸ List.mem_cons_self)

/-- A scope that is changed keeps its names. -/
theorem setScope {scope : Scope} (hscope : s.scope.CoveredBy scope) :
    (s.setScope scope).Visible := by
  have hcurrent := h.current.trans hscope
  obtain ⟨⟨locals, global⟩⟩ := s
  cases locals with
  | nil => exact nofun
  | cons first rest =>
    intro frame hframe
    rcases List.mem_cons.mp hframe with rfl | hframe
    · exact hcurrent
    · exact h frame (List.mem_cons_of_mem _ hframe)

/-- A function is begun in a copy of the scope around it. -/
theorem enter (f : FunctionContext) :
    Visible { s with function := some f, environment := s.environment.enter } := by
  intro frame hframe
  rcases List.mem_cons.mp hframe with rfl | hframe
  · exact { h.current with }
  · exact h frame hframe

theorem exit :
    Visible { s with function := none, environment := s.environment.exit } :=
  fun frame hframe => h frame (List.mem_of_mem_drop hframe)

end

/-- Behind a header the local scopes have taken in what is new. -/
theorem closeHeader (s s' : CheckState) : (s.closeHeader s').Visible := by
  intro frame hframe
  obtain ⟨before, _, rfl⟩ := List.mem_map.mp hframe
  exact .absorb before _

end Visible

/-- In every scope the names of types lead to types. -/
def Grounded (s : CheckState) : Prop := ∀ frame ∈ s.frames, frame.types.Grounded

theorem scope_mem_frames (s : CheckState) : s.scope ∈ s.frames := by
  obtain ⟨⟨locals, global⟩⟩ := s
  cases locals <;> exact List.mem_cons_self

namespace Grounded

variable {s s' : CheckState} (h : s.Grounded)
include h

theorem setScope {scope : Scope} (hscope : s.scope.types.Grounded → scope.types.Grounded) :
    (s.setScope scope).Grounded := by
  have hcurrent := hscope (h _ s.scope_mem_frames)
  obtain ⟨⟨locals, global⟩⟩ := s
  cases locals with
  | nil => exact List.forall_mem_singleton.mpr hcurrent
  | cons first rest => exact List.forall_mem_cons.mpr ⟨hcurrent, (List.forall_mem_cons.mp h).2⟩

theorem enter (f : FunctionContext) :
    Grounded { s with function := some f, environment := s.environment.enter } :=
  List.forall_mem_cons.mpr ⟨show s.scope.types.Grounded from h _ s.scope_mem_frames, h⟩

theorem closeHeader (h' : s.openHeader.Grounded → s'.Grounded) : (s.closeHeader s').Grounded := by
  have hglobal : s'.environment.global.types.Grounded :=
    h' (fun frame hframe => h frame (List.mem_append_right _ hframe)) _ (List.mem_append_right _ List.mem_cons_self)
  refine List.forall_mem_append.mpr ⟨fun frame hframe => ?_, List.forall_mem_singleton.mpr hglobal⟩
  obtain ⟨before, hbefore, rfl⟩ := List.mem_map.mp hframe
  exact (h before (List.mem_append_left _ hbefore)).absorb hglobal

end Grounded

end CheckState

namespace Check

variable {config : Config} {sources : Sources} {s s' : CheckState} {header : Header}

theorem coveredBy_complete (scope : Scope) (name : String) (type : ValueType) :
    scope.CoveredBy { scope with types := scope.types.complete name type } :=
  { Scope.CoveredBy.refl scope with types := fun _ => TypeTable.contains_insert _ _ _ }

theorem visible_tolerates (config : Config) :
    Tolerates (fun s s' => s.Visible → s'.Visible) config where
  refl _ h := h
  trans h h' hs := h' (h hs)
  add h hs := hs.setScope h.coveredBy
  constants _ _ hs := hs.setScope { Scope.CoveredBy.refl _ with }
  struct name fields l h :=
    h.struct (fun _ _ _ hs => hs.setScope (coveredBy_complete _ _ _)) name fields l (fun _ _ => .any) trivial
  infer _ _ hs := hs.congr rfl
  block h hs := (h (hs.congr rfl)).congr rfl
  breakable h hs := (h (hs.congr rfl)).congr rfl
  body f _ h hs := (h (hs.enter f)).exit
  header _ _ := .closeHeader _ _
  headerRead _ _ _ _ _ _ := (CheckState.Visible.closeHeader _ _).congr rfl
  visit _ hs := hs.congr rfl
  file _ h hs := (h (hs.congr rfl)).congr rfl
  unit _ _ _ _ h hs := (h (hs.congr rfl)).congr rfl

theorem furnished_setScope (h : s.Furnished) {scope : Scope} (hrooted : s.scope.Rooted → scope.Rooted)
    (hscope : s.scope.CoveredBy scope) : (s.setScope scope).Furnished := by
  obtain ⟨⟨locals, global⟩⟩ := s
  cases locals with
  | nil => exact h.extend (hrooted h.rooted) hscope rfl
  | cons => exact h.congr rfl rfl

theorem furnished_tolerates (config : Config) :
    Tolerates (fun s s' => s.Furnished → s'.Furnished) config where
  refl _ h := h
  trans h h' hs := h' (h hs)
  add h hs := furnished_setScope hs (fun hrooted => (hrooted.addition h).1) h.coveredBy
  constants _ _ hs := furnished_setScope hs id { Scope.CoveredBy.refl _ with }
  struct name fields l h :=
    h.struct (fun _ _ _ hs => furnished_setScope hs id (coveredBy_complete _ _ _)) name fields l
      (fun _ _ => .any) trivial
  infer _ _ hs := hs.congr rfl rfl
  block h hs := (h (hs.congr rfl rfl)).congr rfl rfl
  breakable h hs := (h (hs.congr rfl rfl)).congr rfl rfl
  body _ _ h hs := (h (hs.congr rfl rfl)).congr rfl rfl
  header h hs := (h (hs.congr rfl rfl)).congr rfl rfl
  headerRead := by
    intro depth header m body s s' hmem hm hrun hnew h hs
    have hmem := config.mem_standard hmem
    obtain ⟨_, hread⟩ := text_effect hmem (provides_sourcesTo config depth header) hm hs
    obtain ⟨hdeclares, hincluded⟩ := hread body s' hrun
    have hnew : header.name ∉ s'.headers := by simpa using hnew
    exact ((h (hs.congr rfl rfl)).append hmem hnew hdeclares hincluded).congr rfl rfl
  visit _ hs := hs.congr rfl rfl
  file _ h hs := (h (hs.congr rfl rfl)).congr rfl rfl
  unit _ _ _ _ h hs := (h (hs.congr rfl rfl)).congr rfl rfl

theorem grounded_tolerates (config : Config) :
    Tolerates (fun s s' => s.Grounded → s'.Grounded) config where
  refl _ := id
  trans h h' hs := h' (h hs)
  add h hs := by
    refine hs.setScope fun hscope => ?_
    cases h with
    | bind name type => obtain hb | hb := Scope.bind_cases _ name type <;> rw [hb] <;> exact hscope
    | type h => exact (TypeTable.add_ok h).2 ▸ hscope.insert_base _ _
    | synonym h =>
      obtain ⟨hfree, htarget, rfl⟩ := TypeTable.addAlias_ok h
      exact hscope.insert_alias hfree htarget
    | typedef h =>
      obtain ⟨hfree, rfl | ⟨target, htarget, rfl⟩⟩ := TypeTable.addTypedef_ok h
      · exact hscope.insert_base _ _
      · exact hscope.insert_alias hfree htarget
    | function | guard => exact hscope
  constants _ _ hs := hs.setScope id
  struct name fields l h :=
    h.struct (fun _ _ _ hs => hs.setScope fun hscope => hscope.insert_base _ _) name fields l (fun _ _ => .any) trivial
  infer _ _ := id
  block h := h
  breakable h := h
  body f _ h hs frame hframe := by
    rcases List.mem_append.mp hframe with hframe | hframe
    · exact h (hs.enter f) frame (List.mem_append_left _ (List.mem_of_mem_drop hframe))
    · exact h (hs.enter f) frame (List.mem_append_right _ hframe)
  header h hs := hs.closeHeader h
  headerRead _ _ _ _ h hs := hs.closeHeader h
  visit _ := id
  file _ h := h
  unit _ _ _ _ h := h

/-! ### States that checks go through -/

/-- The checks that a program's check is made of. -/
inductive Part (sources : Sources) : {α : Type} → Check α → Prop where
  | name (name : String) : Part sources (lookup sources name)
  | typeName (name : String) : Part sources (needType sources name)
  | type (behindPointer : Bool) (t : TypeExpr) : Part sources (resolveWith sources behindPointer t)
  | expression (e : Expr) : Part sources (typed sources e)
  | declaration (name : String) (type : ValueType) (l : Location) : Part sources (declare name type l)
  /-- The name of a struct, before its members. -/
  | structName (name : String) (l : Location) :
      Part sources (changeTypes l fun types => types.add name (.namedStruct name))
  /-- The head of a function, before its body. -/
  | head (head : FunctionHead) (l : Location) : Part sources (openDefinition sources head l)
  | params (params : List Param) (types : List ValueType) : Part sources (modifyScope (bindParams params types))
  | statement (line : Stmt) : Part sources (statement sources line)

theorem Part.ends {T : Course} (hT : Respects T sources) {α : Type} {p : Check α}
    (h : Part sources p) : Ends T p := by
  cases h with
  | name name => exact hT.lookup name
  | typeName name => exact hT.needType name
  | type behindPointer t => exact hT.resolveWith behindPointer t .any
  | expression e => exact hT.typed e .any
  | declaration name type l => exact hT.declare name type l trivial
  | structName name l => exact hT.changeTypes l trivial fun _ _ h => .type h
  | head head l => exact hT.openDefinition head l .any trivial
  | params params types => exact hT.bindParams params types
  | statement line => exact hT.statement line .any

/-- States that a check goes through: behind each of its parts, and where the parts inside a block, a
function, a header or an included file begin. -/
inductive Reached (config : Config) : CheckState → Prop where
  | start (path : Option Path) : Reached config (CheckedUnit.startState path)
  | behind {s : CheckState} {α : Type} {p : Check α} (depth : Nat) :
      Part (sourcesTo config depth) p → Reached config s → Reached config (stateAfter p s)
  | block {s : CheckState} : Reached config s →
      Reached config { s with blockDepth := s.blockDepth + 1 }
  | breakable {s : CheckState} : Reached config s →
      Reached config { s with breakableDepth := s.breakableDepth + 1 }
  | body {s : CheckState} (f : FunctionContext) : s.atTopLevel = true → Reached config s →
      Reached config { s with function := some f, environment := s.environment.enter }
  | header {s : CheckState} : Reached config s → Reached config s.openHeader
  | file {s : CheckState} {path : Path} : s.Admits path → Reached config s →
      Reached config (s.openFile path)

theorem furnished_startState (path : Option Path) : (CheckedUnit.startState path).Furnished := by
  have hbuiltin : ({} : Scope).KnowsTypes (Scalar.builtin.map Scalar.name) := by
    unfold Scope.KnowsTypes
    decide +kernel
  have hordered (before after : List String) (h : [] = before ++ Header.string.name :: after) :
      Header.stdlib.name ∈ before := by
    simp at h
  cases path <;> exact ⟨nofun, hbuiltin, nofun, List.nodup_nil, hordered⟩

namespace Reached

theorem furnished (h : Reached config s) : s.Furnished := by
  induction h with
  | start path => exact furnished_startState path
  | behind depth hp _ ih => exact hp.ends ((furnished_tolerates config).respects depth) _ ih
  | block _ ih | breakable _ ih | body _ _ _ ih | header _ ih | file _ _ ih => exact ih.congr rfl rfl

theorem visible (h : Reached config s) : s.Visible := by
  induction h with
  | start path => cases path <;> exact nofun
  | behind depth hp _ ih => exact hp.ends ((visible_tolerates config).respects depth) _ ih
  | body f _ _ ih => exact ih.enter f
  | header => exact nofun
  | block _ ih | breakable _ ih | file _ _ ih => exact ih.congr rfl

/-- The names of types lead to types. -/
theorem grounded (h : Reached config s) : s.scope.types.Grounded := by
  suffices hall : s.Grounded from hall _ s.scope_mem_frames
  induction h with
  | start path =>
    intro frame hframe
    obtain rfl : frame = {} := by cases path <;> simpa [CheckedUnit.startState, CheckState.frames] using hframe
    exact TypeTable.grounded_builtin
  | behind depth hp _ ih => exact hp.ends ((grounded_tolerates config).respects depth) _ ih
  | body f _ _ ih => exact ih.enter f
  | header _ ih => exact fun frame hframe => ih frame (List.mem_append_right _ hframe)
  | block _ ih | breakable _ ih | file _ _ ih => exact ih

end Reached

/-! ### Reading a header -/

/-- What reading a header leaves as it was, and what it adds. -/
structure Transparent (header : Header) (s s' : CheckState) : Prop where
  /-- Every scope goes on saying what it said; there are as many as before. -/
  frames : List.Forall₂ Scope.ExtendsTo s.frames s'.frames
  declares : ∀ frame ∈ s'.frames, frame.Declares header
  /-- The function, the depths of blocks and the files that are open are as they were. -/
  others : s' = { s with environment := s'.environment, headers := s'.headers }
  headers : s.headers <+: s'.headers
  nodup : s'.headers.Nodup
  listed : header.name ∈ s'.headers
  /-- A header stands behind the one that it includes. -/
  ordered : ∀ before after, s'.headers = before ++ Header.string.name :: after →
    Header.stdlib.name ∈ before

theorem visible_load (sources : Sources) (header : Header) :
    Ends (Always fun s s' => s.Visible → s'.Visible) (loadHeader sources header) := by
  intro s
  apply (visible_tolerates {}).chains.loadHeader fun _ _ => trivial
  · exact fun _ _ _ _ _ _ _ => .closeHeader _ _
  · intro _ _ s' _ _ _ _
    dsimp only
    split
    · exact .closeHeader _ _
    · exact (CheckState.Visible.closeHeader s s').congr rfl

/-- In a scope that every local one covers, what the global scope declares all scopes declare. -/
theorem declares_frames (h : s.Visible) (hglobal : s.environment.global.Declares header) :
    ∀ frame ∈ s.frames, frame.Declares header := by
  intro frame hframe
  rcases List.mem_append.mp hframe with hframe | hframe
  · exact (h frame hframe).declares hglobal
  · rw [List.mem_singleton.mp hframe]
    exact hglobal

/-- Wherever a check stands, local scopes know the names of the global scope, and reading a header is
transparent. -/
theorem Reached.load_transparent (h : Reached config s) :
    (∀ frame ∈ s.environment.locals, s.environment.global.CoveredBy frame) ∧
    ∀ depth header s', header ∈ Header.standard →
      (loadHeader (sourcesTo config depth) header).run s = .ok () s' → Transparent header s s' := by
  refine ⟨h.visible, fun depth header s' hmem hrun => ?_⟩
  have heffect := (load_reads config depth hmem s).ok hrun h.furnished
  have hvisible : s'.Visible := (visible_load _ header s).ok hrun h.visible
  have hlisted := mem_headers_of_load hrun
  exact
    { frames := List.rel_append heffect.locals (.cons heffect.global .nil)
      declares := declares_frames hvisible (heffect.furnished.declared header hmem hlisted)
      others := heffect.others
      headers := heffect.headers
      nodup := heffect.furnished.nodup
      listed := hlisted
      ordered := heffect.furnished.ordered }

/-- The state at the head of a loop in a function. -/
def loopBody : CheckState where
  environment := ({} : Environment).enter
  function := some { name := "count", returns := some .int }
  breakableDepth := 1
  blockDepth := 1

/-- The state in the loop, behind the declaration of a variable. -/
def insideLoop : CheckState := stateAfter (declare "total" .int default) loopBody

theorem insideLoop_reads_assert : ∃ s', Reached {} insideLoop ∧
      (loadHeader (sourcesTo {} 0) Header.assert).run insideLoop = .ok () s' ∧
      insideLoop.environment.global.CoveredBy insideLoop.scope ∧
      Transparent Header.assert insideLoop s' := by
  have hloop : Reached {} loopBody := .block (.breakable (.body _ rfl (.start none)))
  have hreached : Reached {} insideLoop := .behind 0 (.declaration "total" .int default) hloop
  have hread : (failureAfter (loadHeader (sourcesTo {} 0) Header.assert) insideLoop).isNone = true := by
    decide +kernel
  unfold failureAfter at hread
  cases hrun : (loadHeader (sourcesTo {} 0) Header.assert).run insideLoop with
  | error failure s' =>
    rw [hrun] at hread
    cases hread
  | ok a s' =>
    obtain ⟨hvisible, hload⟩ := hreached.load_transparent
    refine ⟨s', hreached, rfl, hvisible _ List.mem_cons_self, hload 0 .assert s' ?_ hrun⟩
    simp [Header.standard]

end Check

end Offside
