import Offside.Proofs.Check.Onward

/-! Statements that hold no others go by stages.

What holds between the steps of a check (`CheckState.Orderly`) is what these steps rest on: a statement that
declares, a result and the head of a function each lead onward from an orderly state. -/
namespace Offside

open List

variable {params : List Param} {body : List Stmt} {types : List ValueType} {m : Mark}
    {function : String} {type : ValueType}

/-- Outside functions only the global scope is there. -/
def CheckState.Level (s : CheckState) : Prop := s.function = none → s.environment.locals = []

/-- At the same place there are as many scopes, and a function if there was one. -/
theorem CheckState.Level.situated {s s' : CheckState} (h : s.Level) (hplace : s.Situated s') : s'.Level := by
  intro hnone
  have hfunction : s.function = none := by
    rw [← Option.not_isSome_iff_eq_none, ← hplace.inFunction, hnone]
    exact Bool.false_ne_true
  have hlength := hplace.locals
  rw [h hfunction] at hlength
  exact length_eq_zero_iff.mp hlength

/-- What holds wherever a check stands. -/
structure CheckState.Orderly (s : CheckState) : Prop where
  furnished : s.Furnished
  visible : s.Visible
  level : s.Level

namespace CheckState.Orderly

variable {config : Config} {s s' : CheckState}

variable (hs : s.Orderly)
include hs

/-- Behind a part that respects whatever checks respect. -/
theorem keeps {α : Type} {p : Check α} {a : α}
    (hp : ∀ R, Check.Tolerates R config → EndsFrom (Always R) p s) (h : p.run s = .ok a s') :
    s'.Orderly where
  furnished := (hp _ (Check.furnished_tolerates config)).ok h hs.furnished
  visible := (hp _ (Check.visible_tolerates config)).ok h hs.visible
  level := hs.level.situated ((hp _ (Check.situated_tolerates config)).ok h)

theorem knowsBuiltin : s.scope.KnowsTypes (Scalar.builtin.map Scalar.name) :=
  fun name hname => hs.visible.current.types name (hs.furnished.builtin name hname)

/-- Outside functions, names are declared in the global scope. -/
theorem onGlobal (hfunction : s.function = none) : Check.OnGlobal s := ⟨hs.level hfunction, hs.furnished.rooted⟩

/-- In the same surroundings, with the same scopes. -/
theorem congr (henvironment : s'.environment = s.environment)
    (hfunction : s'.function = s.function) (hheaders : s'.headers = s.headers) : s'.Orderly where
  furnished := hs.furnished.congr (by rw [henvironment]) hheaders
  visible := hs.visible.congr henvironment
  level h := by
    rw [henvironment]
    exact hs.level (hfunction ▸ h)

theorem openHeader : s.openHeader.Orderly := ⟨hs.furnished.congr rfl rfl, nofun, fun _ => rfl⟩

/-- The body of a function begins in a scope of its own. -/
theorem enter (function : FunctionContext) :
    Orderly { s with function := some function, environment := s.environment.enter } :=
  ⟨hs.furnished.congr rfl rfl, hs.visible.enter function, nofun⟩

end CheckState.Orderly

/-- A name that the language has no meaning for names an enumeration. -/
theorem Scalar.ofName_eq_enum {name : String}
    (h : ∀ s ∈ Scalar.null :: Scalar.vararg :: Scalar.builtin, s.name ≠ name) :
    Scalar.ofName name = .enum name := by
  unfold ofName
  rw [find?_eq_none.mpr fun s hs => by simpa using h s hs]
  rfl

namespace Check

variable {config : Config} {depth : Nat} {s s' : CheckState} {l : Location} {value : Option Expr}
    {name : String} {a : Unit}

/-! ### Statements that declare -/

theorem implicit_onward {value : Expr} {checked : Stmt} (hs : s.Furnished)
    (h : (implicitDeclaration (sourcesTo config depth) m name value l).run s = .ok checked s') :
    Onward config .statements s s' := by
  unfold implicitDeclaration at h
  obtain ⟨⟨value', type⟩, s1, htyped, h⟩ := run_bind_ok.mp h
  obtain ⟨_, s2, hstored, h⟩ := run_bind_ok.mp h
  obtain ⟨_, s3, hdeclare, h⟩ := run_bind_ok.mp h
  cases h
  rw [(require_ok hstored).2] at hdeclare
  obtain ⟨_, rfl⟩ := declare_sets hdeclare
  have hstored := (require_ok hstored).1
  intro c
  obtain ⟨c1, hread⟩ := (((listens_sourcesTo config depth).typed value .any).ok htyped rfl hs).2 c
  have hvalue := typed_has hs htyped
  refine (Passes.value name hread hvalue (by simpa using hstored)).reaches ?_
  exact congrArg s1.setScope (Frame.scope_declare _ name type rfl)

theorem assignment_onward {target value : Expr} {checked : Stmt} (hs : s.Furnished)
    (h : (assignment (sourcesTo config depth) m target value).run s = .ok checked s') :
    Onward config .statements s s' := by
  have hT := listens_sourcesTo config depth
  unfold assignment at h
  split at h
  · rename_i _ name
    obtain ⟨found, s1, hlookup, h⟩ := run_bind_ok.mp h
    obtain ⟨hs1, hread⟩ := (hT.lookup name s).ok hlookup rfl hs
    cases found with
    | none => exact hread.lines.statements.trans (implicit_onward hs1 h)
    | some type =>
      refine (hread.trans (EndsFrom.ok (T := Listens config) ?_ h rfl hs1).2).lines.statements
      exact hT.bind (hT.require _ _ _ rfl trivial) (fun _ => hT.bind (hT.typed value .any) fun _ =>
        hT.bind (hT.require _ _ _ rfl trivial) fun _ => hT.pure _) s1
  · refine (EndsFrom.ok (T := Listens config) ?_ h rfl hs).2.lines.statements
    exact hT.bind (hT.typed target .any) (fun _ => hT.bind (hT.require _ _ _ rfl trivial) fun _ =>
      hT.bind (hT.typed value .any) fun _ => hT.bind (hT.require _ _ _ rfl trivial) fun _ => hT.pure _) s

theorem define_onward {checked : Option Expr} (hs : s.Furnished)
    (h : (define (sourcesTo config depth) name value l).run s = .ok checked s') :
    Onward config .statements s s' := by
  unfold define at h
  cases value with
  | none =>
    cases h
    exact (Onward.step fun history => ⟨_, .noted s.scope.definedFunctions _, rfl⟩).statements
  | some e =>
    obtain ⟨⟨value, type⟩, s1, htyped, h⟩ := run_bind_ok.mp h
    obtain ⟨_, s2, hdeclare, h⟩ := run_bind_ok.mp h
    obtain ⟨_, s3, hconstants, h⟩ := run_bind_ok.mp h
    cases h
    obtain ⟨hbinding, rfl⟩ := declare_sets hdeclare
    rw [modifyScope_sets hconstants, CheckState.setScope_setScope, CheckState.scope_setScope]
    intro c
    obtain ⟨c1, hread⟩ := (((listens_sourcesTo config depth).typed e .any).ok htyped rfl hs).2 c
    have hvalue := typed_has hs htyped
    refine (Passes.define name hread hvalue).reaches (congrArg s1.setScope ?_)
    have hkept : (s1.scope.bind name type).2.constants = s1.scope.constants := by
      obtain hb | hb := s1.scope.bind_cases name type <;> rw [hb]
      rfl
    refine (Frame.scope_declare_of_bind (f := ⟨s1.scope, c1.current⟩) _ hbinding).trans ?_
    dsimp only [Stage.frame]
    rw [hkept]
    cases value.fold s1.scope.constants <;> rfl

theorem structMembers_forms {fields : List Field} {members : List (String × ValueType)} (hs : s.Furnished)
    (h : (structMembers (sourcesTo config depth) name fields).run s = .ok members s') :
    ∀ m ∈ members, s'.scope.types.Forms false m.2 ∧ m.2.isVoid = false ∧ m.2.holds name = false := by
  have hload := reads_sourcesTo config depth
  induction fields generalizing s members with
  | nil =>
    cases h
    exact nofun
  | cons f rest ih =>
    obtain ⟨type, s1, htype, h⟩ := run_bind_ok.mp h
    obtain ⟨_, s2, hvoid, h⟩ := run_bind_ok.mp h
    obtain ⟨_, s3, hholds, h⟩ := run_bind_ok.mp h
    obtain ⟨more, s4, hmore, h⟩ := run_bind_ok.mp h
    cases h
    rw [(require_ok hholds).2, (require_ok hvoid).2] at hmore
    have hs1 := (reads_scope (hload.resolve f.type .any) hs htype).1
    have hkept := (reads_scope (hload.structMembers name rest fun _ _ => .any) hs1 hmore).2
    intro m hm
    rcases mem_cons.mp hm with rfl | hm
    · refine ⟨(resolve_forms hload hs htype).extend hkept.types, ?_, ?_⟩
      · simpa using (require_ok hvoid).1
      · simpa using (require_ok hholds).1
    · exact ih hs1 hmore m hm

theorem struct_onward {fields : List Field} (hs : s.Orderly)
    (h : (Check.struct (sourcesTo config depth) name fields l).run s = .ok a s') :
    Onward config .statements s s' := by
  obtain ⟨_, s1, hname, h⟩ := run_bind_ok.mp h
  obtain ⟨members, s2, hmembers, h⟩ := run_bind_ok.mp h
  cases h
  obtain ⟨types, hadd, rfl⟩ := changeTypes_sets hname
  have hs1 : (s.setTypes types).Furnished := furnished_setScope hs.furnished id (Scope.Addition.type hadd).coveredBy
  have hread := (((listens_sourcesTo config depth).structMembers name fields fun _ _ => .any).ok hmembers rfl hs1).2
  intro c
  obtain ⟨c1, hread⟩ := hread (Stage.setTypes ⟨s, c⟩ types).chronicle
  have hpasses : Passes config .statements ⟨s, c⟩ _ := .struct hadd hread (structMembers_forms hs1 hmembers)
  exact hpasses.reaches rfl

/-- Members of an enumeration, whose name has been entered. -/
theorem enumMembers_onward {value : Nat} {members : List String}
    (hentry : s.scope.types.entry? name = some (.base (.scalar (.enum name))))
    (h : (enumMembers (.scalar (.enum name)) l value members).run s = .ok a s') :
    Onward config .statements s s' := by
  induction members generalizing s value with
  | nil =>
    cases h
    exact .refl _
  | cons member rest ih =>
    obtain ⟨_, s1, hdeclare, hafter⟩ := run_bind_ok.mp h
    obtain ⟨_, s2, hconstants, hrest⟩ := run_bind_ok.mp hafter
    obtain ⟨hbinding, rfl⟩ := declare_sets hdeclare
    rw [modifyScope_sets hconstants, CheckState.setScope_setScope, CheckState.scope_setScope] at hrest
    have hscope (history : History) := Frame.scope_declare_of_bind (f := ⟨s.scope, history⟩) (.member value) hbinding
    refine Onward.trans ?_ (ih ?_ hrest)
    · exact .step fun history => ⟨_, .member member value hentry, hscope history⟩
    · rw [CheckState.scope_setScope, ← hentry]
      exact congrArg (TypeTable.entry? · name) ((congrArg Scope.types (hscope .start)).symm.trans
        (Frame.types_declare _ _ _ _))

theorem enum_onward {members : List String} (hs : s.Orderly)
    (hname : IsName name) (h : (Check.enum name members l).run s = .ok a s') :
    Onward config .statements s s' := by
  obtain ⟨_, s1, hchange, hmembers⟩ := run_bind_ok.mp h
  obtain ⟨types, hadd, rfl⟩ := changeTypes_sets hchange
  obtain ⟨hfree, htypes⟩ := TypeTable.add_ok hadd
  have henum : Scalar.ofName name = .enum name := by
    apply Scalar.ofName_eq_enum
    rintro scalar hscalar rfl
    rcases mem_cons.mp hscalar with rfl | hscalar
    · exact absurd hname (by decide)
    rcases mem_cons.mp hscalar with rfl | hbuiltin
    · exact absurd hname (by decide)
    · rw [hs.knowsBuiltin _ (mem_map_of_mem hbuiltin)] at hfree
      cases hfree
  rw [henum] at hadd hmembers htypes
  have hentry : (s.setTypes types).scope.types.entry? name = some (.base (.scalar (.enum name))) := by
    show TypeTable.entry? (s.setScope _).scope.types name = _
    rw [CheckState.scope_setScope, htypes, TypeTable.entry_insert, if_pos rfl]
  exact Onward.trans (.step fun history => ⟨_, .enum henum hadd, rfl⟩) (enumMembers_onward hentry hmembers)

theorem typedef_onward {target : TypeExpr} (hs : s.Furnished)
    (h : (Check.typedef (sourcesTo config depth) target name l).run s = .ok a s') :
    Onward config .statements s s' := by
  have hT := listens_sourcesTo config depth
  have hother {t : CheckState} (ht : t.Furnished)
      (h : (do
        let type ← resolve (sourcesTo config depth) target
        changeTypes l fun types => types.addTypedef name type).run t = .ok a s') :
      Onward config .statements t s' := by
    obtain ⟨type, t1, htype, h⟩ := run_bind_ok.mp h
    obtain ⟨types, hadd, rfl⟩ := changeTypes_sets h
    have hforms := resolve_forms (reads_sourcesTo config depth) ht htype
    refine ((hT.resolve target .any).ok htype rfl ht).2.lines.statements.trans ?_
    exact .step fun history => ⟨_, .typedef hforms hadd, rfl⟩
  unfold typedef at h
  split at h
  · rename_i span targetName
    obtain ⟨_, s1, hneed, h⟩ := run_bind_ok.mp h
    obtain ⟨hs1, hread⟩ := (hT.needType targetName s).ok hneed rfl hs
    obtain ⟨_, _, hscope, h⟩ := run_bind_ok.mp h
    cases hscope
    refine hread.lines.statements.trans ?_
    split at h
    · obtain ⟨types, hadd, rfl⟩ := changeTypes_sets h
      exact (Onward.step fun history => ⟨_, .synonym hadd, rfl⟩).statements
    · exact hother hs1 h
  · exact hother hs h

/-! ### Results -/

/-- Behind a result the function is as it was, or has got the type of its results. -/
theorem matchResult_state {function : FunctionContext} {value' : Option Expr} {found : ValueType}
    {origin : ValueOrigin} (h : (matchResult function value found origin l).run s = .ok value' s') :
    s' = s ∨ s' = { s with function := some { function with inferred := some found.decay } } := by
  unfold matchResult at h
  dsimp only at h
  split at h
  · obtain ⟨_, s1, hfits, hrest⟩ := run_bind_ok.mp h
    cases hrest
    exact .inl (require_ok hfits).2
  · obtain ⟨_, s1, hinfer, hrest⟩ := run_bind_ok.mp h
    cases hrest
    obtain ⟨_, s2, hkind, hinfer⟩ := run_bind_ok.mp hinfer
    rw [(require_ok hkind).2] at hinfer
    split at hinfer
    · exact .inl (require_ok hinfer).2
    · cases hinfer
      exact .inr rfl

theorem result_onward {value' : Option Expr} (hs : s.Furnished)
    (h : (result (sourcesTo config depth) value l).run s = .ok value' s') :
    Onward config .statements s s' := by
  unfold result at h
  obtain ⟨_, _, hget, hresult⟩ := run_bind_ok.mp h
  cases hget
  cases hfunction : s.function with
  | none =>
    rw [hfunction] at hresult
    cases hresult
  | some function =>
    rw [hfunction] at hresult
    cases value with
    | none =>
      have hmatch : (matchResult function none .void .value l).run s = .ok value' s' := hresult
      obtain rfl | rfl := matchResult_state hmatch
      · exact .refl _
      · exact fun c => (Passes.noResult (a := ⟨s, c⟩) function).reaches rfl
    | some e =>
      obtain ⟨⟨checked, type⟩, s1, htyped, hrest⟩ := run_bind_ok.mp hresult
      have hmatch : (matchResult function (some checked) type e.origin l).run s1 = .ok value' s' := hrest
      have hread := (((listens_sourcesTo config depth).typed e .any).ok htyped rfl hs).2
      obtain rfl | rfl := matchResult_state hmatch
      · exact hread.lines.statements
      · intro c
        obtain ⟨c1, hread⟩ := hread c
        have hvalue := typed_has hs htyped
        exact (Passes.result function hread hvalue).reaches rfl

/-! ### Functions -/

end Check

/-- What a parameter may have for a type, it still may in a scope that says as much. -/
theorem Param.Takes.extend {s s' : Scope} {p : Param} (h : p.Takes s function type) (hnames : s.Keeps s')
    (htypes : ∀ name entry, s.types.entry? name = some entry → s'.types.entry? name = some entry) :
    p.Takes s' function type := by
  unfold Param.Takes at h ⊢
  split at h
  · obtain ⟨params, returns, hlookup, hmem⟩ := h
    exact ⟨params, returns, hnames _ _ hlookup, hmem⟩
  · exact h.extend htypes

namespace Check

variable {config : Config} {depth : Nat} {sources : Sources} {s s' : CheckState} {l : Location}
  {head : FunctionHead} {types : List ValueType} {returns : Option ValueType}

theorem Writes.takes {scope : Scope} (h : Writes scope.types params types)
    (function : String) : List.Forall₂ (Param.Takes scope function) params types := by
  refine h.imp fun p type hp => ?_
  unfold Param.Takes
  split
  · rename_i hkind
    exact absurd hkind (hp.1 _)
  · exact hp.2

theorem matchParams_takes (hload : Loads (Reads False) sources) {announced all : List ValueType}
    {result : ValueType} (hs : s.Furnished)
    (hlookup : s.scope.lookup function = some (.function all result)) (hsub : announced ⊆ all)
    (hlength : params.length = announced.length)
    (h : (matchParams sources function params announced).run s = .ok types s') :
    List.Forall₂ (Param.Takes s'.scope function) params types := by
  induction params generalizing s announced types with
  | nil =>
    cases h
    exact .nil
  | cons p rest ih =>
    cases announced with
    | nil => cases hlength
    | cons t others =>
      obtain ⟨first, s1, hfirst, h1⟩ := run_bind_ok.mp h
      obtain ⟨_, s2, hsame, h2⟩ := run_bind_ok.mp h1
      obtain ⟨more, s3, hmore, h3⟩ := run_bind_ok.mp h2
      cases h3
      rw [(require_ok hsame).2] at hmore
      obtain ⟨hs1, hkept⟩ := reads_scope (hload.paramType function (some t) p .any) hs hfirst
      have hafter := (reads_scope (hload.matchParams function rest others fun _ _ => .any) hs1 hmore).2
      have hothers : others ⊆ all := fun x hx => hsub (mem_cons_of_mem _ hx)
      refine .cons ?_ (ih hs1 (hkept.names _ _ hlookup) hothers (Nat.succ.inj hlength) hmore)
      refine Param.Takes.extend ?_ hafter.names hafter.types
      unfold paramType at hfirst
      unfold Param.Takes
      split at hfirst
      · rename_i hkind
        cases hfirst
        rw [hkind]
        exact .scalar mem_cons_self
      · rename_i hkind
        rw [hkind]
        exact resolve_forms hload hs hfirst
      · rename_i hkind
        cases hfirst
        rw [hkind]
        exact ⟨all, result, hlookup, hsub mem_cons_self⟩

/-- The types of a definition are written out, or its name is known. -/
theorem definitionTypes_takes (hload : Loads (Reads False) sources) (hs : s.Furnished)
    (h : (definitionTypes sources head l).run s = .ok (types, returns) s') :
    (Writes s'.scope.types head.params types ∧ ∀ r, returns = some r → s'.scope.types.Forms false r) ∨
    (∃ previous, s'.scope.lookup head.name = some previous) ∧ returns.isSome ∧
      List.Forall₂ (Param.Takes s'.scope head.name) head.params types := by
  unfold definitionTypes at h
  obtain ⟨_, _, hscope, h0⟩ := run_bind_ok.mp h
  cases hscope
  split at h0
  · obtain ⟨types', s1, htypes, h1⟩ := run_bind_ok.mp h0
    obtain ⟨returns', s2, hreturns, h2⟩ := run_bind_ok.mp h1
    cases h2
    have hs1 := (reads_scope (hload.paramTypes head.name head.params fun _ _ => .any) hs htypes).1
    have hkept := (reads_scope (hload.resolveOption head.returns fun _ _ => .any) hs1 hreturns).2
    refine .inl ⟨?_, resolveOption_forms hload hs1 hreturns⟩
    exact (paramTypes_writes hload hs htypes).imp fun _ _ hp => ⟨hp.1, hp.2.extend hkept.types⟩
  · rename_i announced result hlookup
    obtain ⟨_, s1, hlength, h1⟩ := run_bind_ok.mp h0
    obtain ⟨types', s2, htypes, h2⟩ := run_bind_ok.mp h1
    have hlength' : head.params.length = announced.length := by simpa using (require_ok hlength).1
    rw [(require_ok hlength).2] at htypes
    obtain ⟨hs2, hkept⟩ := reads_scope (hload.matchParams head.name head.params announced fun _ _ => .any) hs htypes
    have htakes := matchParams_takes hload hs hlookup (List.Subset.refl _) hlength' htypes
    have hknown := hkept.names _ _ hlookup
    split at h2
    · cases h2
      exact .inr ⟨⟨_, hknown⟩, rfl, htakes⟩
    · obtain ⟨r, s3, hr, h3⟩ := run_bind_ok.mp h2
      obtain ⟨_, s4, hsame, h4⟩ := run_bind_ok.mp h3
      cases h4
      have hafter := (reads_scope (hload.resolve _ .any) hs2 hr).2
      rw [(require_ok hsame).2]
      refine .inr ⟨⟨_, hafter.names _ _ hknown⟩, rfl, htakes.imp fun _ _ hp => ?_⟩
      exact hp.extend hafter.names hafter.types
  · cases h0

theorem openDefinition_onward (hs : s.Orderly)
    (h : (openDefinition (sourcesTo config depth) head l).run s = .ok (types, returns) s') :
    Onward config .lines s s' ∧ head.Takes s'.scope types returns := by
  have htop := openDefinition_atTopLevel (sourcesTo_secludes config depth) h
  obtain ⟨s0, scope, hdefinition, hscope, rfl⟩ := openDefinition_ok h
  have hs0 : s0.Orderly :=
    hs.keeps (fun R hR => (hR.respects depth).definitionTypes head l .any trivial s) hdefinition
  have hfunction : s0.function = none := by
    simp only [CheckState.atTopLevel, Bool.and_eq_true, Option.isNone_iff_eq_none] at htop
    exact htop.1
  have hrooted : scope.Rooted := hscope ▸ (hs0.onGlobal hfunction).scope_rooted
  have hread := (((listens_sourcesTo config depth).definitionTypes head l .any trivial).ok hdefinition rfl
    hs.furnished).2
  have hnoted : Onward config .lines s0 (s0.setScope scope) := by
    rw [hscope]
    exact .step fun history => ⟨_, .noted _ s0.scope.macros, rfl⟩
  have hnames : s0.scope.Keeps scope := hscope ▸ .refl _
  have htypes : scope.types = s0.scope.types := by rw [hscope]
  have hcases := definitionTypes_takes (reads_sourcesTo config depth) hs.furnished hdefinition
  rw [← htypes] at hcases
  have hheading : List.Forall₂ (Param.Takes scope head.name) head.params types := by
    rcases hcases with ⟨hwrites, _⟩ | ⟨_, _, htakes⟩
    · exact hwrites.takes head.name
    · exact htakes.imp fun _ _ hp => hp.extend hnames (by rw [htypes]; exact fun _ _ => id)
  rw [CheckState.scope_setScope]
  cases returns with
  | none =>
    refine ⟨hread.lines.trans hnoted, hheading, fun _ => ?_⟩
    rcases hcases with ⟨hwrites, _⟩ | ⟨_, hsome, _⟩
    · exact hwrites.forms
    · cases hsome
  | some r =>
    dsimp only
    have hbind := hrooted.bind head.name (.function types r)
    constructor
    · have hdeclare : Onward config .lines (s0.setScope scope) ((s0.setScope scope).setScope
          ((s0.setScope scope).scope.bind head.name (.function types r)).2) := by
        refine .declare (show Origin.function.sets = none from rfl) fun history => ?_
        rw [CheckState.scope_setScope]
        rcases hcases with ⟨hwrites, hresult⟩ | ⟨⟨previous, hknown⟩, _⟩
        · exact .function head.name (.function hwrites.forms (hresult r rfl))
        · exact .known _ hrooted (hnames _ _ hknown)
      rw [CheckState.setScope_setScope, CheckState.scope_setScope] at hdeclare
      exact (hread.lines.trans hnoted).trans hdeclare
    · refine ⟨hheading.imp fun _ _ hp => ?_, nofun⟩
      exact hp.extend hbind.2.names hbind.2.types

end Check

end Offside
