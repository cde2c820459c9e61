import Offside.Proofs.Check.OnwardStatements

/-! Every check goes by stages.

The steps of `Check.Passes` are all that a check does: whatever statements are checked, from whatever
state, there is a chronicle that leads from the state before them to the state behind them
(`Check.statements_proceeds`). So every state that a check visits (`Check.Visited`) belongs to a stage that
is passed (`Check.Visited.passed`). -/
namespace Offside

open List

variable {params : List Param} {body : List Stmt} {types : List ValueType} {m : Mark}
    {function : String} {type : ValueType}

namespace Check

variable {config : Config} {depth : Nat} {sources : Sources} {s s' : CheckState} {l : Location}
  {head : FunctionHead} {types : List ValueType} {returns : Option ValueType}

/-! ### All statements -/

/-- A course that goes on by the steps of a check. -/
def Proceeds (config : Config) : Course := fun s failure s' =>
  failure = none → s.Orderly → s'.Orderly ∧ Onward config .statements s s'

theorem proceeds_chains (config : Config) : Chains (Proceeds config) where
  refl s _ hs := ⟨hs, .refl s⟩
  trans h h' hfailure hs := by
    obtain ⟨ht, hfirst⟩ := h rfl hs
    obtain ⟨hu, hsecond⟩ := h' hfailure ht
    exact ⟨hu, hfirst.trans hsecond⟩
  fail _ _ _ := nofun

section

variable {α : Type} {p : Check α}

/-- Parts that respect whatever checks respect leave an orderly state. -/
theorem proceeds_of (hkeeps : ∀ R, Tolerates R config → Ends (Always R) p)
    (h : ∀ a s s', s.Orderly → p.run s = .ok a s' → Onward config .statements s s') :
    Ends (Proceeds config) p := by
  intro s
  apply endsFrom_of_run
  · exact fun a s' hrun _ hs => ⟨hs.keeps (fun R hR => hkeeps R hR s) hrun, h a s s' hs hrun⟩
  · exact fun _ _ _ => nofun

theorem proceeds_of_listens (hkeeps : ∀ R, Tolerates R config → Ends (Always R) p)
    (h : Ends (Listens config) p) : Ends (Proceeds config) p :=
  proceeds_of hkeeps fun _ s _ hs hrun => ((h s).ok hrun rfl hs.furnished).2.lines.statements

theorem inBlock_proceeds (h : Ends (Proceeds config) p) : Ends (Proceeds config) (inBlock p) := by
  intro s
  unfold inBlock
  rw [endsFrom_during]
  intro hfailure hs
  obtain ⟨ht, honward⟩ :=
    h { s with blockDepth := s.blockDepth + 1 } hfailure (hs.congr rfl rfl rfl)
  exact ⟨ht.congr rfl rfl rfl, honward.around ⟨rfl, rfl⟩ ⟨rfl, rfl⟩⟩

theorem inBreakable_proceeds (h : Ends (Proceeds config) p) :
    Ends (Proceeds config) (inBreakable p) := by
  intro s
  unfold inBreakable
  rw [endsFrom_during]
  intro hfailure hs
  obtain ⟨ht, honward⟩ :=
    inBlock_proceeds h { s with breakableDepth := s.breakableDepth + 1 } hfailure
      (hs.congr rfl rfl rfl)
  exact ⟨ht.congr rfl rfl rfl, honward.around ⟨rfl, rfl⟩ ⟨rfl, rfl⟩⟩

end

theorem typed_proceeds (e : Expr) : Ends (Proceeds config) (typed (sourcesTo config depth) e) :=
  proceeds_of_listens (fun _ hR => (hR.respects depth).typed e .any) ((listens_sourcesTo config depth).typed e .any)

theorem condition_proceeds (e : Expr) (context : String) :
    Ends (Proceeds config) (condition (sourcesTo config depth) e context) :=
  proceeds_of_listens (fun _ hR => (hR.respects depth).condition e context .any)
    ((listens_sourcesTo config depth).condition e context .any)

/-- The body of a function begins with its parameters. -/
theorem enter_body {returns : Option ValueType} {a : Unit} (hs : s.Orderly)
    (h : (modifyScope (bindParams head.params types)).run
      { s with function := some { name := head.name, returns },
               environment := s.environment.enter } = .ok a s') :
    s'.Orderly ∧ ∀ c, (Stage.enter ⟨s, c⟩ head types returns).state = s' := by
  have hs' := (hs.enter { name := head.name, returns }).keeps (fun R (hR : Tolerates R {}) =>
    (hR.respects 0).bindParams head.params types _) h
  refine ⟨hs', fun c => ?_⟩
  rw [modifyScope_sets h]
  exact congrArg (CheckState.setScope _) (Frame.scope_bindParams _ head.params types _)

theorem function_proceeds (hbody : Ends (Proceeds config) (Check.statements (sourcesTo config depth) body)) :
    Ends (Proceeds config) (Check.statement (sourcesTo config depth) (.function m head body)) := by
  apply proceeds_of fun R hR => (hR.respects depth).statement _ .any
  intro a s s' hs h
  rw [Check.statement] at h
  obtain ⟨⟨types, returns⟩, s1, hopen, h1⟩ := run_bind_ok.mp h
  obtain ⟨⟨body', inferred⟩, s2, hinside, h2⟩ := run_bind_ok.mp h1
  obtain ⟨head', s3, hclose, h3⟩ := run_bind_ok.mp h2
  cases h3
  obtain ⟨honward, htakes⟩ := openDefinition_onward hs hopen
  have hs1 := hs.keeps (fun R hR => (hR.respects depth).openDefinition head _ .any trivial s) hopen
  obtain ⟨t, hpart, hleave⟩ := during_ok hinside
  obtain ⟨_, t1, hparams, hpart⟩ := run_bind_ok.mp hpart
  obtain ⟨ht1, henter⟩ := enter_body hs1 hparams
  obtain ⟨body'', t2, hstatements, hpart⟩ := run_bind_ok.mp hpart
  cases hpart
  refine honward.statements.trans fun c => ?_
  have hinside := ((hbody t1).ok hstatements rfl ht1).2
  obtain ⟨c', hpasses⟩ := hinside (Stage.enter ⟨s1, c⟩ head types returns).chronicle
  rw [← henter c] at hpasses
  have hfunction : Passes config .statements ⟨s1, c⟩ _ := .function htakes hpasses
  refine hfunction.reaches ?_
  rw [hleave] at hclose
  cases returns with
  | some r =>
    cases hclose
    rfl
  | none =>
    obtain ⟨_, s4, hdeclare, hdone⟩ := run_bind_ok.mp hclose
    cases hdone
    obtain ⟨_, rfl⟩ := declare_sets hdeclare
    exact congrArg (CheckState.setScope _) (Frame.scope_declare _ _ _ rfl)

/-- Includes that go on by the steps of a check. -/
def IncludesProceed (config : Config) (depth : Nat) : Prop :=
  ∀ (path : String) (l : Location) (s : CheckState), s.atTopLevel = true →
    EndsFrom (Proceeds config) ((sourcesTo config depth).follow path l) s

mutual

theorem statement_proceeds (hinclude : IncludesProceed config depth) : (line : Stmt) → line.WellFormed →
    Ends (Proceeds config) (Check.statement (sourcesTo config depth) line)
  | .function m head body, h => function_proceeds (statements_proceeds hinclude body h.2.2)
  | .ifElse _ c body orelse, h =>
    have hT := proceeds_chains config
    hT.bind (condition_proceeds c _) fun _ =>
      hT.bind (inBlock_proceeds (statements_proceeds hinclude body h.2.2.1)) fun _ =>
        hT.bind (inBlock_proceeds (statements_proceeds hinclude orelse h.2.2.2)) fun _ => hT.pure _
  | .whileLoop _ c body orelse, h =>
    have hT := proceeds_chains config
    hT.bind (condition_proceeds c _) fun _ =>
      hT.bind (inBreakable_proceeds (statements_proceeds hinclude body h.2.2.1)) fun _ =>
        hT.bind (inBlock_proceeds (statements_proceeds hinclude orelse h.2.2.2)) fun _ => hT.pure _
  | .doLoop _ body c, h =>
    have hT := proceeds_chains config
    hT.bind (inBreakable_proceeds (statements_proceeds hinclude body h.2.1)) fun _ =>
      hT.bind (condition_proceeds c _) fun _ => hT.pure _
  | .switch _ subject cases default, h =>
    have hT := proceeds_chains config
    hT.bind (typed_proceeds subject) fun r => hT.bind (hT.require _ _ _ rfl trivial) fun _ =>
      hT.bind (switchCases_proceeds hinclude r.2 cases h.2.2.1) fun _ =>
        hT.bind (defaultCase_proceeds hinclude default h.2.2.2) fun _ => hT.pure _
  | .includeFile _ path, _ => by
    have hT := proceeds_chains config
    intro s
    refine hT.seq (hT.get s) fun _ s' hget => ?_
    cases hget
    refine hT.seq (hT.requireFrom fun _ h => absurd h (Option.some_ne_none _)) fun _ s' hrun => ?_
    obtain ⟨htop, rfl⟩ := require_ok hrun
    exact hT.seq (hinclude path _ _ htop) fun _ s' _ => hT.pure _ s'
  | .expr _ e, _ =>
    (proceeds_chains config).bind (typed_proceeds e) fun _ => (proceeds_chains config).pure _
  | .declare _ d, _ => by
    apply proceeds_of fun R hR => (hR.respects depth).statement _ .any
    intro a s s' hs h
    obtain ⟨d', s1, hdeclare, h1⟩ := run_bind_ok.mp h
    cases h1
    exact (variable_onward (reads_sourcesTo config depth) (listens_sourcesTo config depth) hs.furnished
      hdeclare).statements
  | .assign m target value, _ =>
    proceeds_of (fun R hR => (hR.respects depth).statement _ .any) fun _ _ _ hs h =>
      assignment_onward hs.furnished h
  | .announce _ head, _ => by
    apply proceeds_of fun R hR => (hR.respects depth).statement _ .any
    intro a s s' hs h
    obtain ⟨head', s1, hannounce, h1⟩ := run_bind_ok.mp h
    cases h1
    exact (announce_onward (reads_sourcesTo config depth) (listens_sourcesTo config depth) hs.furnished
      hannounce).statements
  | .result _ value, _ => by
    apply proceeds_of fun R hR => (hR.respects depth).statement _ .any
    intro a s s' hs h
    obtain ⟨value', s1, hresult, h1⟩ := run_bind_ok.mp h
    cases h1
    exact result_onward hs.furnished hresult
  | .leave _, _ =>
    have hT := proceeds_chains config
    hT.bind hT.get fun _ =>
      hT.bind (fun _ => hT.requireFrom fun _ h => absurd h (Option.some_ne_none _)) fun _ => hT.pure _
  | .pass _, _ | .ifndef _ _, _ | .endif _, _ => (proceeds_chains config).pure _
  | .struct _ name fields, _ => by
    apply proceeds_of fun R hR => (hR.respects depth).statement _ .any
    intro a s s' hs h
    obtain ⟨_, s1, hstruct, h1⟩ := run_bind_ok.mp h
    cases h1
    exact struct_onward hs hstruct
  | .enum _ name members, hname => by
    apply proceeds_of fun R hR => (hR.respects depth).statement _ .any
    intro a s s' hs h
    obtain ⟨_, s1, henum, h1⟩ := run_bind_ok.mp h
    cases h1
    exact enum_onward hs hname.1 henum
  | .typedef _ target name, _ => by
    apply proceeds_of fun R hR => (hR.respects depth).statement _ .any
    intro a s s' hs h
    obtain ⟨_, s1, htypedef, h1⟩ := run_bind_ok.mp h
    cases h1
    exact typedef_onward hs.furnished htypedef
  | .define _ name value, _ => by
    apply proceeds_of fun R hR => (hR.respects depth).statement _ .any
    intro a s s' hs h
    obtain ⟨value', s1, hdefine, h1⟩ := run_bind_ok.mp h
    cases h1
    exact define_onward hs.furnished hdefine

theorem statements_proceeds (hinclude : IncludesProceed config depth) : (body : List Stmt) →
    Stmt.WellFormedList body → Ends (Proceeds config) (Check.statements (sourcesTo config depth) body)
  | [], _ => (proceeds_chains config).pure _
  | line :: rest, h =>
    have hT := proceeds_chains config
    hT.bind (statement_proceeds hinclude line h.1) fun _ =>
      hT.bind (statements_proceeds hinclude rest h.2) fun _ => hT.pure _

theorem switchCases_proceeds (hinclude : IncludesProceed config depth) (subject : ValueType) :
    (cases : List SwitchCase) → SwitchCase.WellFormedList cases →
    Ends (Proceeds config) (Check.switchCases (sourcesTo config depth) subject cases)
  | [], _ => (proceeds_chains config).pure _
  | c :: rest, h =>
    have hT := proceeds_chains config
    hT.bind (switchCase_proceeds hinclude subject c h.1) fun _ =>
      hT.bind (switchCases_proceeds hinclude subject rest h.2) fun _ => hT.pure _

theorem switchCase_proceeds (hinclude : IncludesProceed config depth) (subject : ValueType) :
    (c : SwitchCase) → c.WellFormed →
    Ends (Proceeds config) (Check.switchCase (sourcesTo config depth) subject c)
  | .mk _ values body, h =>
    have hT := proceeds_chains config
    have hlabels : Ends (Proceeds config) (caseLabels (sourcesTo config depth) subject none values) :=
      proceeds_of_listens (fun _ hR => (hR.respects depth).caseLabels subject none values .any)
        ((listens_sourcesTo config depth).caseLabels subject none values .any)
    hT.bind hlabels fun _ =>
      hT.bind (inBreakable_proceeds (statements_proceeds hinclude body h.2.2.2)) fun _ => hT.pure _

theorem defaultCase_proceeds (hinclude : IncludesProceed config depth) :
    (default : Option (List Stmt)) → Stmt.WellFormedBlock default →
    Ends (Proceeds config) (Check.defaultCase (sourcesTo config depth) default)
  | none, _ => (proceeds_chains config).pure _
  | some body, h =>
    have hT := proceeds_chains config
    hT.bind (inBreakable_proceeds (statements_proceeds hinclude body h.2)) fun _ => hT.pure _

end

/-- An include of a file checks its statements, one level down. -/
theorem includesProceed_succ (hinclude : IncludesProceed config depth) : IncludesProceed config (depth + 1) := by
  intro path l s htop
  apply endsFrom_of_run
  · intro a s' hrun _ hs
    refine ⟨hs.keeps (fun R hR => (hR.respects (depth + 1)).follow path l htop trivial) hrun, ?_⟩
    have h : (followInclude config (sourcesTo config depth) path l).run s = .ok a s' := hrun
    unfold followInclude at h
    obtain ⟨_, _, hget, h⟩ := run_bind_ok.mp h
    cases hget
    dsimp only at h
    split at h
    · rename_i file _
      obtain ⟨_, rfl⟩ | ⟨_, text, m, body, s1, _, hm, hbody, rfl⟩ := includeFile_ok h
      · exact .refl _
      · have hproceeds := statements_proceeds hinclude m.body (Module.ofText_wellFormed hm) (s.openFile file)
        exact (hproceeds.ok hbody rfl (hs.congr rfl rfl rfl)).2.around ⟨rfl, rfl⟩ ⟨rfl, rfl⟩
    · split at h
      · rename_i header hnamed
        have hload := (listens_sourcesTo config (depth + 1)).load (mem_of_find?_eq_some hnamed) s
        exact (hload.ok h rfl hs.furnished).2.lines.statements
      · cases h
  · exact fun _ _ _ => nofun

theorem includesProceed (config : Config) (depth : Nat) : IncludesProceed config depth := by
  induction depth with
  | zero => exact fun _ _ _ _ => nofun
  | succ depth ih => exact includesProceed_succ ih

/-! ### States that a check visits -/

/-- The parts of statements that only look for names and types. -/
inductive Inquiry (sources : Sources) : {α : Type} → Check α → Prop where
  | name (name : String) : Inquiry sources (lookup sources name)
  | typeName (name : String) : Inquiry sources (needType sources name)
  | type (behindPointer : Bool) (t : TypeExpr) : Inquiry sources (resolveWith sources behindPointer t)
  | expression (e : Expr) : Inquiry sources (typed sources e)

theorem Inquiry.ends {T : Course} {sources : Sources} (hT : Loads T sources) {α : Type} {p : Check α}
    (h : Inquiry sources p) : Ends T p := by
  cases h with
  | name name => exact hT.lookup name
  | typeName name => exact hT.needType name
  | type behindPointer t => exact hT.resolveWith behindPointer t .any
  | expression e => exact hT.typed e .any

/-- States that checks of programs visit: behind their statements, behind the names and types that are
looked for on the way, behind the name of a struct, and where blocks, the bodies of functions, headers and
included files begin. -/
inductive Visited (config : Config) : CheckState → Prop where
  | start (path : Option Path) : Visited config (CheckedUnit.startState path)
  | behind {s s' : CheckState} {line line' : Stmt} (depth : Nat) : Visited config s →
      line.WellFormed → (statement (sourcesTo config depth) line).run s = .ok line' s' →
      Visited config s'
  | within {s s' : CheckState} {α : Type} {p : Check α} {a : α} (depth : Nat) : Visited config s →
      Inquiry (sourcesTo config depth) p → p.run s = .ok a s' → Visited config s'
  | structName {s s' : CheckState} (name : String) (l : Location) : Visited config s →
      (changeTypes l fun types => types.add name (.namedStruct name)).run s = .ok () s' →
      Visited config s'
  | block {s : CheckState} : Visited config s →
      Visited config { s with blockDepth := s.blockDepth + 1 }
  | breakable {s : CheckState} : Visited config s →
      Visited config { s with breakableDepth := s.breakableDepth + 1 }
  | body {s t s' : CheckState} {head : FunctionHead} {l : Location} {types : List ValueType}
      {returns : Option ValueType} (depth : Nat) : Visited config s →
      (openDefinition (sourcesTo config depth) head l).run s = .ok (types, returns) t →
      (modifyScope (bindParams head.params types)).run
        { t with function := some { name := head.name, returns },
                 environment := t.environment.enter } = .ok () s' →
      Visited config s'
  | header {s : CheckState} : Visited config s → Visited config s.openHeader
  | file {s : CheckState} (path : Path) : Visited config s → s.Admits path →
      Visited config (s.openFile path)

theorem orderly_startState (path : Option Path) : (CheckedUnit.startState path).Orderly := by
  refine ⟨furnished_startState path, ?_, fun _ => ?_⟩ <;> cases path
  · exact nofun
  · exact nofun
  · rfl
  · rfl

namespace Visited

theorem statements {body' : List Stmt} (hs : Visited config s) (hbody : Stmt.WellFormedList body)
    (h : (Check.statements (sourcesTo config depth) body).run s = .ok body' s') : Visited config s' := by
  induction body generalizing s body' with
  | nil =>
    cases h
    exact hs
  | cons line rest ih =>
    obtain ⟨line', s1, hline, h⟩ := run_bind_ok.mp h
    obtain ⟨rest', s2, hrest, h⟩ := run_bind_ok.mp h
    cases h
    exact ih (hs.behind depth hbody.1 hline) hbody.2 hrest

/-- What is known at the end of a program is known in a state that its check visits. -/
theorem ofModule {m : Module} {path : Option Path} {unit : CheckedUnit}
    (hm : Stmt.WellFormedList m.body) (h : CheckedUnit.ofModule config m path = .ok unit) :
    ∃ s, Visited config s ∧ s.environment.global = unit.globals := by
  unfold CheckedUnit.ofModule at h
  split at h <;> cases h
  rename_i body s hrun
  exact ⟨s, (start path).statements hm hrun, rfl⟩

theorem ofText {file text : String} {unit : CheckedUnit} (h : CheckedUnit.ofText config file text = .ok unit) :
    ∃ s, Visited config s ∧ s.environment.global = unit.globals := by
  obtain ⟨m, hm, hmodule⟩ := CheckedUnit.ofText_ok h
  exact ofModule (Module.ofText_wellFormed hm) hmodule

theorem passed (h : Visited config s) : s.Orderly ∧ ∃ c, Passed config ⟨s, c⟩ := by
  induction h with
  | start path => exact ⟨orderly_startState path, _, .start path⟩
  | behind depth _ hline hrun ih =>
    obtain ⟨hs, c, hpassed⟩ := ih
    obtain ⟨hs', honward⟩ := (statement_proceeds (includesProceed config depth) _ hline _).ok hrun rfl hs
    obtain ⟨c', hpasses⟩ := honward c
    exact ⟨hs', c', hpassed.passes hpasses⟩
  | within depth _ hp hrun ih =>
    obtain ⟨hs, c, hpassed⟩ := ih
    have hs' := hs.keeps (fun R hR => hp.ends (hR.respects depth).toLoads _) hrun
    obtain ⟨c', hpasses⟩ := (hp.ends (listens_sourcesTo config depth) _).ok hrun rfl hs.furnished |>.2 c
    exact ⟨hs', c', hpassed.passes hpasses⟩
  | @structName s s' name l _ hrun ih =>
    obtain ⟨hs, c, hpassed⟩ := ih
    have hs' := hs.keeps (fun R (hR : Tolerates R config) =>
      (hR.respects 0).changeTypes l trivial (fun _ _ h => .type h) _) hrun
    obtain ⟨types, hadd, rfl⟩ := changeTypes_sets hrun
    have honward : Onward config .lines s (s.setTypes types) := .step fun history => ⟨_, .struct hadd, rfl⟩
    obtain ⟨c', hpasses⟩ := honward c
    exact ⟨hs', c', hpassed.passes hpasses⟩
  | block _ ih | breakable _ ih | file _ _ _ ih =>
    obtain ⟨hs, c, hpassed⟩ := ih
    exact ⟨hs.congr rfl rfl rfl, c, hpassed.elsewhere rfl rfl⟩
  | body depth _ hopen hparams ih =>
    obtain ⟨hs, c, hpassed⟩ := ih
    obtain ⟨honward, htakes⟩ := openDefinition_onward hs hopen
    have ht := hs.keeps (fun R hR => (hR.respects depth).openDefinition _ _ .any trivial _) hopen
    obtain ⟨hs', hstate⟩ := enter_body ht hparams
    obtain ⟨c', hpasses⟩ := honward c
    exact ⟨hs', ((hpassed.passes hpasses).body htakes).reaches (hstate c')⟩
  | header _ ih =>
    obtain ⟨hs, c, hpassed⟩ := ih
    exact ⟨hs.openHeader, _, hpassed.header⟩

end Visited

end Check

end Offside
