import Offside.Proofs.Check.Decoration
import Offside.Proofs.Types.Same

/-! Heads of functions and what their names mean.

Every head of a function carries the type that the function was found to have, and the name of the
function is bound to a type in the global scope. The two agree, with one exception. A definition that
says what it returns looks its name up first and then works out the types of its head. If a type is known
from a header only, the header is read on the way, and the header may declare the very name that is being
defined. The definition then goes on with its own type, while the name keeps the header's: it has been
overtaken (`Check.Overtaken`). `signatures_agree_iff` says that this is the only way to disagree. -/
namespace Offside

variable {body : List Stmt}

/-- The head of a function that is announced or defined. -/
def Stmt.head? : Stmt → Option FunctionHead
  | announce _ head | function _ head _ => some head
  | _ => none

/-- The heads of the functions that stand at the top level of a file. -/
def Module.heads (m : Module) : List FunctionHead := m.body.filterMap Stmt.head?

namespace Scope

variable {head : FunctionHead} {s : Scope}

/-- Whether the function's name means a function of the type that the head was found to have. -/
def Agrees (s : Scope) (head : FunctionHead) : Prop :=
  ∃ signature type, head.signature = some signature ∧ s.lookup head.name = some type ∧
    ValueType.same signature type = true

/-- Whether the function's name means something of another type. -/
def Disagrees (s : Scope) (head : FunctionHead) : Prop :=
  ∃ signature type, head.signature = some signature ∧ s.lookup head.name = some type ∧
    ValueType.same signature type = false

theorem Agrees.keeps {s' : Scope} (h : s.Agrees head) (hk : s.Keeps s') : s'.Agrees head := by
  obtain ⟨signature, type, hs, hl, hsame⟩ := h
  exact ⟨signature, type, hs, hk _ _ hl, hsame⟩

theorem Disagrees.keeps {s' : Scope} (h : s.Disagrees head) (hk : s.Keeps s') : s'.Disagrees head := by
  obtain ⟨signature, type, hs, hl, hsame⟩ := h
  exact ⟨signature, type, hs, hk _ _ hl, hsame⟩

theorem Disagrees.not_agrees (h : s.Disagrees head) : ¬ s.Agrees head := by
  rintro ⟨signature, type, hs, hl, hsame⟩
  obtain ⟨signature', type', hs', hl', hsame'⟩ := h
  rw [hs] at hs'
  rw [hl] at hl'
  cases hs'
  cases hl'
  rw [hsame] at hsame'
  cases hsame'

/-- A declaration that goes through leaves the name with the declared type, or with the same one. -/
theorem Rooted.same_of_bind {scope : Scope} (h : s.Rooted) {name : String} {type : ValueType}
    {binding : Binding} (hb : s.bind name type = (binding, scope))
    (hok : ∀ previous, binding ≠ .conflict previous) :
    ∃ t, scope.lookup name = some t ∧ ValueType.same type t = true := by
  rw [h.bind_eq] at hb
  cases hl : s.lookup name with
  | none =>
    rw [hl] at hb
    cases hb
    exact ⟨type, by rw [lookup_setVariable, if_pos rfl], ValueType.same_refl type⟩
  | some previous =>
    rw [hl] at hb
    dsimp only at hb
    split at hb
    · rename_i hsame
      cases hb
      exact ⟨previous, hl, by rw [ValueType.same_comm]; exact hsame⟩
    · cases hb
      exact absurd rfl (hok previous)

end Scope

namespace Check

/-! ### Announcements and definitions -/

section

variable {sources : Sources} {s s' : CheckState} {head head' : FunctionHead} {l : Location} {types : List ValueType}

/-- A name that has been declared. -/
theorem declare_ok {name : String} {type : ValueType} (hs : OnGlobal s) {a : Unit}
    (h : (declare name type l).run s = .ok a s') :
    ∃ t, s'.scope.lookup name = some t ∧ ValueType.same type t = true := by
  unfold declare at h
  obtain ⟨scope, _, hscope, h⟩ := run_bind_ok.mp h
  cases hscope
  cases hb : s.scope.bind name type with
  | mk binding scope =>
  rw [hb] at h
  cases binding with
  | conflict => cases h
  | new | repeated =>
    cases h
    rw [CheckState.scope_setScope]
    exact hs.scope_rooted.same_of_bind hb (by simp)

theorem announce_ok (hload : Loads (Always Grows) sources) (hs : OnGlobal s)
    (h : (announce sources head l).run s = .ok head' s') : s'.scope.Agrees head' := by
  unfold announce at h
  obtain ⟨_, s1, h1, h⟩ := run_bind_ok.mp h
  obtain ⟨types, s2, h2, h⟩ := run_bind_ok.mp h
  obtain ⟨returns, s3, h3, h⟩ := run_bind_ok.mp h
  have hs1 := hs.grows ((hload.checkParams head.name [] head.params fun _ _ => .any).ok h1)
  have hs2 := hs1.grows ((hload.paramTypes head.name head.params fun _ _ => .any).ok h2)
  have hs3 := hs2.grows ((hload.resolveOption head.returns fun _ _ => .any).ok h3)
  obtain ⟨scope, _, hscope, h⟩ := run_bind_ok.mp h
  cases hscope
  cases hb : s3.scope.bind head.name (.function types (returns.getD .int)) with
  | mk binding scope =>
  rw [hb] at h
  cases binding with
  | conflict previous =>
    dsimp only at h
    split at h <;> cases h
  | new | repeated =>
    cases h
    obtain ⟨t, ht, hsame⟩ := hs3.scope_rooted.same_of_bind hb (by simp)
    refine ⟨_, t, rfl, ?_, hsame⟩
    rw [CheckState.scope_setScope]
    exact ht

/-- Parameters that agree with those announced. -/
theorem matchParams_same (sources : Sources) (function : String) (params : List Param)
    (announced : List ValueType) (hlen : params.length = announced.length) :
    Yields (matchParams sources function params announced) fun types =>
      ValueType.sameList types announced = true := by
  induction params generalizing announced with
  | nil =>
    rw [List.length_eq_zero_iff.mp hlen.symm]
    exact .pure (by simp [ValueType.sameList])
  | cons p rest ih =>
    cases announced with
    | nil => cases hlen
    | cons t others =>
      refine .after fun first => (require_yields _ _ _).bind fun _ hsame => ?_
      refine (ih others (Nat.succ.inj hlen)).bind fun more hmore => .pure ?_
      simp only [ValueType.sameList, hsame, hmore, Bool.and_self]

/-- A definition of a name that is known gives it the same type again. -/
theorem definitionTypes_known {previous : ValueType}
    {returns : Option ValueType} (hknown : s.scope.lookup head.name = some previous)
    (h : (definitionTypes sources head l).run s = .ok (types, returns) s') :
    ∃ r, returns = some r ∧ ValueType.same (.function types r) previous = true := by
  unfold definitionTypes at h
  obtain ⟨scope, _, hscope, h⟩ := run_bind_ok.mp h
  cases hscope
  rw [hknown] at h
  cases previous with
  | function announced result =>
    dsimp only at h
    obtain ⟨_, s1, hlen, h⟩ := run_bind_ok.mp h
    have hlen : head.params.length = announced.length := by simpa using (require_ok hlen).1
    obtain ⟨types', s2, hmatch, h⟩ := run_bind_ok.mp h
    have hsame := matchParams_same sources head.name head.params announced hlen s1 types' s2 trivial hmatch
    cases hreturns : head.returns with
    | none =>
      rw [hreturns] at h
      cases h
      exact ⟨result, rfl, by simp only [ValueType.same, hsame, ValueType.same_refl, Bool.and_self]⟩
    | some declared =>
      rw [hreturns] at h
      obtain ⟨r, s3, _, h⟩ := run_bind_ok.mp h
      obtain ⟨_, s4, hr, h⟩ := run_bind_ok.mp h
      cases h
      exact ⟨r, rfl, by simp only [ValueType.same, hsame, (require_ok hr).1, Bool.and_self]⟩
  | _ => cases h

/-- Its name means nothing when a definition that says what it returns is come to, and means something
else than the function when the types of its head are known. -/
def Overtaken (sources : Sources) (s : CheckState) (head : FunctionHead) (l : Location) : Prop :=
  s.scope.lookup head.name = none ∧ ∃ types returns s' previous,
    (definitionTypes sources head l).run s = .ok (types, some returns) s' ∧
    s'.scope.lookup head.name = some previous ∧
    ValueType.same previous (.function types returns) = false

/-- What happens before the body of a definition: its types are worked out, then the name is noted as
defined and, if the result is known, declared. -/
theorem openDefinition_ok {returns : Option ValueType}
    (h : (openDefinition sources head l).run s = .ok (types, returns) s') :
    ∃ s0 scope, (definitionTypes sources head l).run s = .ok (types, returns) s0 ∧
      scope = { s0.scope with definedFunctions := s0.scope.definedFunctions.insert head.name } ∧
      s' = s0.setScope
        (match returns with
        | some returns => (scope.bind head.name (.function types returns)).2
        | none => scope) := by
  unfold openDefinition at h
  obtain ⟨_, _, hget, h⟩ := run_bind_ok.mp h
  cases hget
  obtain ⟨_, s1, htop, h⟩ := run_bind_ok.mp h
  obtain ⟨_, s2, hparams, h⟩ := run_bind_ok.mp h
  obtain ⟨_, _, hscope, h⟩ := run_bind_ok.mp h
  cases hscope
  obtain ⟨_, s3, hnew, h⟩ := run_bind_ok.mp h
  have hsame : Chains (Always Eq) := .ofOrder (fun _ => rfl) Eq.trans
  have h2 : s1 = s2 := (hsame.checkParams head.name [] head.params fun _ _ => .any).ok hparams
  rw [(require_ok hnew).2, ← h2, (require_ok htop).2] at h
  obtain ⟨⟨types', returns'⟩, s0, hdefinition, h⟩ := run_bind_ok.mp h
  obtain ⟨_, s4, hdefined, h⟩ := run_bind_ok.mp h
  cases hdefined
  cases returns' with
  | none =>
    cases h
    exact ⟨s0, _, hdefinition, rfl, rfl⟩
  | some returns' =>
    obtain ⟨_, s5, hbind, h⟩ := run_bind_ok.mp h
    cases hbind
    cases h
    refine ⟨s0, _, hdefinition, rfl, ?_⟩
    simp only [CheckState.setScope_setScope, CheckState.scope_setScope]

/-- A definition whose result is known before its body. -/
theorem openDefinition_known {returns : ValueType} (hload : Loads (Always Grows) sources) (hs : OnGlobal s)
    (h : (openDefinition sources head l).run s = .ok (types, some returns) s') :
    ∃ t, s'.scope.lookup head.name = some t ∧
      (ValueType.same (.function types returns) t = false ↔ Overtaken sources s head l) := by
  obtain ⟨s0, scope, hdefinition, hscope, rfl⟩ := openDefinition_ok h
  have hgrows : Grows s s0 := (hload.definitionTypes head l .any trivial).ok hdefinition
  have hs0 := hs.grows hgrows
  have hrooted : scope.Rooted := hscope ▸ hs0.scope_rooted
  have hlookup : scope.lookup head.name = s0.scope.lookup head.name := by rw [hscope]; rfl
  rw [CheckState.scope_setScope]
  refine ⟨_, hrooted.lookup_bind head.name _, ?_⟩
  rw [hlookup]
  constructor
  · intro hdiffers
    cases hl : s0.scope.lookup head.name with
    | none =>
      rw [hl, Option.getD_none, ValueType.same_refl] at hdiffers
      cases hdiffers
    | some previous =>
      rw [hl, Option.getD_some, ValueType.same_comm] at hdiffers
      refine ⟨?_, types, returns, s0, previous, hdefinition, hl, hdiffers⟩
      -- A name that was known before would have got the same type again.
      cases hbefore : s.scope.lookup head.name with
      | none => rfl
      | some q =>
        obtain ⟨r, hr, hsame⟩ := definitionTypes_known hbefore hdefinition
        have hq := (hs.goesOn hgrows).names _ _ hbefore
        rw [hl] at hq
        cases hq
        cases hr
        rw [ValueType.same_comm, hsame] at hdiffers
        cases hdiffers
  · rintro ⟨_, types', returns', s0', previous, hdefinition', hl, hdiffers⟩
    rw [hdefinition] at hdefinition'
    cases hdefinition'
    rw [hl, Option.getD_some, ValueType.same_comm]
    exact hdiffers

/-- A definition that goes through agrees with the meaning of its name, unless it was overtaken. -/
theorem function_ok {m : Mark} {checked : Stmt} (hR : Respects (Always Grows) sources)
    (hs : OnGlobal s) (h : (statement sources (.function m head body)).run s = .ok checked s') :
    ∃ head' body', checked = .function m head' body' ∧
      (¬ Overtaken sources s head m.span.start → s'.scope.Agrees head') ∧
      (Overtaken sources s head m.span.start → s'.scope.Disagrees head') := by
  rw [statement] at h
  obtain ⟨⟨types, returns⟩, s1, hopen, h⟩ := run_bind_ok.mp h
  obtain ⟨⟨body', inferred⟩, s2, hbody, h⟩ := run_bind_ok.mp h
  obtain ⟨head', s3, hclose, h⟩ := run_bind_ok.mp h
  cases h
  have hs1 := hs.grows ((hR.openDefinition head _ .any trivial).ok hopen)
  have hgrows : Grows s1 s2 := by
    refine (hR.inFunction _ ?_ (openDefinition_atTopLevel hR.secludes hopen)).ok hbody
    exact hR.bind (hR.bindParams head.params types) fun _ => hR.bind (hR.statements body .any) fun _ =>
      hR.bind hR.get fun _ => hR.pure _
  have hs2 := hs1.grows hgrows
  refine ⟨head', body', rfl, ?_⟩
  unfold closeDefinition at hclose
  cases returns with
  | some returns =>
    -- The name was declared before the body, and keeps its meaning.
    obtain ⟨t, ht, hdiffers⟩ := openDefinition_known hR.toLoads hs hopen
    have ht := (hs1.goesOn hgrows).names _ _ ht
    cases hclose
    constructor
    · intro hnot
      refine ⟨_, t, rfl, ht, ?_⟩
      rw [← Bool.not_eq_false]
      exact fun hf => hnot (hdiffers.mp hf)
    · intro hovertaken
      exact ⟨_, t, rfl, ht, hdiffers.mpr hovertaken⟩
  | none =>
    -- The name is declared now, so a conflict would have been reported.
    obtain ⟨_, s4, hdeclare, hclose⟩ := run_bind_ok.mp hclose
    cases hclose
    obtain ⟨t, ht, hsame⟩ := declare_ok hs2 hdeclare
    refine ⟨fun _ => ⟨_, t, rfl, ht, hsame⟩, ?_⟩
    rintro ⟨_, types', returns', s0', previous, hdefinition', _⟩
    obtain ⟨s0, scope, hdefinition, _⟩ := openDefinition_ok hopen
    rw [hdefinition] at hdefinition'
    cases hdefinition'

end

end Check

/-! ### Which statements have heads -/

theorem Stmt.head?_restore (s : Stmt) (targets : List Mark) :
    (s.restore targets).1.head?.isSome = s.head?.isSome := by
  cases s with
  | declare m d =>
    obtain ⟨name, declared, init, type⟩ := d
    cases declared <;> cases init <;> rfl
  | _ => rfl

theorem Stmt.head?_blur (b : Blur) (s : Stmt) : (s.blur b).head?.isSome = s.head?.isSome := by
  cases s <;> rfl

/-- A check makes no heads and drops none. -/
theorem Check.statement_head? (sources : Sources) (s : Stmt) :
    Yields (statement sources s) fun s' => s'.head?.isSome = s.head?.isSome := by
  intro σ s' σ' _ h
  obtain ⟨used, hrestore⟩ := statement_yields sources s σ s' σ' trivial h
  have hsame := congrArg (fun r => r.1.head?.isSome) (hrestore [])
  simp only [Stmt.head?_restore, Stmt.head?_blur] at hsame
  exact hsame

/-! ### Programs with what they include -/

namespace Check

variable {s s' : CheckState} {config : Config} {depth : Nat}

/-- Some definition at the top level of a program, or of a file that it includes, is overtaken when the
program is checked from a state. -/
inductive SomeOvertaken (config : Config) : (depth : Nat) → List Stmt → CheckState → Prop where
  | here {depth : Nat} {s : CheckState} {m : Mark} {head : FunctionHead} {body rest : List Stmt} :
      Overtaken (sourcesTo config depth) s head m.span.start →
      SomeOvertaken config depth (.function m head body :: rest) s
  /-- Behind a statement that is in order. -/
  | later {depth : Nat} {s s' : CheckState} {first checked : Stmt} {rest : List Stmt} :
      (statement (sourcesTo config depth) first).run s = .ok checked s' →
      SomeOvertaken config depth rest s' → SomeOvertaken config depth (first :: rest) s
  /-- In a file that is included for the first time. -/
  | inside {depth : Nat} {s : CheckState} {mark : Mark} {path text : String} {file : Path}
      {m : Module} {rest : List Stmt} :
      findInclude config s.directory path = some file → file ∉ s.visited →
      config.files.textAt file = .ok text → Module.ofText file.text text = .ok m →
      SomeOvertaken config depth m.body (s.openFile file) →
      SomeOvertaken config (depth + 1) (.includeFile mark path :: rest) s

/-- The heads of all files that have been checked agree with what their names mean. -/
def UnitsAgree (s : CheckState) : Prop := ∀ u ∈ s.units, ∀ head ∈ u.2.heads, s.scope.Agrees head

theorem UnitsAgree.keeps (h : UnitsAgree s) (hu : s'.units = s.units)
    (hk : s.scope.Keeps s'.scope) : UnitsAgree s' := by
  intro u hmem head hhead
  rw [hu] at hmem
  exact (h u hmem head hhead).keeps hk

theorem head_agrees {sources : Sources} {first checked : Stmt}
    (hR : Respects (Always Grows) sources) (hs : OnGlobal s)
    (h : (statement sources first).run s = .ok checked s')
    (hnot : ∀ m head body, first = .function m head body → ¬ Overtaken sources s head m.span.start) :
    ∀ head, checked.head? = some head → s'.scope.Agrees head := by
  intro head hhead
  have hsome : checked.head?.isSome = first.head?.isSome :=
    statement_head? sources first s checked s' trivial h
  rw [hhead] at hsome
  cases first with
  | announce m announced =>
    obtain ⟨head', s1, hannounce, h⟩ := run_bind_ok.mp h
    cases h
    cases hhead
    exact announce_ok hR.toLoads hs hannounce
  | function m defined body =>
    obtain ⟨head', body', rfl, hagrees, _⟩ := function_ok hR hs h
    cases hhead
    exact hagrees (hnot m defined body rfl)
  | _ => cases hsome

/-- With sources nested so deep: where no definition is overtaken, all heads agree. -/
def AgreesTo (config : Config) (depth : Nat) : Prop := ∀ body s checked s', Between s → UnitsAgree s →
    (statements (sourcesTo config depth) body).run s = .ok checked s' →
    ¬ SomeOvertaken config depth body s →
    UnitsAgree s' ∧ ∀ c ∈ checked, ∀ head, c.head? = some head → s'.scope.Agrees head

/-- A file that is included. -/
theorem includeFile_agrees {d : Nat} (ih : AgreesTo config d)
    {file : Path} {mark : Mark} {path : String} {rest : List Stmt} (hs : Between s)
    (hagree : UnitsAgree s) (hfind : findInclude config s.directory path = some file)
    (h : (includeFile config (sourcesTo config d) file mark.span.start).run s = .ok () s')
    (hnot : ¬ SomeOvertaken config (d + 1) (.includeFile mark path :: rest) s) : UnitsAgree s' := by
  obtain ⟨_, rfl⟩ | ⟨hnew, text, m, body, s1, htext, hm, hrun, rfl⟩ := includeFile_ok h
  · exact hagree
  · have hinside : ¬ SomeOvertaken config d m.body (s.openFile file) := fun h => hnot (.inside hfind hnew htext hm h)
    obtain ⟨hunits, hheads⟩ := ih m.body (s.openFile file) body s1 (hs.openFile file) hagree hrun hinside
    intro u hu head hhead
    rcases mem_insertUnit hu with rfl | hu
    · obtain ⟨c, hc, hhead⟩ := List.mem_filterMap.mp hhead
      exact hheads c hc head hhead
    · exact hunits u hu head hhead

theorem agreesTo_of_less
    (ih : ∀ d, depth = d + 1 → AgreesTo config d) : AgreesTo config depth := by
  have hR : Respects (Always Grows) (sourcesTo config depth) := (grows_tolerates config).respects depth
  intro body
  induction body with
  | nil =>
    intro s checked s' _ hagree h _
    cases h
    exact ⟨hagree, nofun⟩
  | cons first rest ihrest =>
    intro s checked s' hs hagree h hnot
    obtain ⟨first', s1, hfirst, h⟩ := run_bind_ok.mp h
    obtain ⟨rest', s2, hrest, h⟩ := run_bind_ok.mp h
    cases h
    have hs1 := hs.statement hfirst
    have hhead : ∀ head, first'.head? = some head → s1.scope.Agrees head := by
      refine head_agrees hR hs.toOnGlobal hfirst ?_
      rintro m head body rfl hovertaken
      exact hnot (.here hovertaken)
    have hagree1 : UnitsAgree s1 := by
      by_cases hinclude : ∃ m path, first = .includeFile m path
      · obtain ⟨mark, path, rfl⟩ := hinclude
        obtain ⟨d, rfl, ⟨file, hfind, hfile⟩ | ⟨_, hunits⟩⟩ := include_ok hs hfirst
        · exact includeFile_agrees (ih d rfl) hs hagree hfind hfile hnot
        · exact hagree.keeps hunits (hs.keeps_statement hfirst)
      · have hunits := (units_statement config depth first (by simpa using hinclude) s).ok hfirst
        exact hagree.keeps hunits (hs.keeps_statement hfirst)
    obtain ⟨hagree2, hheads⟩ := ihrest s1 rest' s' hs1 hagree1 hrest fun h => hnot (.later hfirst h)
    refine ⟨hagree2, fun c hc head hc' => ?_⟩
    rcases List.mem_cons.mp hc with rfl | hc
    · exact (hhead head hc').keeps (hs1.keeps_statements hrest)
    · exact hheads c hc head hc'

theorem agreesTo (config : Config) (depth : Nat) : AgreesTo config depth := by
  induction depth with
  | zero => exact agreesTo_of_less nofun
  | succ depth ih =>
    refine agreesTo_of_less ?_
    rintro d ⟨⟩
    exact ih

/-- A file that has been checked stays on the list, whatever is checked next. -/
theorem unit_kept {s1 : CheckState} {file : Path} {m : Module}
    {checked : List Stmt} (hs : Between s) (hnew : file ∉ s.visited)
    (hrun : (statements (sourcesTo config depth) body).run (s.openFile file) = .ok checked s1) :
    ∀ u ∈ s1.units, u ∈ insertUnit file m s1.units := by
  have hfiles : Files (s.openFile file) s1 := (((files_tolerates config).respects depth).statements body .any).ok hrun
  exact fun u hu => mem_insertUnit_of_ne m hu (hfiles.ne_path hnew hs.filed u hu)

/-- A definition that is overtaken leaves a head that disagrees, in the program or in a file. -/
theorem disagrees_of_overtaken
    (h : SomeOvertaken config depth body s) {checked : List Stmt} (hs : Between s)
    (hrun : (statements (sourcesTo config depth) body).run s = .ok checked s') :
    (∃ c ∈ checked, ∃ head, c.head? = some head ∧ s'.scope.Disagrees head) ∨
    (∃ u ∈ s'.units, ∃ head ∈ u.2.heads, s'.scope.Disagrees head) := by
  induction h generalizing checked s' with
  | @here depth s m head body rest hovertaken =>
    obtain ⟨first, s1, hfirst, hrun⟩ := run_bind_ok.mp hrun
    obtain ⟨more, s2, hrest, hrun⟩ := run_bind_ok.mp hrun
    cases hrun
    have hR : Respects (Always Grows) (sourcesTo config depth) := (grows_tolerates config).respects depth
    obtain ⟨head', body', rfl, _, hdisagrees⟩ := function_ok hR hs.toOnGlobal hfirst
    refine .inl ⟨_, List.mem_cons_self, head', rfl, ?_⟩
    exact (hdisagrees hovertaken).keeps ((hs.statement hfirst).keeps_statements hrest)
  | later hfirst _ ih =>
    obtain ⟨first, s1, hfirst', hrun⟩ := run_bind_ok.mp hrun
    obtain ⟨more, s2, hrest, hrun⟩ := run_bind_ok.mp hrun
    cases hrun
    rw [hfirst] at hfirst'
    cases hfirst'
    rcases ih (hs.statement hfirst) hrest with ⟨c, hc, hhead⟩ | hunit
    · exact .inl ⟨c, List.mem_cons_of_mem _ hc, hhead⟩
    · exact .inr hunit
  | @inside depth s mark path text file m rest hfind hnew htext hm _ ih =>
    obtain ⟨first, s1, hfirst, hrun⟩ := run_bind_ok.mp hrun
    obtain ⟨more, s2, hrest, hrun⟩ := run_bind_ok.mp hrun
    cases hrun
    have hs1 := hs.statement hfirst
    have hkeeps := hs1.keeps_statements hrest
    have hunits := hs1.units_statements hrest
    -- The include means this file, and its check ends in a state with a head that disagrees.
    obtain ⟨d, hd, ⟨file', hfind', hfile⟩ | ⟨hnone, _⟩⟩ := include_ok hs hfirst
    · cases hd
      rw [hfind] at hfind'
      cases hfind'
      obtain ⟨hold, _⟩ | ⟨_, text', m', body, s3, htext', hm', hbody, rfl⟩ := includeFile_ok hfile
      · exact absurd hold hnew
      · rw [htext] at htext'
        cases htext'
        rw [hm] at hm'
        cases hm'
        have hkept := unit_kept (m := ⟨m.file, body⟩) hs hnew hbody
        rcases ih (hs.openFile file) hbody with ⟨c, hc, head, hhead, hdis⟩ | ⟨u, hu, head, hhead, hdis⟩
        · refine .inr ⟨(file, ⟨m.file, body⟩), hunits _ (mem_insertUnit_self _ _ _), head, ?_, ?_⟩
          · exact List.mem_filterMap.mpr ⟨c, hc, hhead⟩
          · exact hdis.keeps hkeeps
        · exact .inr ⟨u, hunits _ (hkept u hu), head, hhead, hdis.keeps hkeeps⟩
    · rw [hfind] at hnone
      cases hnone

end Check

/-- Whether every head at the top level of the program and of its files has the type that the name of its
function has at the end. -/
def CheckedUnit.SignaturesAgree (u : CheckedUnit) : Prop :=
  ∀ m ∈ u.module :: u.units.map Prod.snd, ∀ head ∈ m.heads, u.globals.Agrees head

/-- **Signatures agree unless a definition is overtaken.** In a program that is in order, every function
announced or defined at the top level of the program or of a file it includes has the type that its name
is bound to, exactly if no definition is overtaken while it is checked. -/
theorem signatures_agree_iff (config : Config) (m : Module) (path : Option Path) (u : CheckedUnit)
    (h : CheckedUnit.ofModule config m path = .ok u) :
    u.SignaturesAgree ↔ ¬ Check.SomeOvertaken config (Check.depthBound config) m.body
      (CheckedUnit.startState path) := by
  have hstart : Check.Between (CheckedUnit.startState path) := by
    cases path <;> exact ⟨⟨rfl, nofun⟩, rfl, rfl, nofun⟩
  unfold CheckedUnit.ofModule at h
  split at h
  · rename_i body s hrun
    cases h
    have hs : s.scope = s.environment.global :=
      (hstart.grows (stateAfter_ok hrun ▸ (grows_tolerates config).program m.body _)).scope
    constructor
    · intro hagree hovertaken
      rcases Check.disagrees_of_overtaken hovertaken hstart hrun with
        ⟨c, hc, head, hhead, hdisagrees⟩ | ⟨unit, hunit, head, hhead, hdisagrees⟩
      · rw [hs] at hdisagrees
        refine hdisagrees.not_agrees (hagree _ List.mem_cons_self head ?_)
        exact List.mem_filterMap.mpr ⟨c, hc, hhead⟩
      · rw [hs] at hdisagrees
        refine hdisagrees.not_agrees (hagree unit.2 ?_ head hhead)
        exact List.mem_cons_of_mem _ (List.mem_map_of_mem hunit)
    · intro hnot m' hm' head hhead
      have hnone : Check.UnitsAgree (CheckedUnit.startState path) := by cases path <;> exact nofun
      obtain ⟨hunits, hheads⟩ := Check.agreesTo config _ m.body _ body s hstart hnone hrun hnot
      show s.environment.global.Agrees head
      rw [← hs]
      rcases List.mem_cons.mp hm' with rfl | hm'
      · obtain ⟨c, hc, hhead⟩ := List.mem_filterMap.mp hhead
        exact hheads c hc head hhead
      · obtain ⟨unit, hunit, rfl⟩ := List.mem_map.mp hm'
        exact hunits unit hunit head hhead
  · cases h

/-- `size_t` is known from the header that declares `abs`, so the definition is overtaken on the way. -/
theorem abs_overtaken : ∃ m u, Module.ofText "t.cu" "def abs(n: size_t) -> size_t:\n    return n\n" = .ok m ∧
      CheckedUnit.ofModule {} m none = .ok u ∧
      Check.SomeOvertaken {} (Check.depthBound {}) m.body (CheckedUnit.startState none) ∧
      ∃ head ∈ u.module.heads, head.name = "abs" ∧ u.globals.Disagrees head := by
  have h : ((CheckedUnit.ofText {} "t.cu" "def abs(n: size_t) -> size_t:\n    return n\n").toOption.any
      fun u => u.module.heads.any fun head => head.name == "abs" && head.signature.any fun signature =>
        (u.globals.lookup head.name).any fun type => !ValueType.same signature type) = true := by
    decide +kernel
  obtain ⟨u, hu, h⟩ := exists_ok_of_any h
  obtain ⟨m, hm, hu⟩ := CheckedUnit.ofText_ok hu
  obtain ⟨head, hhead, h⟩ := List.any_eq_true.mp h
  obtain ⟨hname, h⟩ := Bool.and_eq_true_iff.mp h
  obtain ⟨signature, hsignature, h⟩ := (Option.any_eq_true _ _).mp h
  obtain ⟨type, htype, h⟩ := (Option.any_eq_true _ _).mp h
  have hdisagrees : u.globals.Disagrees head := ⟨signature, type, hsignature, htype, by simpa using h⟩
  refine ⟨m, u, hm, hu, ?_, head, hhead, by simpa using hname, hdisagrees⟩
  by_contra hnot
  have hagree := (signatures_agree_iff {} m none u hu).mpr hnot
  exact hdisagrees.not_agrees (hagree _ List.mem_cons_self head hhead)

end Offside
