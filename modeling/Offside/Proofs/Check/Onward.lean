import Offside.Proofs.Check.Agreement
import Offside.Proofs.Check.Chronicle
import Offside.Proofs.Check.Transparency
import Offside.Proofs.Grammar.Files

/-! Lines that declare go by stages.

`Check.Onward` leads from one state to another by the steps of `Check.Passes`. Declarations go onward, and so
do headers, which hold nothing else (`listens_sourcesTo`). -/
namespace Offside

open List

variable {params : List Param} {body : List Stmt} {types : List ValueType} {m : Mark}
    {function : String} {type : ValueType}

/-! ### Declarations in a scope -/

namespace Frame

/-- A declaration that goes through. -/
theorem scope_declare_of_bind {f : Frame} {name : String} (origin : Origin)
    (h : ∀ previous, (f.scope.bind name type).1 ≠ .conflict previous) :
    (f.declare name type origin).scope =
      { (f.scope.bind name type).2 with
        constants := origin.constants name (f.scope.bind name type).2.constants } := by
  unfold declare
  generalize f.scope.bind name type = bound at h ⊢
  obtain ⟨binding, scope⟩ := bound
  cases binding with
  | new | repeated => rfl
  | conflict previous => exact absurd rfl (h previous)

/-- A declaration that sets no value only declares. -/
theorem scope_declare (f : Frame) (name : String) (type : ValueType) {origin : Origin}
    (h : origin.sets = none) : (f.declare name type origin).scope = (f.scope.bind name type).2 := by
  have hconstants (values : Dictionary Int) : origin.constants name values = values := by
    unfold Origin.constants
    rw [h]
  unfold declare Scope.bind
  split
  · rename_i heq
    rw [heq, hconstants]
  · rename_i heq
    rw [heq, hconstants]
  · rename_i heq
    rw [heq]
    split at heq
    · split at heq
      · split at heq <;> cases heq
        rfl
      · cases heq
    · cases heq

theorem scope_bindParams (head : Origin) (params : List Param) (types : List ValueType) (f : Frame) :
    (f.bindParams head params types).scope = Check.bindParams params types f.scope := by
  induction params generalizing types f with
  | nil => rfl
  | cons p rest ih =>
    cases types with
    | nil => rfl
    | cons type types =>
      unfold bindParams Check.bindParams
      rw [ih]
      cases hkind : p.kind with
      | vararg => rfl
      | named name declared => rw [scope_declare f name type (p.sets_origin _)]

end Frame

namespace Check

variable {config : Config} {depth : Nat} {sources : Sources} {phase : Phase} {s s' t : CheckState}
    {l : Location} {name : String} {a : Unit}

theorem modifyScope_sets {f : Scope → Scope} (h : (modifyScope f).run s = .ok a s') :
    s' = s.setScope (f s.scope) := by
  cases h
  rfl

/-! ### From state to state -/

theorem Passes.reaches {a b : Stage} (h : Passes config phase a b) (hstate : b.state = s) :
    ∃ c, Passes config phase a ⟨s, c⟩ :=
  ⟨b.chronicle, hstate ▸ h⟩

theorem Passed.reaches {a : Stage} (h : Passed config a) (hstate : a.state = s) : ∃ c, Passed config ⟨s, c⟩ :=
  ⟨a.chronicle, hstate ▸ h⟩

/-- However the first state came about, a check may go on to the second. -/
def Onward (config : Config) (phase : Phase) (s s' : CheckState) : Prop :=
  ∀ c, ∃ c', Passes config phase ⟨s, c⟩ ⟨s', c'⟩

namespace Onward

theorem refl (s : CheckState) : Onward config phase s s := fun c => ⟨c, .refl phase _⟩

theorem trans (h : Onward config phase s t) (h' : Onward config phase t s') : Onward config phase s s' := by
  intro c
  obtain ⟨c1, hfirst⟩ := h c
  obtain ⟨c2, hsecond⟩ := h' c1
  exact ⟨c2, hfirst.trans hsecond⟩

theorem lines (h : Onward config .headers s s') : Onward config .lines s s' := by
  intro c
  obtain ⟨c', hpasses⟩ := h c
  exact ⟨c', hpasses.ofHeaders⟩

theorem statements (h : Onward config .lines s s') : Onward config .statements s s' := by
  intro c
  obtain ⟨c', hpasses⟩ := h c
  exact ⟨c', hpasses.ofLines⟩

theorem elsewhere (henvironment : s'.environment = s.environment)
    (hfunction : s'.function = s.function) : Onward config phase s s' :=
  fun c => ⟨c, .elsewhere henvironment hfunction⟩

/-- Entering and leaving a part with the same scopes in view. -/
theorem around {t' : CheckState} (h : Onward config phase t t')
    (henter : t.environment = s.environment ∧ t.function = s.function)
    (hleave : s'.environment = t'.environment ∧ s'.function = t'.function) :
    Onward config phase s s' :=
  (elsewhere henter.1 henter.2).trans (h.trans (elsewhere hleave.1 hleave.2))

/-- A step in the current scope, whatever its history. -/
theorem step {scope : Scope} (h : ∀ history, ∃ f, Frame.Step ⟨s.scope, history⟩ phase f ∧ f.scope = scope) :
    Onward config phase s (s.setScope scope) := by
  intro c
  obtain ⟨f, hstep, rfl⟩ := h c.current
  exact ⟨c.setCurrent f.history, .step hstep⟩

/-- A declaration that sets no value. -/
theorem declare {origin : Origin} (hsets : origin.sets = none) (h : ∀ history, Frame.Step ⟨s.scope, history⟩ phase
      (Frame.declare ⟨s.scope, history⟩ name type origin)) :
    Onward config phase s (s.setScope (s.scope.bind name type).2) :=
  step fun history => ⟨_, h history, Frame.scope_declare _ name type hsets⟩

end Onward

/-! ### Lines that declare -/

/-- A course that goes on, where headers are read only. -/
def Listens (config : Config) : Course := fun s failure s' =>
  failure = none → s.Furnished → s'.Furnished ∧ Onward config .headers s s'

theorem listens_chains (config : Config) : Chains (Listens config) where
  refl s _ hs := ⟨hs, .refl s⟩
  trans h h' hfailure hs := by
    obtain ⟨ht, hfirst⟩ := h rfl hs
    obtain ⟨hu, hsecond⟩ := h' hfailure ht
    exact ⟨hu, hfirst.trans hsecond⟩
  fail _ _ _ := nofun

theorem listens_none (config : Config) : Loads (Listens config) .none where
  toChains := listens_chains config
  load h := nomatch h

section

variable {sources : Sources} {l : Location} {head head' : FunctionHead}

/-- Parameters whose types are written out. -/
def Writes (types : TypeTable) : List Param → List ValueType → Prop :=
  List.Forall₂ fun p type => (∀ name, p.kind ≠ .named name none) ∧ types.Forms false type

theorem Writes.forms {table : TypeTable}
    (h : Writes table params types) : ∀ type ∈ types, table.Forms false type := by
  induction h with
  | nil => exact forall_mem_nil _
  | cons hfirst _ ih => exact forall_mem_cons.mpr ⟨hfirst.2, ih⟩

section

variable (hload : Loads (Reads False) sources)
include hload

theorem paramTypes_writes (hs : s.Furnished)
    (h : (paramTypes sources function params).run s = .ok types s') :
    Writes s'.scope.types params types := by
  induction params generalizing s types with
  | nil =>
    cases h
    exact .nil
  | cons p rest ih =>
    obtain ⟨first, s1, hfirst, h⟩ := run_bind_ok.mp h
    obtain ⟨more, s2, hmore, h⟩ := run_bind_ok.mp h
    cases h
    have hs1 := (reads_scope (hload.paramType function none p .any) hs hfirst).1
    have hkept := (reads_scope (hload.paramTypes function rest fun _ _ => .any) hs1 hmore).2
    refine .cons ?_ (ih hs1 hmore)
    unfold paramType at hfirst
    split at hfirst
    · rename_i hkind
      cases hfirst
      exact ⟨by simp [hkind], .scalar mem_cons_self⟩
    · rename_i hkind
      exact ⟨by simp [hkind], (resolve_forms hload hs hfirst).extend hkept.types⟩
    · cases hfirst

theorem variable_onward (hlisten : Loads (Listens config) sources) {d d' : VarDecl} (hs : s.Furnished)
    (h : (variableDeclaration sources d l).run s = .ok d' s') : Onward config .lines s s' := by
  unfold variableDeclaration at h
  cases hdeclared : d.declared with
  | none =>
    rw [hdeclared] at h
    cases h
  | some declared =>
    rw [hdeclared] at h
    dsimp only at h
    obtain ⟨type, s1, htype, h⟩ := run_bind_ok.mp h
    obtain ⟨_, s2, hvoid, h⟩ := run_bind_ok.mp h
    have hstored := (require_ok hvoid).1
    rw [(require_ok hvoid).2] at h
    obtain ⟨hs1, honward⟩ := (hlisten.resolve declared .any).ok htype rfl hs
    have hforms := resolve_forms hload hs htype
    have hend {s3 : CheckState} {a : Unit} (hrun : (declare d.name type l).run s3 = .ok a s')
        (hforms : s3.scope.types.Forms false type) : Onward config .lines s3 s' := by
      obtain ⟨_, rfl⟩ := declare_sets hrun
      exact .declare rfl fun history => .declaration d.name hforms (by simpa using hstored)
    cases hinit : d.init with
    | none =>
      rw [hinit] at h
      obtain ⟨_, s3, hnone, h⟩ := run_bind_ok.mp h
      cases hnone
      obtain ⟨_, s4, hdeclare, h⟩ := run_bind_ok.mp h
      cases h
      exact honward.lines.trans (hend hdeclare hforms)
    | some e =>
      rw [hinit] at h
      obtain ⟨⟨checked, initType⟩, s3, htyped, h⟩ := run_bind_ok.mp h
      obtain ⟨_, s4, hfits, h⟩ := run_bind_ok.mp h
      obtain ⟨_, s5, hsome, h⟩ := run_bind_ok.mp h
      cases hsome
      obtain ⟨_, s6, hdeclare, h⟩ := run_bind_ok.mp h
      cases h
      rw [(require_ok hfits).2] at hdeclare
      have hkept := (reads_scope (hload.typed e .any) hs1 htyped).2
      have hread := ((hlisten.typed e .any).ok htyped rfl hs1).2
      exact (honward.trans hread).lines.trans (hend hdeclare (hforms.extend hkept.types))

theorem announce_onward (hlisten : Loads (Listens config) sources)
    (hs : s.Furnished) (h : (announce sources head l).run s = .ok head' s') :
    Onward config .lines s s' := by
  obtain ⟨s1, types, s2, returns, s3, hparams, htypes, hreturns, rfl⟩ := announce_sets h
  obtain ⟨hs1, hfirst⟩ := (hlisten.checkParams head.name [] head.params fun _ _ => .any).ok hparams rfl hs
  obtain ⟨hs2, hsecond⟩ := (hlisten.paramTypes head.name head.params fun _ _ => .any).ok htypes rfl hs1
  obtain ⟨hs3, hthird⟩ := (hlisten.resolveOption head.returns fun _ _ => .any).ok hreturns rfl hs2
  have hkept := (reads_scope (hload.resolveOption head.returns fun _ _ => .any) hs2 hreturns).2
  have hforms : s3.scope.types.Forms false (.function types (returns.getD .int)) := by
    refine .function (fun p hp => ?_) ?_
    · exact ((paramTypes_writes hload hs1 htypes).forms p hp).extend hkept.types
    · cases returns with
      | none => exact .int _
      | some r => exact resolveOption_forms hload hs2 hreturns r rfl
  exact ((hfirst.trans hsecond).trans hthird).lines.trans (.declare rfl fun history => .function head.name hforms)

end

end

/-! ### Headers -/

theorem headerLine_onward {known : List String} {line line' : Stmt} (hs : s.Furnished)
    (hknown : s.scope.KnowsTypes known) (hline : line.isHeaderLine known)
    (h : (statement sources line).run s = .ok line' s') : Onward config .lines s s' := by
  rw [statement_known hknown hline] at h
  unfold Stmt.isHeaderLine at hline
  split at hline
  · cases h
    exact .refl s
  · cases h
    exact .refl s
  · cases h
    exact .step fun history => ⟨_, .noted s.scope.definedFunctions _, rfl⟩
  · rw [statement, isEmpty_iff.mp hline] at h
    obtain ⟨_, s1, hstruct, h⟩ := run_bind_ok.mp h
    cases h
    rw [emptyStruct_run] at hstruct
    split at hstruct <;> cases hstruct
    rename_i hadd
    exact .step fun history => ⟨_, .struct hadd, rfl⟩
  · rename_i target _
    rw [statement] at h
    obtain ⟨_, s1, htypedef, h⟩ := run_bind_ok.mp h
    cases h
    obtain ⟨types, hadd, rfl⟩ := synonym_sets (hknown target (by simpa using hline)) htypedef
    exact .step fun history => ⟨_, .synonym hadd, rfl⟩
  · rw [statement] at h
    obtain ⟨_, s1, hdeclare, h⟩ := run_bind_ok.mp h
    cases h
    exact variable_onward reads_none (listens_none config) hs hdeclare
  · rw [statement] at h
    obtain ⟨_, s1, hannounce, h⟩ := run_bind_ok.mp h
    cases h
    exact announce_onward reads_none (listens_none config) hs hannounce
  · cases hline

/-- In a header, an include reads a header. -/
theorem follow_loads {path : String} (hdepth : s.headerDepth ≠ 0)
    (h : ((sourcesTo config depth).follow path l).run s = .ok a s') :
    ∃ header ∈ (sourcesTo config depth).headers, ((sourcesTo config depth).load header).run s = .ok a s' := by
  cases depth with
  | zero => cases h
  | succ depth =>
    have h : (followInclude config (sourcesTo config depth) path l).run s = .ok a s' := h
    rw [followInclude_run config _ path l hdepth] at h
    split at h
    · rename_i header hnamed
      exact ⟨header, mem_of_find?_eq_some hnamed, h⟩
    · cases h

/-- What each line of a header does, and each header that is included there, the lines do together. -/
theorem lines_run {R : CheckState → CheckState → Prop} (hrefl : ∀ s, R s s)
    (htrans : ∀ {s t u}, R s t → R t u → R s u) {whole : List Stmt}
    (hline : ∀ {known s line line' s'}, line ∈ whole → AtLine known s → line.isHeaderLine known →
      (statement (sourcesTo config depth) line).run s = .ok line' s' → R s s')
    (hload : ∀ {known s header s'}, header ∈ (sourcesTo config depth).headers → AtLine known s →
      ((sourcesTo config depth).load header).run s = .ok () s' → R s s')
    {header : Header} {known : List String} {body' : List Stmt} (hsub : body ⊆ whole)
    (hbody : Header.reads header.mayInclude known body) (hs : AtLine known s)
    (h : (Check.statements (sourcesTo config depth) body).run s = .ok body' s') : R s s' := by
  have hprovides := provides_sourcesTo config depth header
  induction body generalizing known s body' with
  | nil =>
    cases h
    exact hrefl _
  | cons line rest ih =>
    rw [Header.reads, Bool.and_eq_true] at hbody
    obtain ⟨hmem, hsub⟩ := cons_subset.mp hsub
    obtain ⟨line', s1, hrun, h⟩ := run_bind_ok.mp h
    obtain ⟨rest', s2, hrest, h⟩ := run_bind_ok.mp h
    cases h
    obtain ⟨hends, hread⟩ := line_effect hprovides hbody.1 hs
    have heffect := hends.ok hrun hs.locals hs.furnished
    refine htrans ?_ (ih hsub hbody.2 (hs.after heffect (hread _ _ hrun).2) hrest)
    have hreads := hbody.1
    unfold Header.readsLine at hreads
    cases hincluded : line.included? with
    | none =>
      rw [hincluded] at hreads
      exact hline hmem hs hreads hrun
    | some path =>
      obtain ⟨m, rfl⟩ := Stmt.eq_includeFile hincluded
      rw [statement] at hrun
      obtain ⟨_, _, hget, hrun⟩ := run_bind_ok.mp hrun
      cases hget
      obtain ⟨_, s3, htop, hrun⟩ := run_bind_ok.mp hrun
      rw [(require_ok htop).2] at hrun
      obtain ⟨_, s4, hinclude, hrun⟩ := run_bind_ok.mp hrun
      cases hrun
      obtain ⟨other, hother, hfollowed⟩ := follow_loads hs.depth hinclude
      exact hload hother hs hfollowed

theorem Onward.header (h : Onward config .lines s.openHeader s') :
    Onward config .headers s (s.closeHeader s') := by
  intro c
  obtain ⟨c', hpasses⟩ := h { c with locals := [] }
  exact Passes.reaches (.header hpasses) rfl

/-- Reading headers, at any depth. -/
theorem listens_sourcesTo (config : Config) (depth : Nat) :
    Loads (Listens config) (sourcesTo config depth) := by
  induction depth with
  | zero => exact { listens_chains config with load := fun _ _ => nofun }
  | succ depth ih =>
    refine { listens_chains config with load := fun {header} hmem s => ?_ }
    refine (listens_chains config).loadHeader (fun _ _ => trivial) (fun _ _ _ _ _ _ => nofun) ?_
    intro m body s' hm _ hrun _ hs
    obtain ⟨m', hm', htext, _⟩ := Header.standard_text (config.mem_standard hmem)
    rw [hm] at hm'
    cases hm'
    simp only [Header.isText, Bool.and_eq_true] at htext
    have honward : Onward config .lines s.openHeader s' := by
      refine lines_run .refl .trans (fun _ hs hline => ?_) (fun hmem hs hrun => ?_) (fun _ => id) htext.1.1
        (atLine_openHeader hs) hrun
      · exact headerLine_onward hs.furnished (hs.scope ▸ hs.known) hline
      · exact ((ih.load hmem).ok hrun rfl hs.furnished).2.lines
    have hfurnished := furnished_tolerates config
    have hinside : s.openHeader.Furnished → s'.Furnished :=
      ((hfurnished.respects depth).statements m.body .any).ok hrun
    split
    · exact ⟨hfurnished.header hinside hs, honward.header⟩
    · rename_i hnew
      exact ⟨hfurnished.headerRead hmem hm hrun (by simpa using hnew) hinside hs,
        honward.header.trans (.elsewhere rfl rfl)⟩

end Check

end Offside
