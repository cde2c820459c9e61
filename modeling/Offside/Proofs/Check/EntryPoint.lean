import Offside.Proofs.Check.Agreement
import Offside.Proofs.Check.Placement
import Offside.Proofs.Check.Transparency
import Offside.Proofs.Grammar.ReadingLines

/-! The entry point, from its head to its signature.

Reading fills in what the head of an entry point leaves out, so every such head spells out the same types
(`EntryPoint.Spelled`). What these types mean is settled by the names `int` and `char`, and no declaration
gives them another meaning: in every scope that a check goes through, the names of the scalars stand for the
scalars (`CheckState.Standard`). So every head of an entry point is found to have the one signature,
whatever stands around it: `CheckedUnit.entryPoint_signature`. -/
namespace Offside

open List

variable {t : TypeExpr}

/-- The heads of the functions in a file, at any depth. -/
def Module.allHeads (m : Module) : List FunctionHead := (Stmt.sitesList .top m.body).filterMap fun x => x.stmt.head?

namespace EntryPoint

variable {s : Span}

/-- The type of every entry point. -/
def signature : ValueType := .function [.int, .pointer (.pointer .char)] .int

/-- The head has two parameters with names, and the types it spells out are those of an entry point. -/
def Spelled (head : FunctionHead) : Prop :=
  ∃ first second count texts s0 s1 s2 s3 s4,
    head.params = [first, second] ∧
    first.kind = .named count (some (.name s0 "int")) ∧
    second.kind = .named texts (some (.pointer s1 (.pointer s2 (.name s3 "char")))) ∧
    head.returns = some (.name s4 "int")

theorem sameShape_countType_iff : t.sameShape (countType s) ↔ ∃ s', t = .name s' "int" := by
  cases t <;> simp [countType, TypeExpr.sameShape]

theorem sameShape_textsType_iff : t.sameShape (textsType s) ↔
      ∃ s1 s2 s3, t = .pointer s1 (.pointer s2 (.name s3 "char")) := by
  cases t with
  | pointer _ t =>
    cases t with
    | pointer _ t => cases t <;> simp [textsType, TypeExpr.sameShape]
    | _ => simp [textsType, TypeExpr.sameShape]
  | _ => simp [textsType, TypeExpr.sameShape]

/-- A head that needs no filling spells everything out. -/
theorem spelled_of_fill {head : FunctionHead} (h : fill s head = .ok head) :
    Spelled head := by
  obtain ⟨hparams, t, hreturns, hresult⟩ := fill_eq_ok.mp h
  obtain ⟨first, second, hpair, hfirst, hsecond⟩ := fillParams_eq_ok.mp hparams
  obtain ⟨count, t1, hcount, hshape1⟩ := fillParam_eq_ok.mp hfirst
  obtain ⟨texts, t2, htexts, hshape2⟩ := fillParam_eq_ok.mp hsecond
  obtain ⟨s4, rfl⟩ := sameShape_countType_iff.mp hresult
  obtain ⟨s0, rfl⟩ := sameShape_countType_iff.mp hshape1
  obtain ⟨s1, s2, s3, rfl⟩ := sameShape_textsType_iff.mp hshape2
  exact ⟨first, second, count, texts, s0, s1, s2, s3, s4, hpair, hcount, htexts, hreturns⟩

theorem Spelled.returns {head : FunctionHead} (h : Spelled head) :
    ∃ span, head.returns = some (.name span "int") := by
  obtain ⟨_, _, _, _, _, _, _, _, s4, _, _, _, hreturns⟩ := h
  exact ⟨s4, hreturns⟩

end EntryPoint

/-! ### Heads of trees that were read -/

mutual

/-- What stands in a statement that can be read can be read. -/
theorem Stmt.wellFormed_of_mem_sites : (line : Stmt) → (site : Site) → line.WellFormed →
    ∀ x ∈ line.sites site, x.stmt.WellFormed
  | .function _ _ body, _, h =>
    forall_mem_cons.mpr ⟨h, Stmt.wellFormed_of_mem_sitesList body _ h.2.2⟩
  | .ifElse _ _ body orelse, _, h =>
    forall_mem_cons.mpr ⟨h, forall_mem_append.mpr ⟨Stmt.wellFormed_of_mem_sitesList body _ h.2.2.1,
        Stmt.wellFormed_of_mem_sitesList orelse _ h.2.2.2⟩⟩
  | .whileLoop _ _ body orelse, _, h =>
    forall_mem_cons.mpr ⟨h, forall_mem_append.mpr ⟨Stmt.wellFormed_of_mem_sitesList body _ h.2.2.1,
        Stmt.wellFormed_of_mem_sitesList orelse _ h.2.2.2⟩⟩
  | .doLoop _ body _, _, h =>
    forall_mem_cons.mpr ⟨h, Stmt.wellFormed_of_mem_sitesList body _ h.2.1⟩
  | .switch _ _ cases default, _, h =>
    forall_mem_cons.mpr ⟨h, forall_mem_append.mpr ⟨SwitchCase.wellFormed_of_mem_sitesList cases _ h.2.2.1,
        Stmt.wellFormed_of_mem_sitesBlock default _ h.2.2.2⟩⟩
  | .expr _ _, _, h | .declare _ _, _, h | .assign _ _ _, _, h | .announce _ _, _, h
  | .result _ _, _, h | .leave _, _, h | .pass _, _, h | .struct _ _ _, _, h | .enum _ _ _, _, h
  | .typedef _ _ _, _, h | .define _ _ _, _, h | .includeFile _ _, _, h | .ifndef _ _, _, h
  | .endif _, _, h => forall_mem_singleton.mpr h

theorem Stmt.wellFormed_of_mem_sitesList : (body : List Stmt) → (site : Site) →
    Stmt.WellFormedList body → ∀ x ∈ Stmt.sitesList site body, x.stmt.WellFormed
  | [], _, _ => forall_mem_nil _
  | line :: rest, site, h =>
    forall_mem_append.mpr ⟨Stmt.wellFormed_of_mem_sites line site h.1, Stmt.wellFormed_of_mem_sitesList rest site h.2⟩

theorem Stmt.wellFormed_of_mem_sitesBlock : (block : Option (List Stmt)) → (site : Site) →
    Stmt.WellFormedBlock block → ∀ x ∈ Stmt.sitesBlock site block, x.stmt.WellFormed
  | none, _, _ => forall_mem_nil _
  | some body, site, h => Stmt.wellFormed_of_mem_sitesList body site h.2

theorem SwitchCase.wellFormed_of_mem_sites : (clause : SwitchCase) → (site : Site) →
    clause.WellFormed → ∀ x ∈ clause.sites site, x.stmt.WellFormed
  | .mk _ _ body, site, h => Stmt.wellFormed_of_mem_sitesList body site h.2.2.2

theorem SwitchCase.wellFormed_of_mem_sitesList : (clauses : List SwitchCase) → (site : Site) →
    SwitchCase.WellFormedList clauses → ∀ x ∈ SwitchCase.sitesList site clauses, x.stmt.WellFormed
  | [], _, _ => forall_mem_nil _
  | clause :: rest, site, h =>
    forall_mem_append.mpr ⟨SwitchCase.wellFormed_of_mem_sites clause site h.1,
        SwitchCase.wellFormed_of_mem_sitesList rest site h.2⟩

end

theorem Stmt.WellFormed.head {line : Stmt} (h : line.WellFormed) {head : FunctionHead}
    (hhead : line.head? = some head) : head.WellFormed := by
  cases line with
  | announce m f =>
    cases hhead
    exact h
  | function m f body =>
    cases hhead
    exact h.1
  | _ => cases hhead

theorem FunctionHead.WellFormed.spelled {head : FunctionHead} (h : head.WellFormed)
    (hname : head.name = EntryPoint.functionName) : EntryPoint.Spelled head :=
  EntryPoint.spelled_of_fill (h.entry hname ⟨.unknown, .unknown⟩)

/-! ### Names of scalars -/

namespace TypeTable

/-- The names of the scalars stand for the scalars. -/
def Standard (t : TypeTable) : Prop := ∀ s ∈ Scalar.builtin, t.entry? s.name = some (.base (.scalar s))

namespace Standard

variable {t t' : TypeTable} {s : Scalar} {name : String}

theorem builtin : TypeTable.builtin.Standard := by
  intro s hs
  simp only [Scalar.builtin, mem_cons, not_mem_nil, or_false] at hs
  rcases hs with rfl | rfl | rfl | rfl | rfl | rfl | rfl | rfl <;> rfl

variable (h : t.Standard)
include h

theorem enters (hnew : t.Enters name t') : t'.Standard := fun s hs => hnew.keeps (h s hs)

theorem ne_name (hfree : t.contains name = false) (hs : s ∈ Scalar.builtin) : name ≠ s.name := by
  intro heq
  rw [heq, not_contains_iff, h s hs] at hfree
  cases hfree

/-- A struct gets its members under a name of its own. -/
theorem complete (hname : ∀ s ∈ Scalar.builtin, name ≠ s.name)
    (type : ValueType) : (t.complete name type).Standard := by
  intro s hs
  rw [TypeTable.complete, entry_insert, if_neg (hname s hs)]
  exact h s hs

theorem absorb (other : TypeTable) : (t.absorb other).Standard := by
  intro s hs
  rw [entry_absorb, h s hs, Option.some_or]

theorem contains (hs : s ∈ Scalar.builtin) : t.contains s.name := contains_iff.mpr ⟨_, h s hs⟩

theorem resolve (hs : s ∈ Scalar.builtin) : t.resolve s.name = .ok (.scalar s) := (Leads.base (h s hs)).resolve

end Standard

end TypeTable

/-- No addition gives a scalar's name another meaning. -/
theorem Scope.Addition.standard {scope scope' : Scope} (h : scope.Addition scope')
    (hscope : scope.types.Standard) : scope'.types.Standard := by
  cases h with
  | bind name type =>
    unfold Scope.bind
    split
    · split
      · split <;> exact hscope
      · exact hscope
    · exact hscope
  | type h => exact hscope.enters (TypeTable.enters_add h)
  | synonym h => exact hscope.enters (TypeTable.enters_addAlias h)
  | typedef h => exact hscope.enters (TypeTable.enters_addTypedef h)
  | function | guard => exact hscope

namespace CheckState

/-- In every scope the names of the scalars stand for the scalars. -/
def Standard (s : CheckState) : Prop := ∀ frame ∈ s.frames, frame.types.Standard

namespace Standard

variable {s s' : CheckState}

section

variable (h : s.Standard)
include h

theorem congr (henvironment : s'.environment = s.environment) : s'.Standard := by
  unfold Standard frames
  rw [henvironment]
  exact h

theorem scope : s.scope.types.Standard := by
  refine h _ ?_
  unfold CheckState.scope Environment.current frames
  cases s.environment.locals with
  | nil => exact mem_cons_self
  | cons frame rest => exact mem_cons_self

theorem setScope {scope : Scope} (hscope : scope.types.Standard) :
    (s.setScope scope).Standard := by
  obtain ⟨⟨locals, global⟩⟩ := s
  cases locals with
  | nil => exact forall_mem_singleton.mpr hscope
  | cons first rest => exact forall_mem_cons.mpr ⟨hscope, (forall_mem_cons.mp h).2⟩

theorem enter (f : FunctionContext) :
    Standard { s with function := some f, environment := s.environment.enter } :=
  forall_mem_cons.mpr ⟨h.scope, h⟩

theorem exit :
    Standard { s with function := none, environment := s.environment.exit } := by
  obtain ⟨hlocals, hglobal⟩ := forall_mem_append.mp h
  exact forall_mem_append.mpr
    ⟨fun frame hframe => hlocals frame (mem_of_mem_drop hframe), hglobal⟩

theorem openHeader : s.openHeader.Standard := (forall_mem_append.mp h).2

/-- Local scopes keep what they say when they take in what a header declares. -/
theorem closeHeader (h' : s'.Standard) : (s.closeHeader s').Standard := by
  refine forall_mem_append.mpr ⟨?_, (forall_mem_append.mp h').2⟩
  intro frame hframe
  obtain ⟨before, hbefore, rfl⟩ := mem_map.mp hframe
  exact ((forall_mem_append.mp h).1 before hbefore).absorb _

end

theorem startState (path : Option Path) : (CheckedUnit.startState path).Standard := by
  cases path <;> exact forall_mem_singleton.mpr .builtin

end Standard

end CheckState

namespace Check

open CheckState (Standard)

variable {α β : Type} {config : Config} {sources : Sources} {s s' : CheckState}

/-- What a check does to the names of scalars: nothing. -/
def Upright (s s' : CheckState) : Prop := s.Standard → s'.Standard

/-- The name of a struct was free, so it is no scalar's. -/
theorem struct_upright (hT : Adds (Always Upright) sources) (name : String) (fields : List Field)
    (l : Location) : Ends (Always Upright) (Check.struct sources name fields l) := by
  intro s hs
  refine hT.seq (hT.changeTypes l trivial (fun _ _ h => .type h) s) (fun _ s1 hadd => ?_) hs
  have hname : ∀ scalar ∈ Scalar.builtin, name ≠ scalar.name := by
    obtain ⟨scope, _, hscope, hadd⟩ := run_bind_ok.mp hadd
    cases hscope
    cases hnew : s.scope.types.add name (.namedStruct name) with
    | ok types => exact fun scalar => hs.scope.ne_name (TypeTable.add_ok hnew).1
    | error fault =>
      dsimp only at hadd
      rw [hnew] at hadd
      cases hadd
  refine hT.seq (hT.structMembers name fields (fun _ _ => .any) s1) fun members s2 _ hs2 => ?_
  exact hs2.setScope (hs2.scope.complete hname _)

theorem upright_tolerates (config : Config) : Tolerates Upright config where
  refl _ h := h
  trans h h' hs := h' (h hs)
  add h hs := hs.setScope (h.standard hs.scope)
  constants _ _ hs := hs.setScope hs.scope
  struct name fields l h := struct_upright h name fields l
  infer _ _ hs := hs.congr rfl
  block h hs := (h (hs.congr rfl)).congr rfl
  breakable h hs := (h (hs.congr rfl)).congr rfl
  body f _ h hs := (h (hs.enter f)).exit
  header h hs := hs.closeHeader (h hs.openHeader)
  headerRead _ _ _ _ h hs := (hs.closeHeader (h hs.openHeader)).congr rfl
  visit _ hs := hs.congr rfl
  file _ h hs := (h (hs.congr rfl)).congr rfl
  unit _ _ _ _ h hs := (h (hs.congr rfl)).congr rfl

/-! ### The types of an entry point -/

theorem needType_standard (sources : Sources) (hs : s.Standard) {scalar : Scalar}
    (hscalar : scalar ∈ Scalar.builtin) : (needType sources scalar.name).run s = .ok () s := by
  have hknown : s.scope.types.contains scalar.name := hs.scope.contains hscalar
  show (if !s.scope.types.contains scalar.name then _ else _ : Check Unit).run s = _
  rw [hknown]
  rfl

/-- Where names of scalars mean what they say, the name of a scalar is its type. -/
theorem resolveName_standard (sources : Sources) (hs : s.Standard) {scalar : Scalar}
    (hscalar : scalar ∈ Scalar.builtin) (l : Location) (behindPointer : Bool) :
    (resolveName sources scalar.name l behindPointer).run s = .ok (.scalar scalar) s := by
  unfold resolveName
  rw [EStateM.run_bind, needType_standard sources hs hscalar]
  show (if s.scope.types.contains scalar.name then _ else _ : Check ValueType).run s = _
  rw [if_pos (hs.scope.contains hscalar), hs.scope.resolve hscalar]
  rfl

theorem resolveWith_pointer {type : ValueType}
    (h : (resolveWith sources true t).run s = .ok type s) (span : Span) (behindPointer : Bool) :
    (resolveWith sources behindPointer (.pointer span t)).run s = .ok (.pointer type) s := by
  rw [resolveWith, EStateM.run_bind, h]
  rfl

theorem resolve_count (sources : Sources) (hs : s.Standard) (span : Span) :
    (resolve sources (.name span "int")).run s = .ok .int s :=
  resolveName_standard sources hs (show Scalar.int ∈ Scalar.builtin by decide) span.start false

theorem resolve_texts (sources : Sources) (hs : s.Standard) (s1 s2 s3 : Span) :
    (resolve sources (.pointer s1 (.pointer s2 (.name s3 "char")))).run s = .ok (.pointer (.pointer .char)) s :=
  have hchar : (resolveWith sources true (.name s3 "char")).run s = .ok .char s :=
    resolveName_standard sources hs (show Scalar.char ∈ Scalar.builtin by decide) s3.start true
  resolveWith_pointer (resolveWith_pointer hchar s2 true) s1 false

section

variable {head head' : FunctionHead} {l : Location} {types : List ValueType}

/-- What a parameter spells out is its type, whatever was announced. -/
theorem paramType_declared {p : Param} {name function : String} {type : ValueType}
    (hkind : p.kind = .named name (some t)) (h : (resolve sources t).run s = .ok type s)
    (announced : Option ValueType) : (paramType sources function announced p).run s = .ok type s := by
  unfold paramType
  rw [hkind]
  exact h

theorem paramTypes_spelled (hs : s.Standard) (hhead : EntryPoint.Spelled head)
    (h : (paramTypes sources head.name head.params).run s = .ok types s') :
    types = [.int, .pointer (.pointer .char)] ∧ s'.Standard := by
  obtain ⟨first, second, count, texts, s0, s1, s2, s3, s4, hparams, hfirst, hsecond, _⟩ := hhead
  rw [hparams] at h
  obtain ⟨type, t, htype, h⟩ := run_bind_ok.mp h
  rw [paramType_declared hfirst (resolve_count sources hs s0)] at htype
  cases htype
  obtain ⟨rest, t, hrest, h⟩ := run_bind_ok.mp h
  obtain ⟨type, t', htype, hrest⟩ := run_bind_ok.mp hrest
  rw [paramType_declared hsecond (resolve_texts sources hs s1 s2 s3)] at htype
  cases htype
  cases hrest
  cases h
  exact ⟨rfl, hs⟩

theorem matchParams_spelled (hs : s.Standard) (hhead : EntryPoint.Spelled head)
    {announced : List ValueType} (hlength : head.params.length = announced.length)
    (h : (matchParams sources head.name head.params announced).run s = .ok types s') :
    types = [.int, .pointer (.pointer .char)] ∧ s'.Standard := by
  obtain ⟨first, second, count, texts, s0, s1, s2, s3, s4, hparams, hfirst, hsecond, _⟩ := hhead
  rw [hparams] at h hlength
  obtain ⟨a, b, rfl⟩ := length_eq_two.mp hlength.symm
  obtain ⟨type, t, htype, h⟩ := run_bind_ok.mp h
  rw [paramType_declared hfirst (resolve_count sources hs s0)] at htype
  cases htype
  obtain ⟨_, t, hrule, h⟩ := run_bind_ok.mp h
  rw [(require_ok hrule).2] at h
  obtain ⟨rest, t', hrest, h⟩ := run_bind_ok.mp h
  obtain ⟨type, _, htype, hrest⟩ := run_bind_ok.mp hrest
  rw [paramType_declared hsecond (resolve_texts sources hs s1 s2 s3)] at htype
  cases htype
  obtain ⟨_, t, hrule, hrest⟩ := run_bind_ok.mp hrest
  rw [(require_ok hrule).2] at hrest
  cases hrest
  cases h
  exact ⟨rfl, hs⟩

/-- The types of an entry point's definition, announced or not. -/
theorem definitionTypes_spelled (hs : s.Standard) (hhead : EntryPoint.Spelled head)
    {r : List ValueType × Option ValueType}
    (h : (definitionTypes sources head l).run s = .ok r s') :
    r = ([.int, .pointer (.pointer .char)], some .int) := by
  obtain ⟨span, hreturns⟩ := hhead.returns
  obtain ⟨scope, _, hscope, h⟩ := run_bind_ok.mp h
  cases hscope
  cases hknown : s.scope.lookup head.name with
  | none =>
    rw [hknown] at h
    obtain ⟨types, t, htypes, h⟩ := run_bind_ok.mp h
    obtain ⟨rfl, ht⟩ := paramTypes_spelled hs hhead htypes
    obtain ⟨returns, t', hresult, h⟩ := run_bind_ok.mp h
    rw [hreturns, resolveOption, EStateM.run_bind, resolve_count sources ht] at hresult
    cases hresult
    cases h
    rfl
  | some previous =>
    rw [hknown] at h
    cases previous with
    | function announced result =>
      obtain ⟨_, t, hrule, h⟩ := run_bind_ok.mp h
      have hlength : head.params.length = announced.length := by simpa using (require_ok hrule).1
      rw [(require_ok hrule).2] at h
      obtain ⟨types, t, htypes, h⟩ := run_bind_ok.mp h
      obtain ⟨rfl, ht⟩ := matchParams_spelled hs hhead hlength htypes
      rw [hreturns] at h
      obtain ⟨returns, t', hresult, h⟩ := run_bind_ok.mp h
      rw [resolve_count sources ht] at hresult
      cases hresult
      obtain ⟨_, t', hrule, h⟩ := run_bind_ok.mp h
      cases h
      rfl
    | _ => cases h

theorem announce_signature (hS : Respects (Always Upright) sources) (hs : s.Standard)
    (hhead : head.WellFormed) (h : (announce sources head l).run s = .ok head' s')
    (hname : head'.name = EntryPoint.functionName) : head'.signature = some EntryPoint.signature := by
  obtain ⟨_, t, hparams, h⟩ := run_bind_ok.mp h
  have ht : t.Standard := (hS.checkParams head.name [] head.params fun _ _ => .any).ok hparams hs
  obtain ⟨types, u, htypes, h⟩ := run_bind_ok.mp h
  obtain ⟨returns, u', hresult, h⟩ := run_bind_ok.mp h
  obtain ⟨scope, _, hscope, h⟩ := run_bind_ok.mp h
  cases hscope
  generalize u'.scope.bind head.name _ = bound at h
  obtain ⟨binding, scope⟩ := bound
  cases binding with
  | new | repeated =>
    cases h
    have hspelled := hhead.spelled hname
    obtain ⟨span, hreturns⟩ := hspelled.returns
    obtain ⟨rfl, hu⟩ := paramTypes_spelled ht hspelled htypes
    rw [hreturns, resolveOption, EStateM.run_bind, resolve_count sources hu] at hresult
    cases hresult
    rfl
  | conflict previous =>
    dsimp only at h
    split at h <;> cases h

/-- A definition comes back with the types of its head. -/
theorem closeDefinition_head {returns inferred : Option ValueType}
    (h : (closeDefinition head types returns inferred l).run s = .ok head' s') :
    head' = { head with
      params := withTypes head.params types
      signature := some (.function types (returns.getD (inferred.getD .void))) } := by
  unfold closeDefinition at h
  dsimp only at h
  split at h
  · obtain ⟨_, _, _, h⟩ := run_bind_ok.mp h
    cases h
    rfl
  · cases h
    rfl

end

/-! ### Programs -/

/-- Heads of entry points have the signature of one. -/
def Signed (xs : List Standing) : Prop :=
  ∀ x ∈ xs, ∀ head, x.stmt.head? = some head → head.name = EntryPoint.functionName →
    head.signature = some EntryPoint.signature

/-- From a state in which the names of scalars mean what they say, a part of a check leads to another, and
its answer is good. -/
def Marks (part : Check α) (good : α → Prop) : Prop := Ensures Standard part fun a s' => s'.Standard ∧ good a

namespace Marks

variable {part : Check α} {f : α → Check β} {good : α → Prop} {well : β → Prop}

theorem bind (hpart : Marks part good) (hf : ∀ a, good a → Marks (f a) well) : Marks (part >>= f) well :=
  Ensures.bind hpart fun a s b s' hs hrun => hf a hs.2 s b s' hs.1 hrun

theorem pure {a : α} (h : good a) : Marks (Pure.pure a) good := Ensures.pure fun _ hs => ⟨hs, h⟩

theorem of (h : Ends (Always Upright) part) : Marks part fun _ => True :=
  fun s _ _ hs hrun => ⟨(h s).ok hrun hs, trivial⟩

variable (h : Marks part good)
include h

theorem during {enter : CheckState → CheckState} {leave : CheckState → CheckState → CheckState} (henter : ∀ s, s.Standard → (enter s).Standard)
    (hleave : ∀ s s', s'.Standard → (leave s s').Standard) :
    Marks (Check.during enter leave part) good := by
  intro s a s' hs hrun
  obtain ⟨t, hpart, rfl⟩ := during_ok hrun
  obtain ⟨ht, hgood⟩ := h _ a t (henter s hs) hpart
  exact ⟨hleave s t ht, hgood⟩

theorem inBlock : Marks (Check.inBlock part) good := h.during (fun _ hs => hs.congr rfl) fun _ _ hs => hs.congr rfl

theorem inBreakable : Marks (Check.inBreakable part) good :=
  h.inBlock.during (fun _ hs => hs.congr rfl) fun _ _ hs => hs.congr rfl

theorem inFunction (context : FunctionContext) : Marks (Check.inFunction context part) good :=
  h.during (fun _ hs => hs.enter context) fun _ _ hs => hs.exit

end Marks

/-- A statement that is no function adds no head to those inside it. -/
theorem Signed.cons {xs : List Standing} (h : Signed xs) {line : Stmt} (hfree : line.head? = none)
    (site : Site) : Signed (⟨site, line⟩ :: xs) := by
  refine forall_mem_cons.mpr ⟨fun head hhead => ?_, h⟩
  rw [hfree] at hhead
  cases hhead

theorem Signed.append {xs ys : List Standing} (h : Signed xs) (h' : Signed ys) : Signed (xs ++ ys) :=
  forall_mem_append.mpr ⟨h, h'⟩

section

variable (hS : Respects (Always Upright) sources)
include hS

/-- A statement with nothing inside it that is no function. -/
theorem plain_marks {line : Stmt} (hplain : line.isPlain) (hfree : line.head? = none) (site : Site) :
    Marks (statement sources line) fun checked => Signed (checked.sites site) := by
  intro s checked s' hs hrun
  refine ⟨(hS.statement line .any).ok hrun hs, ?_⟩
  have hhead := statement_head? sources line s checked s' trivial hrun
  rw [hfree, Option.isSome_none, Option.isSome_eq_false_iff, Option.isNone_iff_eq_none] at hhead
  show Signed (checked.sites site)
  rw [Stmt.sites_plain (plain_stays sources line hplain s checked s' trivial hrun).1]
  exact Signed.cons (forall_mem_nil _) hhead site

theorem include_marks (m : Mark) (path : String) (site : Site) :
    Marks (statement sources (.includeFile m path)) fun checked => Signed (checked.sites site) := by
  intro s checked s' hs hrun
  refine ⟨(hS.statement _ .any).ok hrun hs, ?_⟩
  obtain ⟨_, _, _, hrun⟩ := run_bind_ok.mp hrun
  obtain ⟨_, _, _, hrun⟩ := run_bind_ok.mp hrun
  obtain ⟨_, _, _, hrun⟩ := run_bind_ok.mp hrun
  cases hrun
  exact Signed.cons (forall_mem_nil _) rfl site

theorem announce_marks (m : Mark) {head : FunctionHead} (hhead : head.WellFormed) (site : Site) :
    Marks (statement sources (.announce m head)) fun checked => Signed (checked.sites site) := by
  have hannounce : Marks (announce sources head m.span.start) fun head' =>
      head'.name = EntryPoint.functionName → head'.signature = some EntryPoint.signature := by
    intro s head' s' hs hrun
    refine ⟨(hS.announce head m.span.start .any trivial).ok hrun hs, fun hname => ?_⟩
    exact announce_signature hS hs hhead hrun hname
  refine hannounce.bind fun head' hhead' => .pure (forall_mem_singleton.mpr fun f hf hname => ?_)
  cases hf
  exact hhead' hname

/-- The head of a definition comes back with the signature of an entry point, if that is what it defines. -/
theorem definition_marks (m : Mark) {head : FunctionHead}
    {body : List Stmt} (hhead : head.WellFormed)
    (hbody : Marks (statements sources body) fun checked => Signed (Stmt.sitesList .body checked))
    (site : Site) :
    Marks (statement sources (.function m head body)) fun checked => Signed (checked.sites site) := by
  have hopen : Marks (openDefinition sources head m.span.start) fun r =>
      head.name = EntryPoint.functionName → r = ([.int, .pointer (.pointer .char)], some .int) := by
    intro s r s' hs hrun
    refine ⟨(hS.openDefinition head m.span.start .any trivial).ok hrun hs, fun hname => ?_⟩
    obtain ⟨types, returns⟩ := r
    obtain ⟨_, _, htypes, _⟩ := openDefinition_ok hrun
    exact definitionTypes_spelled hs (hhead.spelled hname) htypes
  have hinside (types : List ValueType) (context : FunctionContext) :
      Marks (inFunction context do
        modifyScope (bindParams head.params types)
        let body ← statements sources body
        return (body, (← get).function.bind (·.inferred))) fun r =>
          Signed (Stmt.sitesList .body r.1) := by
    refine .inFunction ((Marks.of (hS.bindParams head.params types)).bind fun _ _ => ?_) context
    exact hbody.bind fun body' hbody' => (Marks.of hS.get).bind fun _ _ => .pure hbody'
  refine hopen.bind fun ⟨types, returns⟩ htypes => (hinside types _).bind fun ⟨body', inferred⟩ hbody' => ?_
  have hclose : Marks (closeDefinition head types returns inferred m.span.start) fun head' =>
      head'.name = EntryPoint.functionName → head'.signature = some EntryPoint.signature := by
    intro s head' s' hs hrun
    refine ⟨(hS.closeDefinition head types returns inferred _ trivial).ok hrun hs, fun hname => ?_⟩
    obtain rfl := closeDefinition_head hrun
    cases htypes hname
    rfl
  refine hclose.bind fun head' hhead' => .pure (forall_mem_cons.mpr ⟨fun f hf hname => ?_, hbody'⟩)
  cases hf
  exact hhead' hname

end

mutual

theorem statement_marks (hS : Respects (Always Upright) sources) : (line : Stmt) → (site : Site) →
    line.WellFormed → Marks (statement sources line) fun checked => Signed (checked.sites site)
  | .announce m _, site, h => announce_marks hS m h site
  | .function m _ body, site, h => definition_marks hS m h.1 (statements_marks hS body .body h.2.2) site
  | .result _ value, site, _ =>
    (Marks.of (hS.result value _ (fun _ _ => .any) trivial)).bind fun _ _ =>
      .pure (.cons (forall_mem_nil _) rfl site)
  | .includeFile m path, site, _ => include_marks hS m path site
  | .ifElse _ c body orelse, site, h =>
    (Marks.of (hS.condition c _ .any)).bind fun _ _ =>
      (statements_marks hS body site.inBlock h.2.2.1).inBlock.bind fun _ hbody =>
        (statements_marks hS orelse site.inBlock h.2.2.2).inBlock.bind fun _ horelse =>
          .pure ((hbody.append horelse).cons rfl site)
  | .whileLoop _ c body orelse, site, h =>
    (Marks.of (hS.condition c _ .any)).bind fun _ _ =>
      (statements_marks hS body site.inBreakable h.2.2.1).inBreakable.bind fun _ hbody =>
        (statements_marks hS orelse site.inBlock h.2.2.2).inBlock.bind fun _ horelse =>
          .pure ((hbody.append horelse).cons rfl site)
  | .doLoop _ body c, site, h =>
    (statements_marks hS body site.inBreakable h.2.1).inBreakable.bind fun _ hbody =>
      (Marks.of (hS.condition c _ .any)).bind fun _ _ => .pure (hbody.cons rfl site)
  | .switch _ subject cases default, site, h =>
    (Marks.of (hS.typed subject .any)).bind fun r _ =>
      (Marks.of (hS.require _ _ _ rfl trivial)).bind fun _ _ =>
        (switchCases_marks hS r.2 cases site h.2.2.1).bind fun _ hcases =>
          (defaultCase_marks hS default site h.2.2.2).bind fun _ hdefault =>
            .pure ((hcases.append hdefault).cons rfl site)
  | .expr _ _, site, _ | .declare _ _, site, _ | .assign _ _ _, site, _ | .leave _, site, _
  | .pass _, site, _ | .struct _ _ _, site, _ | .enum _ _ _, site, _ | .typedef _ _ _, site, _
  | .define _ _ _, site, _ | .ifndef _ _, site, _ | .endif _, site, _ => plain_marks hS rfl rfl site

theorem statements_marks (hS : Respects (Always Upright) sources) : (body : List Stmt) →
    (site : Site) → Stmt.WellFormedList body →
    Marks (statements sources body) fun checked => Signed (Stmt.sitesList site checked)
  | [], _, _ => .pure (forall_mem_nil _)
  | line :: rest, site, h =>
    (statement_marks hS line site h.1).bind fun _ hline =>
      (statements_marks hS rest site h.2).bind fun _ hrest => .pure (hline.append hrest)

theorem switchCases_marks (hS : Respects (Always Upright) sources) (subject : ValueType) :
    (cases : List SwitchCase) → (site : Site) → SwitchCase.WellFormedList cases →
    Marks (switchCases sources subject cases) fun checked =>
      Signed (SwitchCase.sitesList site.inBreakable checked)
  | [], _, _ => .pure (forall_mem_nil _)
  | clause :: rest, site, h =>
    (switchCase_marks hS subject clause site h.1).bind fun _ hclause =>
      (switchCases_marks hS subject rest site h.2).bind fun _ hrest => .pure (hclause.append hrest)

theorem switchCase_marks (hS : Respects (Always Upright) sources) (subject : ValueType) :
    (clause : SwitchCase) → (site : Site) → clause.WellFormed →
    Marks (switchCase sources subject clause) fun checked => Signed (checked.sites site.inBreakable)
  | .mk _ values body, site, h =>
    (Marks.of (hS.caseLabels subject none values .any)).bind fun _ _ =>
      (statements_marks hS body site.inBreakable h.2.2.2).inBreakable.bind fun _ hbody => .pure hbody

theorem defaultCase_marks (hS : Respects (Always Upright) sources) : (clause : Option (List Stmt)) →
    (site : Site) → Stmt.WellFormedBlock clause →
    Marks (defaultCase sources clause) fun checked => Signed (Stmt.sitesBlock site.inBreakable checked)
  | none, _, _ => .pure (forall_mem_nil _)
  | some body, site, h =>
    (statements_marks hS body site.inBreakable h.2).inBreakable.bind fun _ hbody => .pure hbody

end

end Check

/-- **Every entry point has one signature.** In a text that can be read, every head of an entry point, at any
depth, names two parameters and spells out the types `int`, `char[][]` and `int`. In a program that is in
order, every head of an entry point in the program and in the files it includes is found to have the type
`(int, char[][]) -> int`, whatever else is declared around it. -/
theorem CheckedUnit.entryPoint_signature (file text : String) (m : Module)
    (h : Module.ofText file text = .ok m) :
    (∀ head ∈ m.allHeads, head.name = EntryPoint.functionName → EntryPoint.Spelled head) ∧
    ∀ config path u, CheckedUnit.ofModule config m path = .ok u →
      ∀ m' ∈ u.module :: u.units.map Prod.snd, ∀ head ∈ m'.allHeads,
        head.name = EntryPoint.functionName → head.signature = some EntryPoint.signature := by
  constructor
  · intro head hhead hname
    obtain ⟨x, hx, hhead⟩ := List.mem_filterMap.mp hhead
    have hread := Stmt.wellFormed_of_mem_sitesList m.body .top (Module.ofText_wellFormed h) x hx
    exact (hread.head hhead).spelled hname
  · intro config path u hu m' hm' head hhead hname
    have hkeeps (depth : Nat) := (Check.upright_tolerates config).respects depth
    -- A text is checked from a state in which the names of scalars mean what they say.
    have hsigned (depth : Nat) (file text : String) (m : Module) (s : CheckState) (body : List Stmt)
        (s' : CheckState) (hm : Module.ofText file text = .ok m) (hs : s.Standard)
        (hrun : (Check.statements (Check.sourcesTo config depth) m.body).run s = .ok body s') :
        Check.Signed (Stmt.sitesList .top body) :=
      (Check.statements_marks (hkeeps depth) m.body .top (Module.ofText_wellFormed hm) s body s' hs hrun).2
    unfold CheckedUnit.ofModule at hu
    split at hu
    case h_2 => cases hu
    rename_i body s hrun
    cases hu
    have hstart := CheckState.Standard.startState path
    have hprogram := hsigned _ file text m _ body s h hstart hrun
    have hunits : ∀ u ∈ s.units, Check.Signed (Stmt.sitesList .top u.2.body) := by
      refine Check.units_forall_read (P := fun m => Check.Signed (Stmt.sitesList .top m.body))
        (I := CheckState.Standard)
        (fun depth first s checked s' hrun => ((hkeeps depth).statement first .any).ok hrun)
        (fun s path hs => hs.congr rfl)
        (fun depth file text m s body s' hm _ hs hrun => hsigned depth file text m s body s' hm hs hrun)
        _ m.body (Check.between_startState path) hstart ?_ hrun
      cases path <;> exact List.forall_mem_nil _
    obtain ⟨x, hx, hstands⟩ := List.mem_filterMap.mp hhead
    rcases List.mem_cons.mp hm' with rfl | hm'
    · exact hprogram x hx head hstands hname
    · obtain ⟨unit, hunit, rfl⟩ := List.mem_map.mp hm'
      exact hunits unit hunit x hx head hstands hname

/-- An entry point that leaves out all but the names of its parameters, and is announced once more in its
body. -/
theorem CheckedUnit.entryPoint_signature_twice :
    ∃ m u, Module.ofText "t.cu" "def main(n, texts):\n    def main()\n" = .ok m ∧
      CheckedUnit.ofModule {} m none = .ok u ∧
      (∀ head ∈ m.allHeads, head.name = EntryPoint.functionName → EntryPoint.Spelled head) ∧
      u.module.allHeads.map FunctionHead.name = [EntryPoint.functionName, EntryPoint.functionName] ∧
      ∀ head ∈ u.module.allHeads, head.name = EntryPoint.functionName →
        head.signature = some EntryPoint.signature := by
  have h : (CheckedUnit.ofText {} "t.cu" "def main(n, texts):\n    def main()\n").toOption.any
      (fun u => u.module.allHeads.map FunctionHead.name ==
        [EntryPoint.functionName, EntryPoint.functionName]) = true := by
    decide +kernel
  obtain ⟨u, hu, hheads⟩ := exists_ok_of_any h
  obtain ⟨m, hm, hu⟩ := CheckedUnit.ofText_ok hu
  obtain ⟨hspelled, hsigned⟩ := CheckedUnit.entryPoint_signature _ _ m hm
  exact ⟨m, u, hm, hu, hspelled, by simpa using hheads, hsigned {} none u hu u.module List.mem_cons_self⟩

end Offside
