import Offside.Proofs.Check.Chronicle

/-! What every check upholds.

A property of frames that single declarations keep holds in all scopes of all stages that a check passes
(`Check.Upholds.passed`). What it may ask of the values on record is a parameter, as is what holds of the
results that functions get their types from (`Check.Upholds`). Besides, no scope ever loses the name of a
type (`Check.Passes.spreads`), and nothing is ever struck off the record (`Check.Passes.records`).

Two such properties are about the types that declarations give to variables. They differ in what is asked
of types, not in how it is kept (`Frame.Warranted`). -/
namespace Offside

open List

variable {head : FunctionHead} {types : List ValueType}

/-! ### Tables keep their names -/

/-- The second table knows the names of the first. -/
def TypeTable.NamesIn (t t' : TypeTable) : Prop := ∀ name, t.contains name = true → t'.contains name = true

namespace TypeTable.NamesIn

variable {t t' t'' : TypeTable} {name : String}

theorem refl (t : TypeTable) : t.NamesIn t := fun _ h => h

theorem trans (h : t.NamesIn t') (h' : t'.NamesIn t'') : t.NamesIn t'' := fun name ht => h' name (h name ht)

theorem ofEnters (h : t.Enters name t') : t.NamesIn t' := by
  intro other hother
  obtain ⟨entry, hentry⟩ := contains_iff.mp hother
  exact contains_iff.mpr ⟨entry, h.keeps hentry⟩

theorem complete (t : TypeTable) (name : String) (type : ValueType) : t.NamesIn (t.complete name type) := by
  intro other hother
  obtain ⟨entry, hentry⟩ := contains_iff.mp hother
  rw [contains_iff, TypeTable.complete, entry_insert]
  split
  · exact ⟨_, rfl⟩
  · exact ⟨entry, hentry⟩

theorem absorb (t other : TypeTable) : t.NamesIn (t.absorb other) := by
  intro name hname
  obtain ⟨entry, hentry⟩ := contains_iff.mp hname
  rw [contains_iff, entry_absorb, hentry]
  exact ⟨entry, rfl⟩

/-- What a table takes in is known in it. -/
theorem absorbed (t other : TypeTable) : other.NamesIn (t.absorb other) := by
  intro name hname
  obtain ⟨entry, hentry⟩ := contains_iff.mp hname
  rw [contains_iff, entry_absorb, hentry]
  cases t.entry? name with
  | none => exact ⟨entry, rfl⟩
  | some own => exact ⟨own, rfl⟩

end TypeTable.NamesIn

theorem Frame.Step.namesIn {f g : Frame} {phase : Phase} (h : f.Step phase g) :
    f.scope.types.NamesIn g.scope.types := by
  cases h with
  | noted functions guards => exact .refl _
  | declaration | function | known | member =>
    rw [Frame.types_declare]
    exact .refl _
  | struct h | enum _ h => exact .ofEnters (TypeTable.enters_add h)
  | synonym h => exact .ofEnters (TypeTable.enters_addAlias h)
  | typedef _ h => exact .ofEnters (TypeTable.enters_addTypedef h)

/-- What holds of all types in a table. -/
def TypeTable.Bases (ψ : ValueType → Prop) (t : TypeTable) : Prop :=
  ∀ key type, t.entry? key = some (.base type) → ψ type

theorem TypeTable.bases_builtin {ψ : ValueType → Prop} (h : ∀ s ∈ Scalar.builtin, ψ (.scalar s)) :
    builtin.Bases ψ := by
  intro key type hentry
  have hfind : Dictionary.find key (Scalar.builtin.map fun s => (s.name, TypeEntry.base (.scalar s))) =
      some (.base type) := hentry
  generalize Scalar.builtin = scalars at h hfind
  induction scalars with
  | nil => cases hfind
  | cons s rest ih =>
    rw [forall_mem_cons] at h
    simp only [map_cons, Dictionary.find] at hfind
    split at hfind
    · cases hfind
      exact h.1
    · exact ih h.2 hfind

namespace TypeTable.Bases

variable {ψ χ : ValueType → Prop} {t other : TypeTable}

theorem imp (h : t.Bases ψ) (hψ : ∀ type, ψ type → χ type) : t.Bases χ :=
  fun key type hentry => hψ type (h key type hentry)

theorem leads (h : t.Bases ψ) {name : String} {passed : List String} {type : ValueType}
    (hleads : t.Leads name passed type) : ψ type := by
  obtain ⟨last, hentry⟩ := hleads.entry
  exact h last type hentry

theorem insert (h : t.Bases ψ) (name : String) {entry : TypeEntry}
    (hnew : ∀ type, entry = .base type → ψ type) : TypeTable.Bases ψ ⟨t.entries.insert name entry⟩ := by
  intro key type hentry
  rw [entry_insert] at hentry
  split at hentry
  · exact hnew type (Option.some.inj hentry)
  · exact h key type hentry

theorem absorb (h : t.Bases ψ) (hother : other.Bases ψ) : (t.absorb other).Bases ψ := by
  intro key type hentry
  rw [entry_absorb] at hentry
  rcases Option.or_eq_some_iff.mp hentry with hown | ⟨_, htaken⟩
  · exact h key type hown
  · exact hother key type htaken

/-- A step adds a struct or an enumeration under its own name, or a type that can be written. -/
theorem step {f g : Frame} {phase : Phase} (h : f.scope.types.Bases ψ) (hstep : f.Step phase g)
    (hstruct : ∀ name, g.scope.types.contains name → ψ (.namedStruct name))
    (henum : ∀ name, g.scope.types.contains name → ψ (.scalar (.enum name)))
    (hforms : ∀ type, f.scope.types.Forms false type → ψ type) : g.scope.types.Bases ψ := by
  cases hstep with
  | noted functions guards => exact h
  | declaration | function | known | member =>
    rw [Frame.types_declare]
    exact h
  | @struct name types hadd =>
    have hnew := hstruct name (enters_add hadd).contains
    show types.Bases ψ
    rw [(add_ok hadd).2]
    exact h.insert name fun _ htype => TypeEntry.base.inj htype ▸ hnew
  | @enum name types _ hadd =>
    have hnew := henum name (enters_add hadd).contains
    show types.Bases ψ
    rw [(add_ok hadd).2]
    exact h.insert name fun _ htype => TypeEntry.base.inj htype ▸ hnew
  | @synonym name target types hadd =>
    show types.Bases ψ
    rw [(addAlias_ok hadd).2.2]
    exact h.insert name fun _ htype => nomatch htype
  | @typedef name type types htype hadd =>
    show types.Bases ψ
    obtain hbase | ⟨target, _, halias⟩ := (addTypedef_ok hadd).2
    · rw [hbase]
      exact h.insert name fun _ heq => TypeEntry.base.inj heq ▸ hforms type htype
    · rw [halias]
      exact h.insert name fun _ heq => nomatch heq

end TypeTable.Bases

/-- The tables of all scopes are related, one by one. -/
structure Environment.EachTable (R : TypeTable → TypeTable → Prop) (e e' : Environment) : Prop where
  locals : List.Forall₂ (fun s s' => R s.types s'.types) e.locals e'.locals
  global : R e.global.types e'.global.types

namespace Environment.EachTable

variable {R : TypeTable → TypeTable → Prop} {e e' e'' : Environment}

theorem refl (hR : ∀ t, R t t) (e : Environment) : e.EachTable R e := ⟨forall₂_same.mpr fun s _ => hR s.types, hR _⟩

theorem trans (hR : ∀ t t' t'', R t t' → R t' t'' → R t t'') (h : e.EachTable R e')
    (h' : e'.EachTable R e'') : e.EachTable R e'' where
  locals := forall₂_trans (fun s s' s'' => hR s.types s'.types s''.types) h.locals h'.locals
  global := hR _ _ _ h.global h'.global

theorem setCurrent (hR : ∀ t, R t t) {s : Scope} (h : R e.current.types s.types) :
    e.EachTable R (e.setCurrent s) := by
  obtain ⟨locals, global⟩ := e
  cases locals with
  | nil => exact ⟨.nil, h⟩
  | cons first rest => exact ⟨.cons h (refl hR ⟨rest, global⟩).locals, hR _⟩

theorem current (h : e.EachTable R e') : R e.current.types e'.current.types := by
  have hlocals := h.locals
  unfold Environment.current
  generalize e.locals = scopes at hlocals ⊢
  generalize e'.locals = scopes' at hlocals ⊢
  cases hlocals with
  | nil => exact h.global
  | cons hfirst _ => exact hfirst

/-- Behind a header the local scopes have taken in what is new. -/
theorem restoreLocals (h : R e.global.types e'.global.types)
    (habsorb : ∀ s ∈ e.locals, R s.types (s.types.absorb e'.global.types)) :
    e.EachTable R (e'.restoreLocals e.locals) := by
  refine ⟨?_, h⟩
  show List.Forall₂ _ e.locals (e.locals.map (·.absorb e'.global))
  rw [forall₂_map_right_iff]
  exact forall₂_same.mpr habsorb

theorem exit (h : e.EachTable R e') : e.exit.EachTable R e'.exit := ⟨forall₂_drop 1 h.locals, h.global⟩

end Environment.EachTable

/-- In all scopes the names of types that were known still are. -/
abbrev Environment.Spreads : Environment → Environment → Prop := Environment.EachTable TypeTable.NamesIn

namespace Environment.Spreads

variable {e e' e'' : Environment}

theorem refl (e : Environment) : e.Spreads e := EachTable.refl TypeTable.NamesIn.refl e

theorem trans (h : e.Spreads e') (h' : e'.Spreads e'') : e.Spreads e'' :=
  EachTable.trans (fun _ _ _ ht ht' => ht.trans ht') h h'

theorem setCurrent {s : Scope} (h : e.current.types.NamesIn s.types) : e.Spreads (e.setCurrent s) :=
  EachTable.setCurrent TypeTable.NamesIn.refl h

end Environment.Spreads

theorem Stage.spreads_declare (a : Stage) (name : String) (type : ValueType) (origin : Origin) :
    a.state.environment.Spreads (a.declare name type origin).state.environment := by
  apply Environment.Spreads.setCurrent
  rw [Frame.types_declare]
  exact .refl _

/-- The scopes around the body of a function. -/
theorem Stage.spreads_leave (a : Stage) (head : FunctionHead) (types : List ValueType) (returns : Option ValueType) :
    a.outside.state.environment.Spreads (a.leave head types returns).state.environment := by
  cases returns with
  | some type => exact .refl _
  | none => exact a.outside.spreads_declare _ _ _

/-! ### The record -/

/-- What the values on record and the values of results are like. -/
def Chronicle.Records (P Q : Expr → Prop) (c : Chronicle) : Prop := (∀ e ∈ c.values, P e) ∧ ∀ e ∈ c.results, Q e

namespace Chronicle.Records

variable {P Q : Expr → Prop} {a : Stage} {f : Frame} {e : Expr}

theorem ofSetFrame (h : (a.setFrame f).chronicle.Records P Q) : a.chronicle.Records P Q := by
  obtain ⟨s, ⟨locals, global, values, results⟩⟩ := a
  cases locals with
  | nil | cons => exact h

theorem ofNoteValue (h : (a.noteValue e).chronicle.Records P Q) : P e ∧ a.chronicle.Records P Q :=
  have hvalues := forall_mem_cons.mp h.1
  ⟨hvalues.1, hvalues.2, h.2⟩

theorem ofNoteResult (h : (a.noteResult e).chronicle.Records P Q) : Q e ∧ a.chronicle.Records P Q :=
  have hresults := forall_mem_cons.mp h.2
  ⟨hresults.1, h.1, hresults.2⟩

end Chronicle.Records

namespace Check

variable {config : Config} {phase : Phase} {a b : Stage}

/-- No scope loses the name of a type. -/
theorem Passes.spreads (h : Passes config phase a b) : a.state.environment.Spreads b.state.environment := by
  induction h with
  | refl phase a => exact .refl _
  | trans _ _ ih ih' => exact ih.trans ih'
  | ofHeaders _ ih | ofLines _ ih => exact ih
  | elsewhere henvironment _ =>
    rw [henvironment]
    exact .refl _
  | header _ ih => exact .restoreLocals ih.global fun s _ => .absorb s.types _
  | step hstep => exact .setCurrent hstep.namesIn
  | value name _ _ _ ih => exact ih.trans (Stage.spreads_declare _ _ _ _)
  | define name _ _ ih => exact ih.trans (Stage.spreads_declare _ _ _ _)
  | result function _ _ ih => exact ih
  | noResult function => exact .refl _
  | @struct a b name types members hadd _ _ ih =>
    have hnamed : a.state.environment.Spreads (a.setTypes types).state.environment :=
      .setCurrent (TypeTable.NamesIn.ofEnters (TypeTable.enters_add hadd))
    exact hnamed.trans (ih.trans (.setCurrent (TypeTable.NamesIn.complete _ _ _)))
  | @function a b head types returns _ _ ih =>
    have hbody : a.state.environment.Spreads b.outside.state.environment := ih.exit
    exact hbody.trans (b.spreads_leave head types returns)

/-- What a check has noted stays on record. -/
theorem Passes.records {P Q : Expr → Prop} (h : Passes config phase a b)
    (hb : b.chronicle.Records P Q) : a.chronicle.Records P Q := by
  induction h with
  | refl phase a => exact hb
  | trans _ _ ih ih' => exact ih (ih' hb)
  | ofHeaders _ ih | ofLines _ ih => exact ih hb
  | elsewhere henvironment _ => exact hb
  | header _ ih => exact ih hb
  | step hstep => exact hb.ofSetFrame
  | value name _ _ _ ih | define name _ _ ih => exact ih hb.ofSetFrame.ofNoteValue.2
  | result function _ _ ih => exact ih (Chronicle.Records.ofNoteResult hb).2
  | noResult function => exact hb
  | struct hadd _ _ ih => exact (ih hb.ofSetFrame).ofSetFrame
  | @function a b head types returns _ _ ih =>
    have hbody : b.chronicle.Records P Q := by
      cases returns with
      | some type => exact hb
      | none => exact hb.ofSetFrame
    exact (ih hbody).ofSetFrame

/-! ### Properties of frames -/

/-- A property of frames that checks uphold, where the values on record and the types of results are as
given. -/
structure Upholds (P Q : Expr → Prop) (T : ValueType → Prop) (R : Frame → Prop) : Prop where
  step {f g : Frame} {phase : Phase} : R f → f.Step phase g → R g
  absorb {f g : Frame} : R f → R g → R (f.absorb g)
  value {f : Frame} {checked : Expr} {type : ValueType} (name : String) : R f →
    checked.Has f.scope type → P checked → (type.isNull || type.isVoid || type.isVararg) = false →
    R (f.declare name type .value)
  define {f : Frame} {checked : Expr} {type : ValueType} (name : String) : R f →
    checked.Has f.scope type → P checked →
    R (f.declare name type (.constant (checked.fold f.scope.constants)))
  result {f : Frame} {checked : Expr} {type : ValueType} : R f → checked.Has f.scope type → Q checked → T type.decay
  noResult : T .void
  struct {f : Frame} {name : String} {members : List (String × ValueType)} : R f →
    f.scope.types.contains name = true →
    (∀ m ∈ members, f.scope.types.Forms false m.2 ∧ m.2.isVoid = false ∧ m.2.holds name = false) →
    R (f.withTypes (f.scope.types.complete name (.struct name members)))
  /-- The parameters at the beginning of a function. -/
  params {f : Frame} {head : FunctionHead} {types : List ValueType} : R f →
    List.Forall₂ (Param.Takes f.scope head.name) head.params types →
    R (f.child.bindParams ((f.history.origin? head.name).getD .function) head.params types)
  /-- A function whose result was inferred, behind its body. -/
  inferred {f g : Frame} {types : List ValueType} {returns : ValueType} (name : String) : R f → R g →
    f.scope.types.NamesIn g.scope.types → (∀ type ∈ types, f.scope.types.Forms false type) →
    T returns → R (g.declare name (.function types returns) .inferred)

end Check

theorem Stage.scope_setFrame (a : Stage) (f : Frame) : (a.setFrame f).state.scope = f.scope :=
  Environment.current_setCurrent _ _

/-- The parameters of a function are declared in a scope of its own. -/
theorem Stage.Each.enter {R : Frame → Prop} {a : Stage} {returns : Option ValueType} (h : a.Each R)
    (hparams : R (a.frame.child.bindParams ((a.frame.history.origin? head.name).getD .function)
      head.params types)) : (a.enter head types returns).Each R :=
  ⟨.cons hparams h.locals, h.global⟩

/-- What holds of all scopes of a stage and of the type that its function has been inferred to return. -/
structure Stage.Upheld (T : ValueType → Prop) (R : Frame → Prop) (a : Stage) : Prop where
  each : a.Each R
  inferred : ∀ function type, a.state.function = some function → function.inferred = some type → T type

theorem Stage.Upheld.openHeader {T : ValueType → Prop} {R : Frame → Prop} {a : Stage} (h : a.Upheld T R) :
    a.openHeader.Upheld T R :=
  ⟨h.each.openHeader, nofun⟩

namespace Check

variable {config : Config} {phase : Phase} {a b : Stage} {P Q : Expr → Prop} {T : ValueType → Prop} {R : Frame → Prop}

theorem Upholds.enter (hR : Upholds P Q T R) (ha : a.Upheld T R) {returns : Option ValueType}
    (htakes : head.Takes a.frame.scope types returns) : (a.enter head types returns).Upheld T R := by
  refine ⟨ha.each.enter (hR.params ha.each.frame htakes.params), ?_⟩
  rintro _ _ ⟨⟩ ⟨⟩

theorem Upholds.passes (hR : Upholds P Q T R) (h : Passes config phase a b)
    (hb : b.chronicle.Records P Q) (ha : a.Upheld T R) : b.Upheld T R := by
  induction h with
  | refl phase a => exact ha
  | trans _ h' ih ih' => exact ih' hb (ih (h'.records hb) ha)
  | ofHeaders _ ih | ofLines _ ih => exact ih hb ha
  | elsewhere henvironment hfunction =>
    exact ⟨ha.each.congr henvironment rfl rfl, fun f type hf => ha.inferred f type (hfunction ▸ hf)⟩
  | header _ ih =>
    have hheader := ih hb ha.openHeader
    exact ⟨ha.each.closeHeader hheader.each fun f hf => hR.absorb hf hheader.each.global, ha.inferred⟩
  | step hstep => exact ⟨ha.each.setFrame (hR.step ha.each.frame hstep), ha.inferred⟩
  | value name _ hvalue hkind ih =>
    obtain ⟨hchecked, hbefore⟩ := hb.ofSetFrame.ofNoteValue
    have hafter := ih hbefore ha
    have hdeclared := hR.value name hafter.each.frame hvalue hchecked hkind
    exact ⟨.setFrame (hafter.each.congr rfl rfl rfl) hdeclared, hafter.inferred⟩
  | define name _ hvalue ih =>
    obtain ⟨hchecked, hbefore⟩ := hb.ofSetFrame.ofNoteValue
    have hafter := ih hbefore ha
    have hdeclared := hR.define name hafter.each.frame hvalue hchecked
    exact ⟨.setFrame (hafter.each.congr rfl rfl rfl) hdeclared, hafter.inferred⟩
  | result function _ hvalue ih =>
    obtain ⟨hchecked, hbefore⟩ := Chronicle.Records.ofNoteResult hb
    have hafter := ih hbefore ha
    refine ⟨hafter.each.congr rfl rfl rfl, ?_⟩
    rintro _ _ ⟨⟩ ⟨⟩
    exact hR.result hafter.each.frame hvalue hchecked
  | noResult function =>
    refine ⟨ha.each.congr rfl rfl rfl, ?_⟩
    rintro _ _ ⟨⟩ ⟨⟩
    exact hR.noResult
  | @struct a b name types members hadd hread hmembers ih =>
    have hnamed : (a.setTypes types).Upheld T R :=
      ⟨ha.each.setFrame (hR.step ha.each.frame (.struct hadd)), ha.inferred⟩
    have hafter := ih hb.ofSetFrame hnamed
    have hknown : b.frame.scope.types.contains name := by
      apply hread.spreads.current
      rw [show (a.setTypes types).state.environment.current = _ from a.scope_setFrame _]
      exact (TypeTable.enters_add hadd).contains
    exact ⟨hafter.each.setFrame (hR.struct hafter.each.frame hknown hmembers), hafter.inferred⟩
  | @function a b head types returns htakes hbody ih =>
    cases returns with
    | some type => exact ⟨(ih hb (hR.enter ha htakes)).each.outside, nofun⟩
    | none =>
      have hafter := ih hb.ofSetFrame (hR.enter ha htakes)
      have hspreads : a.frame.scope.types.NamesIn b.outside.frame.scope.types := hbody.spreads.exit.current
      have hreturns : T ((b.state.function.bind (·.inferred)).getD .void) := by
        cases hfound : b.state.function.bind (·.inferred) with
        | none => exact hR.noResult
        | some type =>
          obtain ⟨function, hfunction, hinferred⟩ := Option.bind_eq_some_iff.mp hfound
          exact hafter.inferred function type hfunction hinferred
      have hdeclared := hR.inferred head.name ha.each.frame hafter.each.outside.frame hspreads
        (htakes.written rfl) hreturns
      exact ⟨hafter.each.outside.setFrame hdeclared, nofun⟩

/-- Every stage that is passed upholds what its steps do, if the check begins so. -/
theorem Upholds.passed (hR : Upholds P Q T R) (hstart : R ⟨{}, .start⟩) (h : Passed config a)
    (hrecords : a.chronicle.Records P Q) : a.Upheld T R := by
  induction h with
  | start path => cases path <;> exact ⟨⟨.nil, hstart⟩, nofun⟩
  | passes _ hpasses ih => exact hR.passes hpasses hrecords (ih (hpasses.records hrecords))
  | body _ htakes ih => exact hR.enter (ih hrecords.ofSetFrame) htakes
  | header _ ih => exact (ih hrecords).openHeader

end Check

/-! ### Types that are warranted -/

/-- What it takes for declarations to warrant the types of variables: `ψ` is about the types that can be
written where a table is in force, `φ` about those that declarations give. -/
structure TypeTable.Warrants (ψ : TypeTable → ValueType → Prop)
    (φ : TypeTable → Origin → ValueType → Prop) : Prop where
  spread {t t' : TypeTable} {type : ValueType} : t.NamesIn t' → ψ t type → ψ t' type
  spreadGiven {t t' : TypeTable} {origin : Origin} {type : ValueType} : t.NamesIn t' →
    φ t origin type → φ t' origin type
  enum {t : TypeTable} {name : String} : t.contains name = true → ψ t (.scalar (.enum name))
  struct {t : TypeTable} {name : String} {members : List (String × ValueType)} :
    t.contains name = true → (∀ m ∈ members, ψ t m.2) → ψ t (.struct name members)
  forms {t : TypeTable} {type : ValueType} : t.Bases (ψ t) → t.Forms false type → ψ t type
  declaration {t : TypeTable} {type : ValueType} : ψ t type → type.isVoid = false → φ t .declaration type
  function {t : TypeTable} {params : List ValueType} {returns : ValueType} :
    ψ t (.function params returns) → φ t .function (.function params returns)
  member {t : TypeTable} {name : String} (value : Int) : ψ t (.scalar (.enum name)) →
    φ t (.member value) (.scalar (.enum name))
  parameter {t : TypeTable} {type : ValueType} : ψ t type → φ t .parameter type
  announced {t : TypeTable} {origin : Origin} {params : List ValueType} {returns type : ValueType} :
    φ t origin (.function params returns) → type ∈ params → φ t (.announced origin) type

/-- The types in the table and those of variables are warranted. -/
structure Frame.Warranted (ψ : TypeTable → ValueType → Prop)
    (φ : TypeTable → Origin → ValueType → Prop) (f : Frame) : Prop where
  table : f.scope.types.Bases (ψ f.scope.types)
  bears : f.Bears (φ f.scope.types)

namespace Frame.Warranted

variable {ψ : TypeTable → ValueType → Prop} {φ : TypeTable → Origin → ValueType → Prop} {f g : Frame}
  {name : String} {type : ValueType} {origin : Origin}

theorem declare (h : f.Warranted ψ φ)
    (hnew : (f.scope.isLocal name → f.scope.lookup name = none) → φ f.scope.types origin type) :
    (f.declare name type origin).Warranted ψ φ := by
  refine ⟨?_, ?_⟩
  · rw [types_declare]
    exact h.table
  · rw [types_declare]
    exact h.bears.declare hnew

variable (hW : TypeTable.Warrants ψ φ)
include hW

variable (h : f.Warranted ψ φ)
include h

/-- With more names of types. -/
theorem withTypes {types : TypeTable} (htypes : types.Bases (ψ types))
    (hnames : f.scope.types.NamesIn types) : (f.withTypes types).Warranted ψ φ :=
  ⟨htypes, (h.bears.withTypes types).imp fun _ _ => hW.spreadGiven hnames⟩

theorem step {phase : Phase} (hstep : f.Step phase g) : g.Warranted ψ φ := by
  have hnames := hstep.namesIn
  have htable : g.scope.types.Bases (ψ g.scope.types) := by
    refine TypeTable.Bases.step (h.table.imp fun _ => hW.spread hnames) hstep ?_ ?_ ?_
    · exact fun name hname => hW.struct hname (forall_mem_nil _)
    · exact fun name hname => hW.enum hname
    · exact fun type htype => hW.spread hnames (hW.forms h.table htype)
  cases hstep with
  | noted functions guards => exact ⟨h.table, h.bears⟩
  | declaration name hforms hvoid =>
    exact h.declare fun _ => hW.declaration (hW.forms h.table hforms) hvoid
  | function name hforms => exact h.declare fun _ => hW.function (hW.forms h.table hforms)
  | known type hrooted hlookup => exact h.declare fun hfree => absurd hfree (hrooted.not_free hlookup)
  | struct | synonym | typedef | enum => exact h.withTypes hW htable hnames
  | member member value hentry => exact h.declare fun _ => hW.member value (h.table _ _ hentry)

theorem absorb (hg : g.Warranted ψ φ) : (f.absorb g).Warranted ψ φ := by
  have hown : f.scope.types.NamesIn (f.absorb g).scope.types := .absorb _ _
  have htaken : g.scope.types.NamesIn (f.absorb g).scope.types := .absorbed _ _
  refine ⟨.absorb (h.table.imp fun _ => hW.spread hown) (hg.table.imp fun _ => hW.spread htaken), ?_⟩
  exact .absorb (h.bears.imp fun _ _ => hW.spreadGiven hown) (hg.bears.imp fun _ _ => hW.spreadGiven htaken)

theorem struct {members : List (String × ValueType)} (hknown : f.scope.types.contains name)
    (hmembers : ∀ m ∈ members, f.scope.types.Forms false m.2) :
    (f.withTypes (f.scope.types.complete name (.struct name members))).Warranted ψ φ := by
  have hnames := TypeTable.NamesIn.complete f.scope.types name (.struct name members)
  refine h.withTypes hW ?_ hnames
  refine TypeTable.Bases.insert (h.table.imp fun _ => hW.spread hnames) name ?_
  rintro _ ⟨⟩
  exact hW.spread hnames (hW.struct hknown fun m hm => hW.forms h.table (hmembers m hm))

/-- The types of parameters are written out or come from the function. -/
theorem params (htakes : List.Forall₂ (Param.Takes f.scope head.name) head.params types) :
    (f.child.bindParams ((f.history.origin? head.name).getD .function) head.params types).Warranted
      ψ φ := by
  have hparams : List.Forall₂ (fun p type => φ f.scope.types
      (Param.origin ((f.history.origin? head.name).getD .function) p) type) head.params types := by
    refine htakes.imp fun p type hp => ?_
    unfold Param.Takes at hp
    unfold Param.origin
    split at hp
    · obtain ⟨params, returns, hlookup, hmem⟩ := hp
      obtain ⟨origin, horigin, hgiven⟩ := h.bears.origin hlookup
      rw [horigin]
      exact hW.announced hgiven hmem
    · exact hW.parameter (hW.forms h.table hp)
  have hchild : f.child.Warranted ψ φ := ⟨h.table, h.bears⟩
  -- The parameters are judged by the table that the function begins with, which they do not change.
  refine (Frame.bindParams_keeps (R := fun g => g.Warranted ψ φ ∧ g.scope.types = f.scope.types)
    (f := f.child) ⟨hchild, rfl⟩ hparams fun g name type origin hg hgiven => ?_).1
  refine ⟨hg.1.declare fun _ => ?_, ?_⟩
  · rw [hg.2]
    exact hgiven
  · rw [types_declare]
    exact hg.2

end Frame.Warranted

end Offside
