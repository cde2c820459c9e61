import Offside.Proofs.Check.Passage
import Offside.Proofs.Check.Upheld

/-! Structs inside structs.

A struct may hold other structs by value, directly or in arrays, and these hold others in turn. A check
asks of the members of a struct only that they do not hold the struct itself. That is enough: a struct is
entered under its name alone before its members are looked at, so whatever else they hold was complete
before. In every scope of every state that a check visits, a struct that occurs inside a type of the table
has the very members that the table gives it, and no struct holds itself through others
(`Check.Visited.containment_wellFounded`).

Local scopes take over names that headers add to the global one. Nothing goes wrong there, because headers
add structs without members and synonyms only (`TypeTable.AddsPlain`), and local scopes already know all
other names. -/
namespace Offside

open List

variable {members : List (String × ValueType)} {struct : String}

/-- The struct occurs in a value of the type, directly, in an array or in a member. -/
inductive ValueType.Inline (struct : String) (members : List (String × ValueType)) : ValueType → Prop where
  | whole : Inline struct members (.struct struct members)
  | element {t : ValueType} (size : ArraySize) : Inline struct members t → Inline struct members (.array t size)
  | member {name : String} {others : List (String × ValueType)} {m : String × ValueType} : m ∈ others →
      Inline struct members m.2 → Inline struct members (.struct name others)

open ValueType (Inline)

/-- What a type holds occurs in it, with some members. -/
theorem ValueType.inline_of_holds {struct : String} : (t : ValueType) → t.holds struct →
    ∃ members, Inline struct members t
  | .array t size, h => by
    obtain ⟨members, hinline⟩ := inline_of_holds t h
    exact ⟨members, .element size hinline⟩
  | .struct name members, h => by
    have hname : name = struct := by simpa using h
    rw [hname]
    exact ⟨members, .whole⟩
  | .scalar _, h | .pointer _, h | .function _ _, h => nomatch h

theorem ValueType.sizeOf_member {name : String}
    {m : String × ValueType} (hm : m ∈ members) : sizeOf m.2 < sizeOf (ValueType.struct name members) := by
  have hlist := sizeOf_lt_of_mem hm
  obtain ⟨n, t⟩ := m
  simp only [Prod.mk.sizeOf_spec, struct.sizeOf_spec] at hlist ⊢
  omega

theorem ValueType.Inline.sizeOf_le {t : ValueType}
    (h : Inline struct members t) : sizeOf (ValueType.struct struct members) ≤ sizeOf t := by
  induction h with
  | whole => exact Nat.le_refl _
  | element size _ ih =>
    simp only [array.sizeOf_spec]
    omega
  | member hm _ ih => exact ih.trans (sizeOf_member hm).le

/-- A struct without members holds itself only. -/
theorem ValueType.Inline.of_namedStruct {name : String}
    (h : Inline struct members (.namedStruct name)) : struct = name ∧ members = [] := by
  cases h with
  | whole => exact ⟨rfl, rfl⟩
  | member hm => cases hm

namespace TypeTable

/-- A struct of the table has a member that holds the other, directly or in arrays. -/
def Stores (t : TypeTable) (outer inner : String) : Prop :=
  ∃ key members, t.entry? key = some (.base (.struct outer members)) ∧ ∃ m ∈ members, m.2.holds inner = true

/-- A struct that occurs in a type of the table has the members that the table gives it. -/
def Exact (t : TypeTable) : Prop := ∀ key type, t.entry? key = some (.base type) →
  ∀ struct members, Inline struct members type → t.entry? struct = some (.base (.struct struct members))

/-- The size of the type under a name. -/
noncomputable def extent (t : TypeTable) (name : String) : Nat := match t.entry? name with
  | some (.base type) => sizeOf type
  | _ => 0

namespace Exact

variable {t t' : TypeTable} {name : String} {type : ValueType}

variable (h : t.Exact)
include h

/-- What a struct holds is smaller. -/
theorem extent_lt {outer inner : String} (hstores : t.Stores outer inner) : t.extent inner < t.extent outer := by
  obtain ⟨key, members, hentry, m, hm, hholds⟩ := hstores
  obtain ⟨others, hinline⟩ := ValueType.inline_of_holds m.2 hholds
  have houter := h key _ hentry outer members .whole
  have hinner := h key _ hentry inner others (.member hm hinline)
  simp only [extent, houter, hinner]
  exact hinline.sizeOf_le.trans_lt (ValueType.sizeOf_member hm)

theorem wellFounded : WellFounded fun inner outer => t.Stores outer inner :=
  Subrelation.wf (fun hstores => h.extent_lt hstores) (measure t.extent).wf

theorem acyclic (name : String) : ¬ Relation.TransGen t.Stores name name := by
  intro hcycle
  have hlt : ∀ {outer inner : String}, Relation.TransGen t.Stores outer inner → t.extent inner < t.extent outer := by
    intro outer inner hpath
    induction hpath with
    | single hstep => exact h.extent_lt hstep
    | tail _ hstep ih => exact (h.extent_lt hstep).trans ih
  exact Nat.lt_irrefl _ (hlt hcycle)

/-- What can be written outside pointers has the members that the table gives. -/
theorem forms {behindPointer : Bool} (hforms : t.Forms behindPointer type) (hpointer : behindPointer = false)
    (hinline : Inline struct members type) :
    t.entry? struct = some (.base (.struct struct members)) := by
  induction hforms with
  | scalar | pointer | function => cases hinline
  | named hleads =>
    obtain ⟨last, hentry⟩ := hleads.entry
    exact h last _ hentry struct members hinline
  | forward name => cases hpointer
  | array size _ _ ih =>
    cases hinline with
    | element _ hinline => exact ih hpointer hinline

/-- A new entry, in which all structs are those of the table. -/
theorem enters (hfree : t.contains name = false) {entry : TypeEntry}
    (hnew : ∀ type, entry = .base type → ∀ struct members, Inline struct members type →
      t.entry? struct = some (.base (.struct struct members))) :
    TypeTable.Exact ⟨t.entries.insert name entry⟩ := by
  intro key type hentry struct members hinline
  apply entry_insert_of_free hfree entry
  rw [entry_insert] at hentry
  split at hentry
  · exact hnew type (Option.some.inj hentry) struct members hinline
  · exact h key type hentry struct members hinline

end Exact

/-! ### Headers add plain entries -/

/-- What headers add under a name: the struct of that name, or a synonym. -/
def IsPlain (name : String) (entry : TypeEntry) : Prop :=
  entry = .base (.namedStruct name) ∨ ∃ target, entry = .alias target

/-- The second table has what the first has, and besides only plain entries. -/
structure AddsPlain (t t' : TypeTable) : Prop where
  keeps : ∀ name entry, t.entry? name = some entry → t'.entry? name = some entry
  entries : ∀ name entry, t'.entry? name = some entry → t.entry? name = some entry ∨ IsPlain name entry

namespace AddsPlain

variable {t t' t'' : TypeTable} {name : String}

theorem refl (t : TypeTable) : t.AddsPlain t := ⟨fun _ _ h => h, fun _ _ => .inl⟩

theorem trans (h : t.AddsPlain t') (h' : t'.AddsPlain t'') : t.AddsPlain t'' where
  keeps name entry hentry := h'.keeps name entry (h.keeps name entry hentry)
  entries name entry hentry := (h'.entries name entry hentry).elim (h.entries name entry) .inr

theorem names (h : t.AddsPlain t') : t.NamesIn t' := by
  intro name hname
  obtain ⟨entry, hentry⟩ := contains_iff.mp hname
  exact contains_iff.mpr ⟨entry, h.keeps name entry hentry⟩

theorem insert (hfree : t.contains name = false) {entry : TypeEntry} (hplain : IsPlain name entry) :
    t.AddsPlain ⟨t.entries.insert name entry⟩ := by
  refine ⟨fun _ _ => entry_insert_of_free hfree entry, fun other found hfound => ?_⟩
  rw [entry_insert] at hfound
  split at hfound
  · rename_i heq
    cases hfound
    exact .inr (heq ▸ hplain)
  · exact .inl hfound

/-- A table that knew all names of another takes over what was added to that. -/
theorem absorb {global global' : TypeTable} (h : global.AddsPlain global')
    (hknown : global.NamesIn t) : t.AddsPlain (t.absorb global') where
  keeps name entry hentry := by
    rw [entry_absorb, hentry]
    rfl
  entries name entry hentry := by
    rw [entry_absorb] at hentry
    rcases Option.or_eq_some_iff.mp hentry with hown | ⟨hnone, htaken⟩
    · exact .inl hown
    · rcases h.entries name entry htaken with hold | hplain
      · obtain ⟨own, hown⟩ := contains_iff.mp (hknown name (contains_iff.mpr ⟨entry, hold⟩))
        rw [hnone] at hown
        cases hown
      · exact .inr hplain

theorem step {f g : Frame} {phase : Phase} (h : f.Step phase g) (hphase : phase ≠ .statements) :
    f.scope.types.AddsPlain g.scope.types := by
  cases h with
  | noted functions guards => exact .refl _
  | declaration | function | known =>
    rw [Frame.types_declare]
    exact .refl _
  | @struct name types hadd =>
    show f.scope.types.AddsPlain types
    obtain ⟨hfree, rfl⟩ := add_ok hadd
    exact .insert hfree (.inl rfl)
  | @synonym name target types hadd =>
    show f.scope.types.AddsPlain types
    obtain ⟨hfree, _, rfl⟩ := addAlias_ok hadd
    exact .insert hfree (.inr ⟨target, rfl⟩)
  | typedef | enum | member => exact absurd rfl hphase

theorem exact (h : t.AddsPlain t') (ht : t.Exact) : t'.Exact := by
  intro key type hentry struct members hinline
  rcases h.entries key _ hentry with hold | hplain | ⟨target, halias⟩
  · exact h.keeps _ _ (ht key type hold struct members hinline)
  · cases hplain
    obtain ⟨rfl, rfl⟩ := hinline.of_namedStruct
    exact hentry
  · cases halias

end AddsPlain

theorem Exact.step {f g : Frame} {phase : Phase} (h : f.scope.types.Exact) (hstep : f.Step phase g) :
    g.scope.types.Exact := by
  by_cases hphase : phase = .statements
  · cases hstep with
    | noted | declaration | function | known | struct | synonym => cases hphase
    | @typedef name type types htype hadd =>
      show types.Exact
      obtain ⟨hfree, rfl | ⟨target, _, rfl⟩⟩ := addTypedef_ok hadd
      · refine h.enters hfree fun _ heq struct members hinline => ?_
        cases heq
        exact h.forms htype rfl hinline
      · exact h.enters hfree fun type heq => nomatch heq
    | @enum name types _ hadd =>
      show types.Exact
      obtain ⟨hfree, rfl⟩ := add_ok hadd
      refine h.enters hfree fun type heq struct members hinline => ?_
      cases heq
      cases hinline
    | member =>
      rw [Frame.types_declare]
      exact h
  · exact (AddsPlain.step hstep hphase).exact h

/-! ### The struct whose members are read -/

/-- Nothing but its own entry holds the struct, and that gives no members yet. -/
def Pending (t : TypeTable) (name : String) : Prop := ∀ key type, t.entry? key = some (.base type) →
  ∀ members, Inline name members type → key = name ∧ type = .namedStruct name

namespace Pending

variable {t t' : TypeTable} {name : String} {type : ValueType} {members : List (String × ValueType)}

theorem add (h : t.Exact) (hadd : t.add name (.namedStruct name) = .ok t') : t'.Pending name := by
  obtain ⟨hfree, rfl⟩ := add_ok hadd
  intro key type hentry members hinline
  rw [entry_insert] at hentry
  split at hentry
  · rename_i heq
    cases hentry
    exact ⟨heq.symm, rfl⟩
  · have hknown := h key type hentry name members hinline
    rw [not_contains_iff.mp hfree] at hknown
    cases hknown

theorem addsPlain (h : t.Pending name) (hadds : t.AddsPlain t') : t'.Pending name := by
  intro key type hentry members hinline
  rcases hadds.entries key _ hentry with hold | hplain | ⟨target, halias⟩
  · exact h key type hold members hinline
  · cases hplain
    obtain ⟨rfl, -⟩ := hinline.of_namedStruct
    exact ⟨rfl, rfl⟩
  · cases halias

/-- To look for the struct itself, through arrays only, is enough. -/
theorem not_inline (h : t.Pending name) {behindPointer : Bool} (hforms : t.Forms behindPointer type)
    (hpointer : behindPointer = false) (hholds : type.holds name = false) :
    ¬ Inline name members type := by
  intro hinline
  induction hforms with
  | scalar | pointer | function => cases hinline
  | named hleads =>
    obtain ⟨last, hentry⟩ := hleads.entry
    obtain ⟨-, rfl⟩ := h last _ hentry members hinline
    simp [ValueType.namedStruct] at hholds
  | forward name => cases hpointer
  | array size _ _ ih =>
    cases hinline with
    | element _ hinline => exact ih hpointer hholds hinline

/-- With members that do not hold the struct, it is like the others. -/
theorem complete (h : t.Pending name) (ht : t.Exact)
    (hmembers : ∀ m ∈ members, t.Forms false m.2 ∧ m.2.isVoid = false ∧ m.2.holds name = false) :
    (t.complete name (.struct name members)).Exact := by
  have hother : ∀ struct others, struct ≠ name → t.entry? struct = some (.base (.struct struct others)) →
      entry? (t.complete name (.struct name members)) struct = some (.base (.struct struct others)) := by
    intro struct others hne hentry
    rw [TypeTable.complete, entry_insert, if_neg hne.symm]
    exact hentry
  intro key type hentry struct others hinline
  rw [TypeTable.complete, entry_insert] at hentry
  split at hentry
  · cases hentry
    cases hinline with
    | whole => rw [TypeTable.complete, entry_insert, if_pos rfl]
    | member hm hinline =>
      obtain ⟨hforms, -, hholds⟩ := hmembers _ hm
      refine hother struct others ?_ (ht.forms hforms rfl hinline)
      rintro rfl
      exact h.not_inline hforms rfl hholds hinline
  · rename_i hkey
    refine hother struct others ?_ (ht key type hentry struct others hinline)
    rintro rfl
    exact hkey (h key type hentry others hinline).1.symm

end Pending

end TypeTable

/-! ### All scopes -/

namespace Environment

/-- The local scopes know the global types by name. -/
def Covers (e : Environment) : Prop := ∀ s ∈ e.locals, e.global.types.NamesIn s.types

namespace Covers

variable {e e' : Environment}

theorem current (h : e.Covers) : e.global.types.NamesIn e.current.types := by
  obtain ⟨locals, global⟩ := e
  cases locals with
  | nil => exact .refl _
  | cons first rest => exact h first mem_cons_self

theorem setCurrent (h : e.Covers) {s : Scope} (hs : e.current.types.NamesIn s.types) :
    (e.setCurrent s).Covers := by
  have hcurrent := h.current
  obtain ⟨locals, global⟩ := e
  cases locals with
  | nil => exact forall_mem_nil _
  | cons first rest =>
    exact forall_mem_cons.mpr ⟨hcurrent.trans hs, (forall_mem_cons.mp h).2⟩

theorem restoreLocals (e : Environment) (locals : List Scope) : (e.restoreLocals locals).Covers := by
  intro s hs
  obtain ⟨s, _, rfl⟩ := mem_map.mp hs
  exact .absorbed _ _

end Covers

/-- In all scopes the structs inside types have the members that the scope gives them. -/
structure Exact (e : Environment) : Prop where
  covers : e.Covers
  locals : ∀ s ∈ e.locals, s.types.Exact
  global : e.global.types.Exact

namespace Exact

variable {e e' : Environment}

variable (h : e.Exact)
include h

theorem current : e.current.types.Exact := by
  obtain ⟨locals, global⟩ := e
  cases locals with
  | nil => exact h.global
  | cons first rest => exact h.locals first mem_cons_self

theorem setCurrent {s : Scope} (hs : s.types.Exact)
    (hnames : e.current.types.NamesIn s.types) : (e.setCurrent s).Exact := by
  have hcovers := h.covers.setCurrent hnames
  obtain ⟨locals, global⟩ := e
  cases locals with
  | nil => exact ⟨hcovers, h.locals, hs⟩
  | cons first rest =>
    exact ⟨hcovers, forall_mem_cons.mpr ⟨hs, (forall_mem_cons.mp h.locals).2⟩, h.global⟩

theorem addsPlain (hadds : e.EachTable TypeTable.AddsPlain e') (hcovers : e'.Covers) : e'.Exact where
  covers := hcovers
  locals := by
    have hold := h.locals
    have hlocals := hadds.locals
    generalize e.locals = scopes at hold hlocals
    generalize e'.locals = scopes' at hlocals ⊢
    induction hlocals with
    | nil => exact forall_mem_nil _
    | cons hfirst _ ih =>
      obtain ⟨hhead, hrest⟩ := forall_mem_cons.mp hold
      exact forall_mem_cons.mpr ⟨hfirst.exact hhead, ih hrest⟩
  global := hadds.global.exact h.global

/-- A function has the types of the scope around it. -/
theorem enter : e.enter.Exact where
  covers := forall_mem_cons.mpr ⟨h.covers.current, h.covers⟩
  locals := forall_mem_cons.mpr ⟨h.current, h.locals⟩
  global := h.global

theorem exit : e.exit.Exact where
  covers s hs := h.covers s (mem_of_mem_drop hs)
  locals s hs := h.locals s (mem_of_mem_drop hs)
  global := h.global

end Exact

end Environment

theorem Environment.Exact.declare {a : Stage} (h : a.state.environment.Exact) (name : String)
    (type : ValueType) (origin : Origin) : (a.declare name type origin).state.environment.Exact := by
  have htypes := a.frame.types_declare name type origin
  apply h.setCurrent
  · rw [htypes]
    exact h.current
  · rw [htypes]
    exact .refl _

theorem Environment.Exact.enterFunction {a : Stage} (h : a.state.environment.Exact)
    (head : FunctionHead) (types : List ValueType) (returns : Option ValueType) :
    (a.enter head types returns).state.environment.Exact := by
  have htypes := a.frame.child.types_bindParams ((a.frame.history.origin? head.name).getD .function) head.params types
  apply h.enter.setCurrent
  · show TypeTable.Exact (a.frame.child.bindParams _ head.params types).scope.types
    rw [htypes]
    exact h.current
  · show TypeTable.NamesIn _ (a.frame.child.bindParams _ head.params types).scope.types
    rw [htypes]
    exact .refl _

namespace Check

variable {config : Config} {phase : Phase} {a b : Stage}

/-- Headers add plain entries, and local scopes take them over. -/
theorem Passes.addsPlain (h : Passes config phase a b) (hphase : phase ≠ .statements)
    (ha : a.state.environment.Covers) :
    a.state.environment.EachTable TypeTable.AddsPlain b.state.environment ∧ b.state.environment.Covers := by
  induction h with
  | refl phase a => exact ⟨.refl TypeTable.AddsPlain.refl _, ha⟩
  | trans _ _ ih ih' =>
    obtain ⟨hadds, hcovers⟩ := ih hphase ha
    obtain ⟨hadds', hcovers'⟩ := ih' hphase hcovers
    exact ⟨hadds.trans (fun _ _ _ ht ht' => ht.trans ht') hadds', hcovers'⟩
  | ofHeaders _ ih => exact ih nofun ha
  | elsewhere henvironment _ =>
    rw [henvironment]
    exact ⟨.refl TypeTable.AddsPlain.refl _, ha⟩
  | header _ ih =>
    obtain ⟨hadds, -⟩ := ih nofun (forall_mem_nil _)
    refine ⟨.restoreLocals hadds.global fun s hs => hadds.global.absorb (ha s hs), ?_⟩
    exact .restoreLocals _ _
  | step hstep =>
    have hadds := TypeTable.AddsPlain.step hstep hphase
    exact ⟨.setCurrent TypeTable.AddsPlain.refl hadds, ha.setCurrent hadds.names⟩
  | ofLines | value | define | result | noResult | struct | function => exact absurd rfl hphase

theorem Passes.exact (h : Passes config phase a b) (ha : a.state.environment.Exact) : b.state.environment.Exact := by
  induction h with
  | refl phase a => exact ha
  | trans _ _ ih ih' => exact ih' (ih ha)
  | ofHeaders _ ih | ofLines _ ih => exact ih ha
  | elsewhere henvironment _ => exact henvironment ▸ ha
  | header h _ =>
    obtain ⟨hadds, hcovers⟩ := (Passes.header h).addsPlain nofun ha.covers
    exact ha.addsPlain hadds hcovers
  | step hstep => exact ha.setCurrent (ha.current.step hstep) hstep.namesIn
  | value name _ _ _ ih | define name _ _ ih => exact (ih ha).declare name _ _
  | result function _ _ ih => exact ih ha
  | noResult function => exact ha
  | @struct a b name types members hadd hread hmembers ih =>
    have hnamed : (a.setTypes types).state.environment.Exact :=
      ha.setCurrent (ha.current.step (.struct hadd)) (.ofEnters (TypeTable.enters_add hadd))
    have hafter := ih hnamed
    have hpending : b.frame.scope.types.Pending name := by
      have hadds := (hread.addsPlain nofun hnamed.covers).1.current
      rw [show (a.setTypes types).state.environment.current = _ from a.scope_setFrame _] at hadds
      exact (TypeTable.Pending.add ha.current hadd).addsPlain hadds
    exact hafter.setCurrent (hpending.complete hafter.current hmembers) (.complete _ _ _)
  | @function a b head types returns _ _ ih =>
    have hbody := (ih (ha.enterFunction head types returns)).exit
    cases returns with
    | some type => exact hbody
    | none => exact Environment.Exact.declare hbody _ _ _

theorem Passed.exact (h : Passed config a) : a.state.environment.Exact := by
  induction h with
  | start path =>
    have hbuiltin : TypeTable.builtin.Exact := by
      have hscalars : TypeTable.builtin.Bases fun type => ∀ struct members,
          ¬ Inline struct members type := TypeTable.bases_builtin fun s _ struct members => nofun
      exact fun key type hentry struct members hinline =>
        absurd hinline (hscalars key type hentry struct members)
    cases path <;> exact ⟨forall_mem_nil _, forall_mem_nil _, hbuiltin⟩
  | passes _ hpasses ih => exact hpasses.exact ih
  | body _ _ ih => exact ih.enterFunction _ _ _
  | header _ ih => exact ⟨forall_mem_nil _, forall_mem_nil _, ih.global⟩

/-- Wherever a check stands, no struct of a scope holds itself by value, through whatever structs and
arrays, nor does it hold others without end; and a struct inside a type of the scope has the members of
its own entry. -/
theorem Visited.containment_wellFounded {s : CheckState} (h : Visited config s) : ∀ frame ∈ s.frames,
      (∀ name, ¬ Relation.TransGen frame.types.Stores name name) ∧
      (WellFounded fun inner outer => frame.types.Stores outer inner) ∧
      ∀ key type, frame.types.entry? key = some (.base type) → ∀ struct members, Inline struct members type →
          frame.types.entry? struct = some (.base (.struct struct members)) := by
  obtain ⟨-, c, hpassed⟩ := h.passed
  have hexact := hpassed.exact
  have hframes : ∀ frame ∈ s.frames, frame.types.Exact :=
    List.forall_mem_append.mpr ⟨hexact.locals, List.forall_mem_singleton.mpr hexact.global⟩
  exact fun frame hframe =>
    ⟨(hframes frame hframe).acyclic, (hframes frame hframe).wellFounded, hframes frame hframe⟩

/-- One struct holds an array of another and points to its own kind. -/
theorem Visited.containment_wellFounded_nested : ∃ s, Visited {} s ∧ s.environment.global.types.Stores "B" "A" ∧
      ¬ Relation.TransGen s.environment.global.types.Stores "A" "B" ∧
      ¬ s.environment.global.types.Stores "B" "B" := by
  have hunit : ((CheckedUnit.ofText {} "t.cu"
      "struct A:\n    x: int\nstruct B:\n    a: A[2]\n    next: B[]\n").toOption.any fun u =>
        (u.globals.types.resolve "B").toOption.any fun type =>
          type.holds "B" && (type.member "a").any (ValueType.holds "A")) = true := by
    decide +kernel
  obtain ⟨u, hu, htest⟩ := exists_ok_of_any hunit
  obtain ⟨s, hs, hglobal⟩ := Visited.ofText hu
  rw [← hglobal] at htest
  obtain ⟨type, hresolve, hparts⟩ := exists_ok_of_any htest
  rw [Bool.and_eq_true, Option.any_eq_true] at hparts
  obtain ⟨hname, held, hmember, hholds⟩ := hparts
  obtain ⟨_, hleads⟩ := TypeTable.leads_of_resolve hresolve
  obtain ⟨key, hentry⟩ := hleads.entry
  obtain ⟨name, members, m, rfl, hm, rfl⟩ := ValueType.mem_of_member hmember
  obtain rfl : name = "B" := by simpa using hname
  have hstores : s.environment.global.types.Stores "B" "A" := ⟨key, members, hentry, m, hm, hholds⟩
  have hmem : s.environment.global ∈ s.frames := List.mem_append_right _ List.mem_cons_self
  have hacyclic := (hs.containment_wellFounded _ hmem).1
  exact ⟨s, hs, hstores, fun hback => hacyclic "B" (hback.head hstores), fun hself => hacyclic "B" (.single hself)⟩

end Check

end Offside
