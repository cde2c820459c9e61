import Offside.Proofs.Check.Growth
import Offside.Proofs.Check.HeaderText

/-! Reading headers.

A header is read in the middle of a program, at any depth of functions and blocks, and leaves the place
it is read at as it was: only names are added, to the global scope first and then to every local one that
misses them. `Check.HeaderEffect` says so for the run of a header, in order or not. What makes it true is
that the global scope is furnished (`CheckState.Furnished`): the headers on the list have been read, so
that what they declare is known. -/
namespace Offside

open List

variable {header : Header}

/-! ### Scopes that grow -/

theorem forall₂_trans {α : Type} {R : α → α → Prop} (hR : ∀ a b c, R a b → R b c → R a c)
    {as bs cs : List α} (h : List.Forall₂ R as bs) (h' : List.Forall₂ R bs cs) :
    List.Forall₂ R as cs := by
  induction h generalizing cs with
  | nil => exact h'
  | cons hfirst _ ih =>
    cases h' with
    | cons hfirst' hrest => exact .cons (hR _ _ _ hfirst hfirst') (ih hrest)

namespace Scope

/-- Whatever names the first scope knows, the second knows too. -/
structure CoveredBy (s s' : Scope) : Prop where
  names : ∀ name, (s.lookup name).isSome = true → (s'.lookup name).isSome = true
  types : ∀ name, s.types.contains name = true → s'.types.contains name = true
  functions : ∀ name, s.definedFunctions.contains name = true →
    s'.definedFunctions.contains name = true
  macros : ∀ name, s.macros.contains name = true → s'.macros.contains name = true

/-- Whatever the first scope says, the second says too. -/
structure ExtendsTo (s s' : Scope) : Prop extends s.GoesOn s' where
  constants : ∀ name value, s.constants.get? name = some value → s'.constants.get? name = some value

/-- Whether a scope knows what a header lists. -/
structure Declares (s : Scope) (header : Header) : Prop where
  names : ∀ name ∈ header.names, (s.lookup name).isSome = true
  types : s.KnowsTypes header.types

variable {s s' t : Scope}

namespace CoveredBy

theorem refl (s : Scope) : s.CoveredBy s := ⟨fun _ h => h, fun _ h => h, fun _ h => h, fun _ h => h⟩

theorem trans (h : s.CoveredBy t) (h' : t.CoveredBy s') : s.CoveredBy s' where
  names name hs := h'.names name (h.names name hs)
  types name hs := h'.types name (h.types name hs)
  functions name hs := h'.functions name (h.functions name hs)
  macros name hs := h'.macros name (h.macros name hs)

theorem declares (h : s.CoveredBy s') (hs : s.Declares header) : s'.Declares header :=
  ⟨fun name hname => h.names name (hs.names name hname), fun name hname => h.types name (hs.types name hname)⟩

/-- What a scope has taken in is known in it. -/
theorem absorb (s global : Scope) : global.CoveredBy (s.absorb global) where
  names name h := by
    simp only [lookup] at h
    simp [Scope.absorb, lookup, Dictionary.get?_absorb, h]
  types name h := by
    obtain ⟨entry, hentry⟩ := TypeTable.contains_iff.mp h
    rw [TypeTable.contains_iff, Scope.absorb, TypeTable.entry_absorb, hentry]
    cases s.types.entry? name with
    | none => exact ⟨entry, rfl⟩
    | some own => exact ⟨own, rfl⟩
  functions name h := by simp [Scope.absorb, NameSet.contains_absorb, h]
  macros name h := by simp [Scope.absorb, NameSet.contains_absorb, h]

end CoveredBy

namespace ExtendsTo

theorem refl (s : Scope) : s.ExtendsTo s := ⟨.refl s, fun _ _ h => h⟩

theorem trans (h : s.ExtendsTo t) (h' : t.ExtendsTo s') : s.ExtendsTo s' :=
  ⟨h.toGoesOn.trans h'.toGoesOn, fun name value hs => h'.constants name value (h.constants name value hs)⟩

theorem coveredBy (h : s.ExtendsTo s') : s.CoveredBy s' where
  names name hs := by
    obtain ⟨type, htype⟩ := Option.isSome_iff_exists.mp hs
    rw [h.names name type htype]
    rfl
  types name hs := by
    obtain ⟨entry, hentry⟩ := TypeTable.contains_iff.mp hs
    exact TypeTable.contains_iff.mpr ⟨entry, h.types name entry hentry⟩
  functions := h.functions
  macros := h.macros

/-- What a scope takes in changes nothing of its own. -/
theorem absorb (s global : Scope) : s.ExtendsTo (s.absorb global) where
  names name type h := by
    simp only [lookup] at h
    simp [Scope.absorb, lookup, Dictionary.get?_absorb, h]
  types name entry h := by simp [Scope.absorb, TypeTable.entry_absorb, h]
  constants name value h := by simp [Scope.absorb, Dictionary.get?_absorb, h]
  functions name h := by simp [Scope.absorb, NameSet.contains_absorb, h]
  macros name h := by simp [Scope.absorb, NameSet.contains_absorb, h]

theorem reflAll (frames : List Scope) : List.Forall₂ ExtendsTo frames frames := forall₂_same.mpr fun s _ => refl s

theorem transAll {a b c : List Scope} (h : List.Forall₂ ExtendsTo a b) (h' : List.Forall₂ ExtendsTo b c) :
    List.Forall₂ ExtendsTo a c :=
  forall₂_trans (fun _ _ _ hs hs' => hs.trans hs') h h'

theorem absorbAll (frames : List Scope) (global : Scope) :
    List.Forall₂ ExtendsTo frames (frames.map (·.absorb global)) := by
  induction frames with
  | nil => exact .nil
  | cons s rest ih => exact .cons (absorb s global) ih

end ExtendsTo

theorem Rooted.extendsTo (hs : s.Rooted) (h : s.Addition s') : s.ExtendsTo s' := by
  refine ⟨(hs.addition h).2, fun other value hvalue => ?_⟩
  cases h with
  | bind name type => obtain hb | hb := s.bind_cases name type <;> rw [hb] <;> exact hvalue
  | _ => exact hvalue

/-- Additions keep the names that are there, in any scope. -/
theorem Addition.coveredBy (h : s.Addition s') : s.CoveredBy s' := by
  have hsame := CoveredBy.refl s
  cases h with
  | type h =>
    obtain ⟨_, entry, rfl⟩ := TypeTable.enters_add h
    exact { hsame with types := fun _ => TypeTable.contains_insert _ _ entry }
  | synonym h =>
    obtain ⟨_, entry, rfl⟩ := TypeTable.enters_addAlias h
    exact { hsame with types := fun _ => TypeTable.contains_insert _ _ entry }
  | typedef h =>
    obtain ⟨_, entry, rfl⟩ := TypeTable.enters_addTypedef h
    exact { hsame with types := fun _ => TypeTable.contains_insert _ _ entry }
  | bind name type =>
    obtain hb | hb := s.bind_cases name type
    · rw [hb]
      exact hsame
    · rw [hb]
      refine { hsame with names := fun other hother => ?_ }
      rw [lookup_setVariable]
      split
      · rfl
      · exact hother
  | function name =>
    exact { hsame with functions := fun other h => by simp [NameSet.contains_insert, h] }
  | guard name =>
    exact { hsame with macros := fun other h => by simp [NameSet.contains_insert, h] }

end Scope

/-! ### Headers that have been read -/

namespace Header

/-- Headers are known by their names. -/
theorem eq_of_name {h h' : Header} (hmem : h ∈ standard) (hmem' : h' ∈ standard)
    (hname : h.name = h'.name) : h = h' := by
  have hall : ∀ h ∈ standard, ∀ h' ∈ standard, h.name = h'.name → h = h' := by decide +kernel
  exact hall h hmem h' hmem' hname

theorem mayInclude_standard {h other : Header} (hother : other ∈ h.mayInclude) :
    other = stdlib ∧ h.name = string.name := by
  unfold mayInclude at hother
  split at hother
  · rename_i hname
    exact ⟨mem_singleton.mp hother, hname⟩
  · cases hother

end Header

theorem Config.mem_standard (config : Config) (h : header ∈ config.headers) : header ∈ Header.standard := by
  unfold headers at h
  split at h
  · exact h
  · cases h

/-- The global scope knows the built-in types and what the headers on the list declare. -/
structure CheckState.Furnished (s : CheckState) : Prop where
  rooted : s.environment.global.Rooted
  builtin : s.environment.global.KnowsTypes (Scalar.builtin.map Scalar.name)
  declared : ∀ header ∈ Header.standard, header.name ∈ s.headers → s.environment.global.Declares header
  nodup : s.headers.Nodup
  /-- A header stands behind the one that it includes. -/
  ordered : ∀ before after, s.headers = before ++ Header.string.name :: after → Header.stdlib.name ∈ before

namespace CheckState.Furnished

variable {s s' : CheckState}

/-- With a global scope that knows more. -/
theorem extend (h : s.Furnished) (hrooted : s'.environment.global.Rooted)
    (hglobal : s.environment.global.CoveredBy s'.environment.global)
    (hheaders : s'.headers = s.headers) : s'.Furnished where
  rooted := hrooted
  builtin name hname := hglobal.types name (h.builtin name hname)
  declared header hmem hread := hglobal.declares (h.declared header hmem (hheaders ▸ hread))
  nodup := hheaders ▸ h.nodup
  ordered := hheaders ▸ h.ordered

/-- With the same global scope, under any local ones. -/
theorem congr (h : s.Furnished) (hglobal : s'.environment.global = s.environment.global)
    (hheaders : s'.headers = s.headers) : s'.Furnished :=
  h.extend (hglobal ▸ h.rooted) (hglobal ▸ .refl _) hheaders

/-- With a header that has just been read. -/
theorem append (h : s.Furnished) (hmem : header ∈ Header.standard)
    (hnew : header.name ∉ s.headers) (hdeclares : s.environment.global.Declares header)
    (hincluded : ∀ other ∈ header.mayInclude, other.name ∈ s.headers) :
    Furnished { s with headers := s.headers ++ [header.name] } where
  rooted := h.rooted
  builtin := h.builtin
  declared other hother hread := by
    rcases mem_append.mp hread with hread | hread
    · exact h.declared other hother hread
    · rw [Header.eq_of_name hother hmem (mem_singleton.mp hread)]
      exact hdeclares
  nodup := by
    rw [nodup_append]
    refine ⟨h.nodup, pairwise_singleton _ _, ?_⟩
    rintro name hname _ hlast rfl
    rw [mem_singleton.mp hlast] at hname
    exact hnew hname
  ordered before after heq := by
    rcases eq_nil_or_concat after with rfl | ⟨after', last, rfl⟩
    · obtain ⟨rfl, hlast⟩ := append_inj' heq rfl
      refine hincluded .stdlib ?_
      rw [Header.mayInclude, if_pos (cons.inj hlast).1]
      exact mem_singleton.mpr rfl
    · rw [concat_eq_append, ← cons_append, ← append_assoc] at heq
      exact h.ordered before after' (append_inj' heq rfl).1

end CheckState.Furnished

namespace Check

variable {config : Config} {sources : Sources} {deep : Prop} {s s' t : CheckState} {header : Header}
  {failure : Option Failure}

/-- What reading a header does. Where it is `deep` enough for the headers it includes, it fails for
faults of its lines only. -/
structure HeaderEffect (deep : Prop) (s : CheckState) (failure : Option Failure) (s' : CheckState) :
    Prop where
  plain : deep → ∀ f, failure = some f → f.nests = false
  furnished : s'.Furnished
  global : s.environment.global.ExtendsTo s'.environment.global
  locals : List.Forall₂ Scope.ExtendsTo s.environment.locals s'.environment.locals
  headers : s.headers <+: s'.headers
  others : s' = { s with environment := s'.environment, headers := s'.headers }

/-- The effect of a header, wherever it is read. -/
def Reads (deep : Prop) : Course := fun s failure s' => s.Furnished → HeaderEffect deep s failure s'

/-- The effect of its lines, which stand in the global scope. -/
def ReadsLines (deep : Prop) : Course := fun s failure s' =>
  s.environment.locals = [] → s.Furnished → HeaderEffect deep s failure s'

namespace HeaderEffect

theorem refl (hs : s.Furnished) : HeaderEffect deep s none s :=
  ⟨fun _ _ h => (nomatch h), hs, .refl _, Scope.ExtendsTo.reflAll _, prefix_refl _, rfl⟩

theorem fail {f : Failure} (hs : s.Furnished) (hf : deep → f.nests = false) : HeaderEffect deep s (some f) s := by
  refine ⟨?_, hs, .refl _, Scope.ExtendsTo.reflAll _, prefix_refl _, rfl⟩
  rintro hdeep _ ⟨⟩
  exact hf hdeep

theorem trans (h : HeaderEffect deep s none t) (h' : HeaderEffect deep t failure s') :
    HeaderEffect deep s failure s' where
  plain := h'.plain
  furnished := h'.furnished
  global := h.global.trans h'.global
  locals := Scope.ExtendsTo.transAll h.locals h'.locals
  headers := h.headers.trans h'.headers
  others := by
    rw [h'.others, h.others]

/-- An addition to the global scope. -/
theorem add {scope : Scope} (hlocals : s.environment.locals = []) (hs : s.Furnished)
    (h : s.scope.Addition scope) : HeaderEffect deep s none (s.setScope scope) := by
  obtain ⟨⟨locals, global⟩⟩ := s
  obtain rfl : locals = [] := hlocals
  have hrooted := (hs.rooted.addition h).1
  have hextends := hs.rooted.extendsTo h
  exact ⟨fun _ _ h => (nomatch h), hs.extend hrooted hextends.coveredBy rfl, hextends, .nil, prefix_refl _, rfl⟩

/-- Behind its lines a header leaves the place it was read at. -/
theorem close (h : HeaderEffect deep s.openHeader failure s') : HeaderEffect deep s failure (s.closeHeader s') where
  plain := h.plain
  furnished := h.furnished.congr rfl rfl
  global := h.global
  locals := Scope.ExtendsTo.absorbAll _ _
  headers := h.headers
  others := by
    rw [h.others]
    rfl

/-- It is then on the list. -/
theorem append (h : HeaderEffect deep s none s') (hmem : header ∈ Header.standard)
    (hnew : header.name ∉ s'.headers) (hdeclares : s'.environment.global.Declares header)
    (hincluded : ∀ other ∈ header.mayInclude, other.name ∈ s'.headers) :
    HeaderEffect deep s none { s' with headers := s'.headers ++ [header.name] } where
  plain _ _ hnone := (nomatch hnone)
  furnished := h.furnished.append hmem hnew hdeclares hincluded
  global := h.global
  locals := h.locals
  headers := h.headers.trans (prefix_append _ _)
  others := by
    rw [h.others]

end HeaderEffect

theorem reads_chains (deep : Prop) : Chains (Reads deep) where
  refl _ hs := .refl hs
  trans h h' hs := (h hs).trans (h' (h hs).furnished)
  fail _ hf _ hs := .fail hs fun _ => Failure.nests_of_isCommon hf

theorem readsLines_adds (deep : Prop) : Adds (ReadsLines deep) .none where
  refl _ _ hs := .refl hs
  trans h h' hlocals hs := by
    have heffect := h hlocals hs
    refine heffect.trans (h' ?_ heffect.furnished)
    have hlength := heffect.locals.length_eq
    rw [hlocals] at hlength
    exact length_eq_zero_iff.mp hlength.symm
  fail _ hf _ _ hs := .fail hs fun _ => Failure.nests_of_isCommon hf
  load h := nomatch h
  add h hlocals hs := .add hlocals hs h

/-! ### The lines of a header -/

/-- What is known behind lines of a header that are in order. -/
structure HasRead (body : List Stmt) (s : CheckState) : Prop where
  names : ∀ name ∈ body.flatMap Stmt.declaredNames, (s.environment.global.lookup name).isSome = true
  types : s.environment.global.KnowsTypes (body.flatMap Stmt.declaredTypes)
  included : ∀ path ∈ body.filterMap Stmt.included?, path ∈ s.headers

/-- Inside a header, including one of the allowed headers reads it. -/
def Provides (deep : Prop) (sources : Sources) (allowed : List Header) : Prop :=
  ∀ header ∈ allowed, header ∈ Header.standard ∧ ∀ l s, s.headerDepth ≠ 0 →
    EndsFrom (ReadsLines deep) (sources.follow header.name l) s ∧
    ∀ a s', (sources.follow header.name l).run s = .ok a s' → header.name ∈ s'.headers

/-- Where the lines of a header are read, given the types known there. -/
structure AtLine (known : List String) (s : CheckState) : Prop where
  depth : s.headerDepth ≠ 0
  locals : s.environment.locals = []
  furnished : s.Furnished
  known : s.environment.global.KnowsTypes known

theorem AtLine.scope {known : List String} (h : AtLine known s) : s.scope = s.environment.global := by
  unfold CheckState.scope Environment.current
  rw [h.locals]
  rfl

theorem AtLine.after {known : List String} (h : AtLine known s) {new : List String}
    (heffect : HeaderEffect deep s failure s') (hnew : s'.environment.global.KnowsTypes new) :
    AtLine (new ++ known) s' where
  depth := by
    rw [heffect.others]
    exact h.depth
  locals := by
    have hlength := heffect.locals.length_eq
    rw [h.locals] at hlength
    exact length_eq_zero_iff.mp hlength.symm
  furnished := heffect.furnished
  known name hname := by
    rcases mem_append.mp hname with hname | hname
    · exact hnew name hname
    · exact heffect.global.coveredBy.types name (h.known name hname)

variable {allowed : List Header} {known : List String}

/-- One line. -/
theorem line_effect (hprovides : Provides deep sources allowed) {line : Stmt}
    (hline : Header.readsLine allowed known line) (hs : AtLine known s) :
    EndsFrom (ReadsLines deep) (statement sources line) s ∧
    ∀ line' s', (statement sources line).run s = .ok line' s' →
      HasRead [line] s' ∧ s'.environment.global.KnowsTypes (Header.newTypes allowed line) := by
  unfold Header.readsLine at hline
  unfold Header.newTypes
  cases hincluded : line.included? with
  | none =>
    rw [hincluded] at hline
    have hknown : s.scope.KnowsTypes known := hs.scope ▸ hs.known
    have hends : EndsFrom (ReadsLines deep) (statement sources line) s :=
      ((readsLines_adds deep).headerLine hline s).congr (statement_known hknown hline)
    refine ⟨hends, fun line' s' hrun => ?_⟩
    have hnew : s'.environment.global.KnowsTypes [] := nofun
    have hscope := (hs.after (hends.ok hrun hs.locals hs.furnished) hnew).scope
    obtain ⟨scope, rfl, htakes⟩ := headerLine_takes hknown hline hrun
    rw [CheckState.scope_setScope] at hscope
    rw [hscope] at htakes
    have htypes : (s.setScope scope).environment.global.KnowsTypes line.declaredTypes := fun name h =>
      (htakes.knows name .type).mpr (.inr (Stmt.declares_type_iff.mpr h))
    refine ⟨⟨fun name h => ?_, by simpa using htypes, by simp [hincluded]⟩, htypes⟩
    exact (htakes.knows name .name).mpr (.inr (Stmt.declares_name (by simpa using h)))
  | some path =>
    obtain ⟨m, rfl⟩ := Stmt.eq_includeFile hincluded
    rw [hincluded] at hline
    obtain ⟨header, hheader⟩ := Option.isSome_iff_exists.mp hline
    obtain rfl : header.name = path := by simpa using find?_some hheader
    obtain ⟨hmem, hfollow⟩ := hprovides header (mem_of_find?_eq_some hheader)
    obtain ⟨hends, hread⟩ := hfollow m.span.start s hs.depth
    have hT := readsLines_adds deep
    constructor
    · refine hT.seq (hT.get s) fun _ s1 hget => ?_
      cases hget
      refine hT.seq (hT.requireFrom fun _ _ hs => .fail hs fun _ => rfl) fun _ s1 hrun => ?_
      rw [(require_ok hrun).2]
      exact hT.seq hends fun _ s2 _ => hT.pure _ s2
    · intro line' s' hrun
      obtain ⟨_, _, hget, hrun⟩ := run_bind_ok.mp hrun
      cases hget
      obtain ⟨_, s1, htop, hrun⟩ := run_bind_ok.mp hrun
      rw [(require_ok htop).2] at hrun
      obtain ⟨_, s2, hfollowed, hrun⟩ := run_bind_ok.mp hrun
      cases hrun
      have hin := hread _ _ hfollowed
      have hfurnished := (hends.ok hfollowed hs.locals hs.furnished).furnished
      refine ⟨⟨nofun, nofun, ?_⟩, ?_⟩
      · simpa [Stmt.included?] using hin
      · dsimp only
        rw [hheader]
        exact (hfurnished.declared header hmem hin).types

theorem HasRead.append {line : Stmt} {body : List Stmt} (h : HasRead [line] s)
    (heffect : HeaderEffect deep s failure s') (hbody : HasRead body s') :
    HasRead (line :: body) s' where
  names name hname := by
    rw [flatMap_cons, mem_append] at hname
    rcases hname with hname | hname
    · exact heffect.global.coveredBy.names name (h.names name (by simpa using hname))
    · exact hbody.names name hname
  types name hname := by
    rw [flatMap_cons, mem_append] at hname
    rcases hname with hname | hname
    · exact heffect.global.coveredBy.types name (h.types name (by simpa using hname))
    · exact hbody.types name hname
  included path hpath := by
    rw [← singleton_append, filterMap_append, mem_append] at hpath
    rcases hpath with hpath | hpath
    · exact heffect.headers.subset (h.included path hpath)
    · exact hbody.included path hpath

/-- All lines. -/
theorem lines_effect (hprovides : Provides deep sources allowed) {body : List Stmt}
    (hbody : Header.reads allowed known body) (hs : AtLine known s) :
    EndsFrom (ReadsLines deep) (statements sources body) s ∧
    ∀ body' s', (statements sources body).run s = .ok body' s' → HasRead body s' := by
  have hT := readsLines_adds deep
  induction body generalizing known s with
  | nil => exact ⟨hT.pure _ s, fun _ _ _ => ⟨nofun, nofun, nofun⟩⟩
  | cons line rest ih =>
    rw [Header.reads, Bool.and_eq_true] at hbody
    obtain ⟨hends, hread⟩ := line_effect hprovides hbody.1 hs
    have hafter {line' s1} (hrun : (statement sources line).run s = .ok line' s1) :=
      ih hbody.2 (hs.after (hends.ok hrun hs.locals hs.furnished) (hread _ _ hrun).2)
    constructor
    · refine hT.seq hends fun _ s1 hrun => ?_
      exact hT.seq (hafter hrun).1 fun _ s2 _ => hT.pure _ s2
    · intro body' s' hrun
      obtain ⟨line', s1, hline, hrun⟩ := run_bind_ok.mp hrun
      obtain ⟨rest', s2, hrest, hrun⟩ := run_bind_ok.mp hrun
      cases hrun
      have hat := hs.after (hends.ok hline hs.locals hs.furnished) (hread _ _ hline).2
      have heffect := (hafter hline).1.ok hrest hat.locals hat.furnished
      exact (hread _ _ hline).1.append heffect ((hafter hline).2 _ _ hrest)

/-! ### Whole headers -/

theorem mem_headers_of_load {a : Unit}
    (h : (loadHeader sources header).run s = .ok a s') : header.name ∈ s'.headers := by
  obtain ⟨_, _, hget, h⟩ := run_bind_ok.mp h
  cases hget
  split at h
  · obtain ⟨m, s1, _, h⟩ := run_bind_ok.mp h
    obtain ⟨body, s2, _, h⟩ := run_bind_ok.mp h
    cases h
    dsimp only
    by_cases hin : s2.headers.contains header.name
    · rw [if_pos hin]
      exact contains_iff_mem.mp hin
    · rw [if_neg hin]
      exact mem_append_right _ (mem_singleton.mpr rfl)
  · rename_i hold
    cases h
    simpa using hold

theorem atLine_openHeader (hs : s.Furnished) : AtLine (Scalar.builtin.map Scalar.name) s.openHeader where
  depth := Nat.succ_ne_zero _
  locals := rfl
  furnished := hs.congr rfl rfl
  known := hs.builtin

section

variable (hmem : header ∈ Header.standard)
include hmem

/-- The text of a header, read in its own place. -/
theorem text_effect (hprovides : Provides deep sources header.mayInclude) {m : Module}
    (hm : Module.ofText header.name header.source = .ok m) (hs : s.Furnished) :
    EndsFrom (ReadsLines deep) (statements sources m.body) s.openHeader ∧
    ∀ body' s', (statements sources m.body).run s.openHeader = .ok body' s' → s'.environment.global.Declares header ∧
      ∀ other ∈ header.mayInclude, other.name ∈ s'.headers := by
  obtain ⟨m', hm', htext, hincluded⟩ := Header.standard_text hmem
  rw [hm] at hm'
  cases hm'
  simp only [Header.isText, Bool.and_eq_true, all_eq_true, contains_iff_mem] at htext
  obtain ⟨⟨hreads, hnames⟩, htypes⟩ := htext
  obtain ⟨hends, hread⟩ := lines_effect hprovides hreads (atLine_openHeader hs)
  refine ⟨hends, fun body' s' hrun => ⟨⟨?_, ?_⟩, ?_⟩⟩
  · exact fun name hname => (hread _ _ hrun).names name (hnames name hname)
  · exact fun name hname => (hread _ _ hrun).types name (htypes name hname)
  · exact fun other hother => (hread _ _ hrun).included _ (hincluded other hother)

/-- Reading a header, given what the includes of its lines do. -/
theorem loadHeader_reads (hprovides : Provides deep sources header.mayInclude) :
    Ends (Reads deep) (loadHeader sources header) := by
  intro s
  apply (reads_chains deep).loadHeader fun _ _ => trivial
  · intro m failure s' hm _ hrun hs
    obtain ⟨hends, _⟩ := text_effect hmem hprovides hm hs
    exact (hends.error hrun rfl (hs.congr rfl rfl)).close
  · intro m body s' hm _ hrun hs
    obtain ⟨hends, hread⟩ := text_effect hmem hprovides hm hs
    have heffect := (hends.ok hrun rfl (hs.congr rfl rfl)).close
    split
    · exact heffect
    · rename_i hnew
      have hnew : header.name ∉ s'.headers := by simpa using hnew
      obtain ⟨hdeclares, hincluded⟩ := hread _ _ hrun
      exact heffect.append hmem hnew hdeclares hincluded

/-- A header that includes none. -/
theorem load_leaf (hleaf : header.mayInclude = [])
    (deep : Prop) (sources : Sources) : Ends (Reads deep) (loadHeader sources header) :=
  loadHeader_reads hmem (by rw [hleaf]; exact nofun)

end

/-- Inside headers, only headers are included. -/
theorem followInclude_run (config : Config) (sources : Sources) (path : String) (l : Location)
    (hdepth : s.headerDepth ≠ 0) :
    (followInclude config sources path l).run s = (match Header.named? config.headers path with
      | some header => loadHeader sources header
      | none => fail (.includeMissing path) l : Check Unit).run s := by
  exact congrArg (fun file => EStateM.run (match file with
    | some file => includeFile config sources file l
    | none =>
      match Header.named? config.headers path with
      | some header => loadHeader sources header
      | none => fail (.includeMissing path) l) s) (if_neg hdepth)

/-- Includes in headers, followed to some depth. -/
theorem provides_sourcesTo (config : Config) (depth : Nat) (header : Header) :
    Provides (0 < depth) (sourcesTo config depth) header.mayInclude := by
  intro other hother
  obtain ⟨rfl, _⟩ := Header.mayInclude_standard hother
  have hmem : Header.stdlib ∈ Header.standard := by simp [Header.standard]
  refine ⟨hmem, fun l s hdepth => ?_⟩
  cases depth with
  | zero => exact ⟨fun _ hs => .fail hs nofun, nofun⟩
  | succ depth =>
    have hrun := followInclude_run config (sourcesTo config depth) Header.stdlib.name l hdepth
    cases hnamed : Header.named? config.headers Header.stdlib.name with
    | none =>
      rw [hnamed] at hrun
      refine ⟨EndsFrom.congr (fun _ hs => .fail hs fun _ => rfl) hrun, fun a s' h => ?_⟩
      cases hrun.symm.trans h
    | some header =>
      rw [hnamed] at hrun
      have hname : header.name = Header.stdlib.name := by simpa using find?_some hnamed
      obtain rfl : header = .stdlib :=
        Header.eq_of_name (config.mem_standard (mem_of_find?_eq_some hnamed)) hmem hname
      refine ⟨EndsFrom.congr (fun _ hs => ?_) hrun, fun a s' h => ?_⟩
      · exact load_leaf hmem (by decide) _ _ s hs
      · exact mem_headers_of_load (hrun.symm.trans h)

/-- Reading a header. Nested in nothing else, there is room for the header that it may include. -/
theorem load_reads (config : Config) (depth : Nat) (hmem : header ∈ Header.standard) :
    Ends (Reads (0 < depth)) (loadHeader (sourcesTo config depth) header) :=
  loadHeader_reads hmem (provides_sourcesTo config depth header)

end Check

end Offside
