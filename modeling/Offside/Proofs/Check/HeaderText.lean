import Offside.Proofs.Check.Tolerance
import Offside.Proofs.Types.Table

/-! The lines of headers.

A header is made of a few kinds of lines, all of which only add to the scope (`Adds.headerLine`). Every
type that a line of a standard header mentions is known when the line is reached: it is built in, declared
further up, or declared by a header that is included further up (`Header.standard_text`). So no line makes
another header be read, and the lines mean the same as if there were none (`statement_known`). -/
namespace Offside

open List

theorem Dictionary.insert_insert {α : Type} (d : Dictionary α) (name : String) (value : α) :
    (d.insert name value).insert name value = d.insert name value := by
  obtain ⟨entries⟩ := d
  unfold insert
  induction entries with
  | nil => simp [put]
  | cons entry rest ih =>
    obtain ⟨n, v⟩ := entry
    by_cases h : n = name
    · simp [put, h]
    · simpa [put, h] using ih

theorem Scope.lookup_bind_isSome (s : Scope) (name : String) (type : ValueType) :
    ((s.bind name type).2.lookup name).isSome := by
  have hset : (s.setVariable name type).lookup name = some type := by
    simp [setVariable, lookup, Dictionary.get?_insert]
  unfold bind
  split
  · split
    · rename_i previous hprevious
      split <;> simp [hprevious]
    · simp [hset]
  · simp [hset]

theorem Scope.bind_cases (s : Scope) (name : String) (type : ValueType) :
    (s.bind name type).2 = s ∨ (s.bind name type).2 = s.setVariable name type := by
  unfold bind
  split
  · split
    · split <;> exact .inl rfl
    · exact .inr rfl
  · exact .inr rfl

/-- The kinds of names that a scope knows. -/
inductive NameKind where
  /-- Variables and functions. -/
  | name
  | type
  /-- Names defined without a value. -/
  | guard
  /-- Functions whose body has been seen. -/
  | body

def Scope.knows (s : Scope) (name : String) : NameKind → Bool
  | .name => (s.lookup name).isSome
  | .type => s.types.contains name
  | .guard => s.macros.contains name
  | .body => s.definedFunctions.contains name

/-! ### Kinds of lines -/

mutual

/-- Whether a written type mentions known names only. -/
def TypeExpr.within (known : List String) : TypeExpr → Bool
  | .name _ n => known.contains n
  | .pointer _ target => target.within known
  | .array _ element _ => element.within known
  | .function _ params returns => TypeExpr.eachWithin known params && returns.within known
  | .vararg _ => true

def TypeExpr.eachWithin (known : List String) : List TypeExpr → Bool
  | [] => true
  | t :: rest => t.within known && TypeExpr.eachWithin known rest

end

/-- Whether the type of a parameter mentions known names only. -/
def Param.within (known : List String) (p : Param) : Bool := match p.kind with
  | .named _ declared => declared.all (·.within known)
  | .vararg => true

/-- Whether all types of a head are written. -/
def FunctionHead.isWhole (head : FunctionHead) : Bool := head.returns.isSome && head.params.all fun p =>
    match p.kind with
    | .named _ declared => declared.isSome
    | .vararg => true

namespace Stmt

/-- Whether a statement is a line of a header that mentions known types only. -/
def isHeaderLine (known : List String) : Stmt → Bool
  | ifndef .. | endif _ | define _ _ none => true
  | struct _ _ fields => fields.isEmpty
  | typedef _ (.name _ target) _ => known.contains target
  | declare _ d => d.init.isNone && d.declared.any (·.within known)
  | announce _ head => head.params.all (·.within known) && head.returns.all (·.within known)
  | _ => false

/-- Whether a line announces functions with all their types. -/
def announcesWhole : Stmt → Bool
  | announce _ head => head.isWhole
  | _ => true

/-- The types that a line of a header declares. -/
def declaredTypes : Stmt → List String
  | struct _ name _ | typedef _ _ name => [name]
  | _ => []

/-- The variables and functions that a line of a header declares. -/
def declaredNames : Stmt → List String
  | declare _ d => [d.name]
  | announce _ head => [head.name]
  | _ => []

/-- What a line of a header declares, if anything. -/
def declares? : Stmt → Option (NameKind × String)
  | struct _ name _ | typedef _ _ name => some (.type, name)
  | declare _ d => some (.name, d.name)
  | announce _ head => some (.name, head.name)
  | define _ name none => some (.guard, name)
  | _ => none

theorem declares_name {line : Stmt} {name : String} (h : name ∈ line.declaredNames) :
    line.declares? = some (.name, name) := by
  cases line <;> simp_all [declaredNames, declares?]

theorem declares_type_iff {line : Stmt} {name : String} :
    line.declares? = some (.type, name) ↔ name ∈ line.declaredTypes := by
  unfold declares? declaredTypes
  split <;> simp_all [eq_comm]

/-- The header that a line includes. -/
def included? : Stmt → Option String
  | includeFile _ path => some path
  | _ => none

theorem eq_includeFile {line : Stmt} {path : String} (h : line.included? = some path) :
    ∃ m, line = .includeFile m path := by
  unfold included? at h
  split at h <;> cases h
  exact ⟨_, rfl⟩

end Stmt

namespace Header

/-- Whether a statement is a line of a header, given the types known above it. Only some headers may be
included. -/
def readsLine (allowed : List Header) (known : List String) (line : Stmt) : Bool := match line.included? with
  | none => line.isHeaderLine known
  | some path => (named? allowed path).isSome

/-- The types that are known from a line on. -/
def newTypes (allowed : List Header) (line : Stmt) : List String := match line.included? with
  | none => line.declaredTypes
  | some path => ((named? allowed path).map types).getD []

def reads (allowed : List Header) (known : List String) : List Stmt → Bool
  | [] => true
  | line :: rest =>
    readsLine allowed known line && reads allowed (newTypes allowed line ++ known) rest

/-- Whether statements are a header's own: they declare what it lists. -/
def isText (h : Header) (allowed : List Header) (body : List Stmt) : Bool :=
  reads allowed (Scalar.builtin.map Scalar.name) body && h.names.all (body.flatMap Stmt.declaredNames).contains &&
    h.types.all (body.flatMap Stmt.declaredTypes).contains

/-- Headers that a header may include. -/
def mayInclude (h : Header) : List Header := if h.name = string.name then [stdlib] else []

/-- The characters of a header. -/
def chars (h : Header) : List Char := h.lines.flatMap fun line => line.toList ++ ['\n']

theorem source_toList (h : Header) : h.source.toList = h.chars := by
  unfold source chars
  rw [String.toList_join]
  simp [flatMap, Function.comp_def]

end Header

/-- The tree of a text that is given by its characters. -/
def Module.ofChars (file : String) (chars : List Char) : Except Failure Module :=
  let scanner : Scanner := { file, rest := foldLineEnds chars }
  let (tokens, failure) := TokenStream.collect (scanner.rest.length + 1) scanner {}
  Parse.file.outcome (.ofStream ⟨file, tokens, failure⟩)

theorem Module.ofText_eq_ofChars (file text : String) :
    Module.ofText file text = Module.ofChars file text.toList := rfl

namespace Header

variable {h : Header}

/-- Whether the text of a header can be read, and declares what the header lists. -/
def hasText (h : Header) : Bool := match Module.ofChars h.name h.chars with
  | .ok m => h.isText h.mayInclude m.body &&
      (h.mayInclude.map name).all (m.body.filterMap Stmt.included?).contains
  | .error _ => false

/-- Whether the lines of a header declare names that it lists only, and leave no types out. -/
def listsNames (h : Header) : Bool := match Module.ofChars h.name h.chars with
  | .ok m => m.body.all fun line =>
      line.declaredNames.all h.names.contains && line.declaredTypes.all h.types.contains && line.announcesWhole
  | .error _ => true

-- Both are worked out at once, as reading the texts is what takes time.
theorem standard_hasText_listsNames : standard.all (fun h => h.hasText && h.listsNames) := by
  decide +kernel

theorem hasText_listsNames (hmem : h ∈ standard) : h.hasText ∧ h.listsNames :=
  Bool.and_eq_true_iff.mp (all_eq_true.mp standard_hasText_listsNames h hmem)

/-- Each standard header is a text, and the text declares what the header lists. -/
theorem standard_text (hmem : h ∈ standard) :
    ∃ m, Module.ofText h.name h.source = .ok m ∧ h.isText h.mayInclude m.body ∧
      ∀ other ∈ h.mayInclude, other.name ∈ m.body.filterMap Stmt.included? := by
  have htext := (hasText_listsNames hmem).1
  unfold hasText at htext
  rw [Module.ofText_eq_ofChars, source_toList]
  split at htext
  · rename_i m _
    rw [Bool.and_eq_true] at htext
    refine ⟨m, by assumption, htext.1, fun other hother => ?_⟩
    simpa using all_eq_true.mp htext.2 other.name (mem_map_of_mem hother)
  · cases htext

/-- What a standard header declares it lists, and it leaves no types out. -/
theorem standard_lists (hmem : h ∈ standard) {m : Module} (hm : Module.ofText h.name h.source = .ok m) :
    ∀ line ∈ m.body, ((∀ n ∈ line.declaredNames, n ∈ h.names) ∧ ∀ n ∈ line.declaredTypes, n ∈ h.types) ∧
      line.announcesWhole := by
  have hlists := (hasText_listsNames hmem).2
  rw [Module.ofText_eq_ofChars, source_toList] at hm
  unfold listsNames at hlists
  rw [hm] at hlists
  intro line hline
  have hnames := all_eq_true.mp hlists line hline
  simp only [Bool.and_eq_true, all_eq_true, contains_iff_mem] at hnames
  exact hnames

end Header

/-! ### Lines that mention known types -/

/-- No headers and no files. -/
def Sources.none : Sources := ⟨[], fun _ => pure (), fun _ _ => pure ()⟩

/-- Whether a scope knows all types of a list. -/
def Scope.KnowsTypes (s : Scope) (known : List String) : Prop := ∀ name ∈ known, s.types.contains name = true

namespace Check

variable {α β : Type} {sources : Sources} {known : List String} {s : CheckState} {s' : CheckState}
    {l : Location} {line : Stmt} {name : String} {a : Unit}

theorem run_bind_congr {p q : Check α} {f g : α → Check β} (hp : p.run s = q.run s)
    (hf : ∀ a s', q.run s = .ok a s' → (f a).run s' = (g a).run s') :
    (p >>= f).run s = (q >>= g).run s := by
  rw [EStateM.run_bind, EStateM.run_bind, hp]
  cases hq : q.run s with
  | ok a s' => exact hf a s' hq
  | error failure s' => rfl

/-- Without headers, working out types changes nothing. -/
theorem loads_none : Loads (Always Eq) Sources.none where
  refl _ := rfl
  trans := Eq.trans
  fail _ _ _ := rfl
  load h := nomatch h

theorem needType_known (h : s.scope.types.contains name) : (needType sources name).run s = .ok () s := by
  show ((if !s.scope.types.contains name then _ else _ : Check Unit)).run s = _
  rw [h]
  rfl

theorem needType_unknown (h : ¬ s.scope.types.contains name) : (needType sources name).run s =
    ((Header.ofType? sources.headers name).elim (pure ()) sources.load : Check Unit).run s := by
  show ((if !s.scope.types.contains name then _ else _ : Check Unit)).run s = _
  rw [if_pos (by simpa using h)]
  cases Header.ofType? sources.headers name <;> rfl

mutual

theorem resolveWith_known (hs : s.scope.KnowsTypes known) (behindPointer : Bool) : (t : TypeExpr) → t.within known →
      (resolveWith sources behindPointer t).run s = (resolveWith .none behindPointer t).run s
  | .name _ name, h => by
    have hknown : s.scope.types.contains name := hs name (by simpa [TypeExpr.within] using h)
    unfold resolveWith resolveName
    exact run_bind_congr (by rw [needType_known hknown, needType_known hknown]) fun _ _ _ => rfl
  | .pointer _ target, h => by
    unfold resolveWith
    exact run_bind_congr (resolveWith_known hs true target h) fun _ _ _ => rfl
  | .array _ element _, h => by
    unfold resolveWith
    exact run_bind_congr (resolveWith_known hs behindPointer element h) fun _ _ _ => rfl
  | .function _ params returns, h => by
    simp only [TypeExpr.within, Bool.and_eq_true] at h
    unfold resolveWith
    refine run_bind_congr (resolveEach_known hs params h.1) fun _ s' hrun => ?_
    obtain rfl := (loads_none.resolveEach params .any).ok hrun
    exact run_bind_congr (resolveWith_known hs false returns h.2) fun _ _ _ => rfl
  | .vararg _, _ => rfl

theorem resolveEach_known (hs : s.scope.KnowsTypes known) : (ts : List TypeExpr) → TypeExpr.eachWithin known ts →
      (resolveEach sources ts).run s = (resolveEach .none ts).run s
  | [], _ => rfl
  | t :: rest, h => by
    simp only [TypeExpr.eachWithin, Bool.and_eq_true] at h
    unfold resolveEach
    refine run_bind_congr (resolveWith_known hs false t h.1) fun _ s' hrun => ?_
    obtain rfl := (loads_none.resolveWith false t .any).ok hrun
    exact run_bind_congr (resolveEach_known hs rest h.2) fun _ _ _ => rfl

end

section

variable (hs : s.scope.KnowsTypes known)
include hs

theorem resolveOption_known {t : Option TypeExpr} (h : t.all (·.within known)) :
    (resolveOption sources t).run s = (resolveOption .none t).run s := by
  cases t with
  | none => rfl
  | some t => exact run_bind_congr (resolveWith_known hs false t (by simpa using h)) fun _ _ _ => rfl

theorem paramTypes_known (function : String) {params : List Param} (h : params.all (·.within known)) :
    (paramTypes sources function params).run s = (paramTypes .none function params).run s := by
  induction params with
  | nil => rfl
  | cons p rest ih =>
    simp only [all_cons, Bool.and_eq_true] at h
    have hfirst : (paramType sources function none p).run s = (paramType .none function none p).run s := by
      unfold paramType
      have hp := h.1
      unfold Param.within at hp
      split at hp
      · rename_i name declared hkind
        rw [hkind]
        cases declared with
        | none => rfl
        | some t => exact resolveWith_known hs false t (by simpa using hp)
      · rename_i hkind
        rw [hkind]
    refine run_bind_congr hfirst fun _ s' hrun => ?_
    obtain rfl := (loads_none.paramType function none p .any).ok hrun
    exact run_bind_congr (ih h.2) fun _ _ _ => rfl

theorem announce_known {head : FunctionHead} (hparams : head.params.all (·.within known))
    (hreturns : head.returns.all (·.within known)) :
    (announce sources head l).run s = (announce .none head l).run s := by
  unfold announce
  refine run_bind_congr rfl fun _ s1 hrun => ?_
  obtain rfl := (loads_none.checkParams head.name [] head.params fun _ _ => .any).ok hrun
  refine run_bind_congr (paramTypes_known hs head.name hparams) fun _ s2 hrun => ?_
  obtain rfl := (loads_none.paramTypes head.name head.params fun _ _ => .any).ok hrun
  exact run_bind_congr (resolveOption_known hs hreturns) fun _ _ _ => rfl

/-- A line that mentions known types makes no header be read. -/
theorem statement_known (h : line.isHeaderLine known) :
    (statement sources line).run s = (statement .none line).run s := by
  unfold Stmt.isHeaderLine at h
  split at h
  · rfl
  · rfl
  · rfl
  · rename_i m name fields
    rw [isEmpty_iff.mp h]
    rfl
  · rename_i m _ target name
    have hknown : s.scope.types.contains target := hs target (by simpa using h)
    unfold statement
    refine run_bind_congr ?_ fun _ _ _ => rfl
    unfold typedef
    refine run_bind_congr (by rw [needType_known hknown, needType_known hknown]) fun _ s' hrun => ?_
    rw [needType_known hknown] at hrun
    cases hrun
    show (if s.scope.types.contains target then _ else _ : Check Unit).run s =
      (if s.scope.types.contains target then _ else _ : Check Unit).run s
    rw [if_pos hknown, if_pos hknown]
  · rename_i m d
    rw [Bool.and_eq_true, Option.isNone_iff_eq_none, Option.any_eq_true] at h
    obtain ⟨hinit, t, ht, hwithin⟩ := h
    unfold statement
    refine run_bind_congr ?_ fun _ _ _ => rfl
    unfold variableDeclaration
    rw [ht, hinit]
    exact run_bind_congr (resolveWith_known hs false t hwithin) fun _ _ _ => rfl
  · rename_i m head
    rw [Bool.and_eq_true] at h
    unfold statement
    exact run_bind_congr (announce_known hs h.1 h.2) fun _ _ _ => rfl
  · cases h

end

/-! ### What lines add -/

/-- A struct without members adds its name. -/
theorem emptyStruct_run (name : String) (l : Location) (s : CheckState) : (Check.struct sources name [] l).run s =
      match s.scope.types.add name (.namedStruct name) with
      | .ok types => .ok () (s.setTypes types)
      | .error fault => .error (.semantic (.typeRule fault) l) s := by
  have hchange : (changeTypes l fun types => types.add name (.namedStruct name)).run s =
      match s.scope.types.add name (.namedStruct name) with
      | .ok types => .ok () (s.setTypes types)
      | .error fault => .error (.semantic (.typeRule fault) l) s := by
    unfold changeTypes
    show EStateM.run (match s.scope.types.add name (.namedStruct name) with
      | .ok types => _
      | .error fault => _ : Check Unit) s = _
    cases s.scope.types.add name (.namedStruct name) <;> rfl
  unfold Check.struct
  rw [EStateM.run_bind, hchange]
  cases hadd : s.scope.types.add name (.namedStruct name) with
  | error fault => rfl
  | ok types =>
    -- The entry that is written a second time is the one that is there.
    show EStateM.Result.ok () ((s.setTypes types).setTypes
      ((s.setTypes types).scope.types.complete name (.struct name []))) = _
    have hsame : types.complete name (.struct name []) = types := by
      unfold TypeTable.add at hadd
      split at hadd
      · cases hadd
      · cases hadd
        exact congrArg TypeTable.mk (Dictionary.insert_insert _ _ _)
    simp [CheckState.setTypes, hsame]

/-- Lines of headers only add. -/
theorem Adds.headerLine {T : Course} (hT : Adds T sources)
    (h : line.isHeaderLine known) : Ends T (statement sources line) := by
  unfold Stmt.isHeaderLine at h
  split at h
  · exact hT.pure _
  · exact hT.pure _
  · refine hT.bind ?_ fun _ => hT.pure _
    exact hT.bind (hT.modifyScope fun _ => .guard _) fun _ => hT.pure _
  · rename_i m name fields
    rw [isEmpty_iff.mp h]
    refine hT.bind (fun s => ?_) fun _ => hT.pure _
    apply endsFrom_of_run
    · intro _ s' hrun
      rw [emptyStruct_run] at hrun
      split at hrun <;> cases hrun
      rename_i hadd
      exact hT.add (.type hadd)
    · intro _ s' hrun
      rw [emptyStruct_run] at hrun
      split at hrun <;> cases hrun
      exact hT.fail s rfl (.inr ⟨_, rfl, trivial⟩)
  · exact hT.bind (hT.typedef _ _ _ .any trivial) fun _ => hT.pure _
  · exact hT.bind (hT.variableDeclaration _ _ .any trivial) fun _ => hT.pure _
  · exact hT.bind (hT.announce _ _ .any trivial) fun _ => hT.pure _
  · cases h

/-- A declaration that goes through. -/
theorem declare_sets {type : ValueType} (h : (declare name type l).run s = .ok a s') :
    (∀ previous, (s.scope.bind name type).1 ≠ .conflict previous) ∧ s' = s.setScope (s.scope.bind name type).2 := by
  unfold declare at h
  obtain ⟨scope, _, hscope, h⟩ := run_bind_ok.mp h
  cases hscope
  dsimp only at h
  generalize s.scope.bind name type = bound at h ⊢
  obtain ⟨binding, scope⟩ := bound
  cases binding with
  | new | repeated =>
    cases h
    exact ⟨nofun, rfl⟩
  | conflict previous => cases h

theorem changeTypes_sets {change : TypeTable → Except TypeFault TypeTable}
    (h : (changeTypes l change).run s = .ok a s') :
    ∃ types, change s.scope.types = .ok types ∧ s' = s.setTypes types := by
  unfold changeTypes at h
  obtain ⟨scope, _, hscope, h⟩ := run_bind_ok.mp h
  cases hscope
  cases hchange : change s.scope.types with
  | ok types =>
    rw [hchange] at h
    cases h
    exact ⟨types, rfl, rfl⟩
  | error fault =>
    rw [hchange] at h
    cases h

/-- A synonym of a name that is known. -/
theorem synonym_sets {span : Span} {target : String} (hknown : s.scope.types.contains target)
    (h : (typedef sources (.name span target) name l).run s = .ok a s') :
    ∃ types, s.scope.types.addAlias name target = .ok types ∧ s' = s.setTypes types := by
  unfold typedef at h
  obtain ⟨_, s1, hneed, h⟩ := run_bind_ok.mp h
  rw [needType_known hknown] at hneed
  cases hneed
  obtain ⟨_, _, hscope, h⟩ := run_bind_ok.mp h
  cases hscope
  rw [if_pos hknown] at h
  exact changeTypes_sets h

/-- An announcement binds its name, when the types it writes have been worked out. -/
theorem announce_sets {head head' : FunctionHead} (h : (announce sources head l).run s = .ok head' s') :
    ∃ s1 types s2 returns s3, (checkParams head.name [] head.params).run s = .ok () s1 ∧
      (paramTypes sources head.name head.params).run s1 = .ok types s2 ∧
      (resolveOption sources head.returns).run s2 = .ok returns s3 ∧
      s' = s3.setScope (s3.scope.bind head.name (.function types (returns.getD .int))).2 := by
  unfold announce at h
  obtain ⟨_, s1, hparams, h⟩ := run_bind_ok.mp h
  obtain ⟨types, s2, htypes, h⟩ := run_bind_ok.mp h
  obtain ⟨returns, s3, hreturns, h⟩ := run_bind_ok.mp h
  obtain ⟨scope, _, hscope, h⟩ := run_bind_ok.mp h
  cases hscope
  refine ⟨s1, types, s2, returns, s3, hparams, htypes, hreturns, ?_⟩
  generalize s3.scope.bind head.name (.function types (returns.getD .int)) = bound at h ⊢
  obtain ⟨binding, scope⟩ := bound
  cases binding with
  | conflict previous =>
    dsimp only at h
    split at h <;> cases h
  | new | repeated =>
    cases h
    rfl

theorem announce_binds {head head' : FunctionHead} (h : (announce sources head l).run s = .ok head' s') :
    (s'.scope.lookup head.name).isSome := by
  obtain ⟨_, types, _, returns, s3, _, _, _, rfl⟩ := announce_sets h
  rw [CheckState.scope_setScope]
  exact s3.scope.lookup_bind_isSome _ _

/-- The second scope is the first with what the line declares. -/
structure Takes (line : Stmt) (s s' : Scope) : Prop where
  knows : ∀ n kind, s'.knows n kind ↔ s.knows n kind ∨ line.declares? = some (kind, n)
  constants : s'.constants = s.constants

namespace Takes

variable {s : Scope}

theorem refl (h : line.declares? = none) : Takes line s s := ⟨fun n kind => by simp [h], rfl⟩

theorem enters {types : TypeTable} (h : s.types.Enters name types) (hline : line.declares? = some (.type, name)) :
    Takes line s { s with types } := by
  obtain ⟨_, entry, rfl⟩ := h
  refine ⟨fun n kind => ?_, rfl⟩
  cases kind with
  | type =>
    simp only [Scope.knows, TypeTable.contains, Dictionary.contains, Dictionary.get?_insert, hline]
    by_cases heq : name = n <;> simp [heq]
  | name | guard | body => simp [Scope.knows, Scope.lookup, hline]

theorem bind (type : ValueType) (hline : line.declares? = some (.name, name)) :
    Takes line s (s.bind name type).2 := by
  have hbound := s.lookup_bind_isSome name type
  obtain heq | heq := s.bind_cases name type
  · rw [heq] at hbound ⊢
    refine ⟨fun n kind => ⟨.inl, ?_⟩, rfl⟩
    rintro (hknown | hnew)
    · exact hknown
    · rw [hline] at hnew
      cases hnew
      exact hbound
  · rw [heq]
    refine ⟨fun n kind => ?_, rfl⟩
    cases kind with
    | name =>
      simp only [Scope.knows, Scope.lookup, Scope.setVariable, Dictionary.get?_insert, hline]
      by_cases heq : name = n <;> simp [heq]
    | type | guard | body => simp [Scope.knows, Scope.setVariable, hline]

theorem guard (hline : line.declares? = some (.guard, name)) :
    Takes line s { s with macros := s.macros.insert name } := by
  refine ⟨fun n kind => ?_, rfl⟩
  cases kind with
  | guard => simp [Scope.knows, NameSet.contains_insert, hline]
  | name | type | body => simp [Scope.knows, Scope.lookup, hline]

end Takes

/-- A line of a header that is in order adds to the scope what it declares, and nothing else. -/
theorem headerLine_takes {line' : Stmt} (hknown : s.scope.KnowsTypes known) (hline : line.isHeaderLine known)
    (h : (statement sources line).run s = .ok line' s') : ∃ scope, s' = s.setScope scope ∧ Takes line s.scope scope := by
  rw [statement_known hknown hline] at h
  unfold Stmt.isHeaderLine at hline
  split at hline
  · cases h
    exact ⟨_, (s.setScope_scope).symm, .refl rfl⟩
  · cases h
    exact ⟨_, (s.setScope_scope).symm, .refl rfl⟩
  · cases h
    exact ⟨_, rfl, .guard rfl⟩
  · rw [statement, isEmpty_iff.mp hline] at h
    obtain ⟨_, s1, hstruct, h⟩ := run_bind_ok.mp h
    cases h
    rw [emptyStruct_run] at hstruct
    split at hstruct <;> cases hstruct
    rename_i hadd
    exact ⟨_, rfl, .enters (TypeTable.enters_add hadd) rfl⟩
  · rename_i m span target name
    rw [statement] at h
    obtain ⟨_, s1, htypedef, h⟩ := run_bind_ok.mp h
    cases h
    obtain ⟨types, hadd, rfl⟩ := synonym_sets (hknown target (by simpa using hline)) htypedef
    exact ⟨_, rfl, .enters (TypeTable.enters_addAlias hadd) rfl⟩
  · rename_i m d
    rw [Bool.and_eq_true, Option.isNone_iff_eq_none, Option.any_eq_true] at hline
    obtain ⟨hinit, declared, hdeclared, _⟩ := hline
    rw [statement] at h
    obtain ⟨_, s1, hvariable, h⟩ := run_bind_ok.mp h
    cases h
    unfold variableDeclaration at hvariable
    rw [hdeclared, hinit] at hvariable
    obtain ⟨type, s2, htype, hvariable⟩ := run_bind_ok.mp hvariable
    obtain rfl := (loads_none.resolve declared .any).ok htype
    obtain ⟨_, s3, hvoid, hvariable⟩ := run_bind_ok.mp hvariable
    rw [(require_ok hvoid).2] at hvariable
    obtain ⟨_, s4, hnone, hvariable⟩ := run_bind_ok.mp hvariable
    cases hnone
    obtain ⟨_, s5, hdeclare, hvariable⟩ := run_bind_ok.mp hvariable
    cases hvariable
    obtain ⟨_, rfl⟩ := declare_sets hdeclare
    exact ⟨_, rfl, .bind type rfl⟩
  · rename_i m head
    rw [statement] at h
    obtain ⟨_, s1, hannounce, h⟩ := run_bind_ok.mp h
    cases h
    obtain ⟨_, types, _, returns, _, hparams, htypes, hreturns, rfl⟩ := announce_sets hannounce
    obtain rfl := (loads_none.checkParams head.name [] head.params fun _ _ => .any).ok hparams
    obtain rfl := (loads_none.paramTypes head.name head.params fun _ _ => .any).ok htypes
    obtain rfl := (loads_none.resolveOption head.returns fun _ _ => .any).ok hreturns
    exact ⟨_, rfl, .bind _ rfl⟩
  · cases hline

end Check

end Offside
