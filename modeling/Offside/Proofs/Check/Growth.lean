import Offside.Proofs.Check.Context
import Offside.Proofs.Types.Table

/-! What a check keeps.

The global scope only grows: what it says of a variable, a type, a function or a guard it goes on saying,
whatever is checked afterwards (`Scope.GoesOn`, `grows_tolerates`). The files that have been checked stay on the list, since a file is checked once
(`files_tolerates`); and only an include at the top level, outside headers, adds a file to it
(`units_statement`, `include_ok`). -/
namespace Offside

open List

variable {s t u : CheckState} {path : Path}

/-! ### Variables of the global scope -/

namespace Scope

variable {s : Scope}

/-- Every variable was declared at the scope's own level. -/
def Rooted (s : Scope) : Prop := ∀ name type, s.lookup name = some type → s.isLocal name = true

/-- What the first scope says about variables, the second says too. -/
def Keeps (s s' : Scope) : Prop :=
  ∀ name type, s.lookup name = some type → s'.lookup name = some type

theorem Keeps.refl (s : Scope) : s.Keeps s := fun _ _ h => h

theorem Keeps.trans {t u : Scope} (h : s.Keeps t) (h' : t.Keeps u) : s.Keeps u :=
  fun name type hs => h' name type (h name type hs)

/-- Declaring in a rooted scope: a name that is taken stays as it is. -/
theorem Rooted.bind_eq (h : s.Rooted) (name : String) (type : ValueType) : s.bind name type = match s.lookup name with
      | some previous =>
        (if ValueType.same previous type then .repeated else .conflict previous, s)
      | none => (.new, s.setVariable name type) := by
  unfold bind
  cases hl : s.lookup name with
  | none => simp
  | some previous =>
    rw [h name previous hl, if_pos rfl]
    dsimp only
    split <;> rfl

theorem lookup_setVariable (s : Scope) (name other : String) (type : ValueType) :
    (s.setVariable name type).lookup other = if name = other then some type else s.lookup other :=
  Dictionary.get?_insert _ _ _ _

theorem Rooted.setVariable (h : s.Rooted) (name : String) (type : ValueType) : (s.setVariable name type).Rooted := by
  intro other t ht
  show (s.localNames.insert name).contains other
  rw [NameSet.contains_insert]
  rw [lookup_setVariable] at ht
  split at ht
  · rename_i he
    simp [he]
  · have := h other t ht
    rw [isLocal] at this
    rw [this, Bool.true_or]

theorem keeps_setVariable {name : String} (hnew : s.lookup name = none)
    (type : ValueType) : s.Keeps (s.setVariable name type) := by
  intro other t ht
  rw [lookup_setVariable, if_neg]
  · exact ht
  · rintro rfl
    rw [hnew] at ht
    cases ht

/-- Behind a declaration the name has a type, its old one if it had one. -/
theorem Rooted.lookup_bind (h : s.Rooted) (name : String) (type : ValueType) :
    (s.bind name type).2.lookup name = some ((s.lookup name).getD type) := by
  rw [h.bind_eq]
  cases hl : s.lookup name with
  | none =>
    show (s.setVariable name type).lookup name = some type
    rw [lookup_setVariable, if_pos rfl]
  | some previous => exact hl

/-- Whatever the first scope says of variables, types, functions and guards, the second says too. -/
structure GoesOn (s s' : Scope) : Prop where
  names : s.Keeps s'
  types : ∀ name entry, s.types.entry? name = some entry → s'.types.entry? name = some entry
  functions : ∀ name, s.definedFunctions.contains name = true →
    s'.definedFunctions.contains name = true
  macros : ∀ name, s.macros.contains name = true → s'.macros.contains name = true

namespace GoesOn

variable {s' t : Scope}

theorem refl (s : Scope) : s.GoesOn s := ⟨.refl s, fun _ _ h => h, fun _ h => h, fun _ h => h⟩

theorem trans (h : s.GoesOn t) (h' : t.GoesOn s') : s.GoesOn s' where
  names := h.names.trans h'.names
  types name entry hs := h'.types name entry (h.types name entry hs)
  functions name hs := h'.functions name (h.functions name hs)
  macros name hs := h'.macros name (h.macros name hs)

/-- A name that the first scope does not know may be entered again in the second. -/
theorem complete (h : s.GoesOn s') {name : String} (hfree : s.types.contains name = false)
    (type : ValueType) : s.GoesOn { s' with types := s'.types.complete name type } := by
  refine { h with types := fun other entry hentry => ?_ }
  show TypeTable.entry? ⟨s'.types.entries.insert name (.base type)⟩ other = some entry
  rw [TypeTable.entry_insert, if_neg]
  · exact h.types other entry hentry
  · rintro rfl
    rw [TypeTable.not_contains_iff.mp hfree] at hentry
    cases hentry

end GoesOn

theorem Rooted.bind {s : Scope} (h : s.Rooted) (name : String) (type : ValueType) :
    (s.bind name type).2.Rooted ∧ s.GoesOn (s.bind name type).2 := by
  rw [h.bind_eq]
  cases hl : s.lookup name with
  | none => exact ⟨h.setVariable name type, { GoesOn.refl s with names := keeps_setVariable hl type }⟩
  | some previous => exact ⟨h, .refl s⟩

/-- In the global scope additions leave what is there. -/
theorem Rooted.addition {s' : Scope} (h : s.Rooted) (hs : s.Addition s') : s'.Rooted ∧ s.GoesOn s' := by
  have hsame := GoesOn.refl s
  cases hs with
  | bind name type => exact h.bind name type
  | type hnew => exact ⟨h, { hsame with types := fun _ _ => (TypeTable.enters_add hnew).keeps }⟩
  | synonym hnew => exact ⟨h, { hsame with types := fun _ _ => (TypeTable.enters_addAlias hnew).keeps }⟩
  | typedef hnew => exact ⟨h, { hsame with types := fun _ _ => (TypeTable.enters_addTypedef hnew).keeps }⟩
  | function name => exact ⟨h, { hsame with functions := fun other h => by simp [NameSet.contains_insert, h] }⟩
  | guard name => exact ⟨h, { hsame with macros := fun other h => by simp [NameSet.contains_insert, h] }⟩

end Scope

/-- The second state goes on from the first: under as many local scopes, with a global scope that goes on
and with the headers that were read, in their order. -/
structure Grows (s s' : CheckState) : Prop where
  locals : s'.environment.locals.length = s.environment.locals.length
  rooted : s.environment.global.Rooted → s'.environment.global.Rooted
  global : s.environment.global.Rooted → s.environment.global.GoesOn s'.environment.global
  headers : s.headers <+: s'.headers

namespace Grows

variable {s' : CheckState}

theorem refl (s : CheckState) : Grows s s := ⟨rfl, id, fun _ => .refl _, prefix_refl _⟩

theorem trans (h : Grows s t) (h' : Grows t s') : Grows s s' where
  locals := h'.locals.trans h.locals
  rooted hs := h'.rooted (h.rooted hs)
  global hs := (h.global hs).trans (h'.global (h.rooted hs))
  headers := h.headers.trans h'.headers

/-- Where a local scope is in sight, a change of scope leaves the global one. -/
theorem setScope {scope : Scope} (h : s.scope.Rooted → scope.Rooted ∧ s.scope.GoesOn scope) :
    Grows s (s.setScope scope) := by
  obtain ⟨⟨locals, global⟩⟩ := s
  cases locals with
  | nil => exact ⟨rfl, fun hs => (h hs).1, fun hs => (h hs).2, prefix_refl _⟩
  | cons => exact ⟨rfl, id, fun _ => .refl _, prefix_refl _⟩

/-- A struct gets its members under a name that was free. -/
theorem complete (h : Grows s t) {name : String} (hfree : s.scope.types.contains name = false)
    (type : ValueType) : Grows s (t.setTypes (t.scope.types.complete name type)) := by
  have hlocals := h.locals
  obtain ⟨⟨locals, global⟩⟩ := s
  obtain ⟨⟨locals', global'⟩⟩ := t
  cases locals' with
  | nil =>
    obtain rfl : locals = [] := length_eq_zero_iff.mp hlocals.symm
    exact ⟨rfl, h.rooted, fun hs => (h.global hs).complete hfree type, h.headers⟩
  | cons => exact ⟨hlocals, h.rooted, h.global, h.headers⟩

theorem closeHeader (h : Grows s.openHeader s') : Grows s (s.closeHeader s') where
  locals := length_map _
  rooted := h.rooted
  global := h.global
  headers := h.headers

theorem leaveFunction {f : FunctionContext}
    (h : Grows { s with function := some f, environment := s.environment.enter } s') :
    Grows s { s' with function := none, environment := s'.environment.exit } := by
  have hlocals : s'.environment.locals.length = s.environment.locals.length + 1 := h.locals
  refine ⟨?_, h.rooted, h.global, h.headers⟩
  show (s'.environment.locals.drop 1).length = s.environment.locals.length
  rw [length_drop, hlocals, Nat.add_sub_cancel]

end Grows

namespace Check

variable {config : Config} {sources : Sources} {s s' : CheckState}

/-- The name of a type that is entered was free. -/
theorem changeTypes_add_free {l : Location} {name : String} {type : ValueType} {a : Unit}
    (h : (changeTypes l fun types => types.add name type).run s = .ok a s') :
    s.scope.types.contains name = false := by
  unfold changeTypes at h
  obtain ⟨scope, _, hscope, h⟩ := run_bind_ok.mp h
  cases hscope
  dsimp only at h
  cases hadd : s.scope.types.add name type with
  | error fault =>
    rw [hadd] at h
    cases h
  | ok types => exact (TypeTable.enters_add hadd).1

/-- A struct is entered under a free name, and then once more with its members. -/
theorem struct_grows (h : Adds (Always Grows) sources) (name : String)
    (fields : List Field) (l : Location) :
    Ends (Always Grows) (struct sources name fields l) := by
  intro s
  have hname : Ends (Always Grows) (changeTypes l fun types => types.add name (.namedStruct name)) :=
    h.changeTypes l trivial fun _ _ h => .type h
  apply endsFrom_of_run
  · intro a s' hrun
    obtain ⟨_, s1, hadd, hrun⟩ := run_bind_ok.mp hrun
    obtain ⟨members, s2, hmembers, hrun⟩ := run_bind_ok.mp hrun
    cases hrun
    have hbefore : Grows s s2 :=
      ((hname s).ok hadd).trans ((h.structMembers name fields fun _ _ => .any).ok hmembers)
    exact hbefore.complete (changeTypes_add_free hadd) _
  · intro failure s' hrun
    obtain hadd | ⟨_, s1, hadd, hrun⟩ := run_bind_error hrun
    · exact (hname s).error hadd
    · obtain hmembers | ⟨members, s2, _, hrun⟩ := run_bind_error hrun
      · exact ((hname s).ok hadd).trans ((h.structMembers name fields fun _ _ => .any).error hmembers)
      · cases hrun

end Check

open Check in
theorem grows_tolerates (config : Config) : Tolerates Grows config where
  refl := .refl
  trans := .trans
  add h := .setScope fun hs => hs.addition h
  constants _ _ := .setScope fun hs => ⟨hs, { Scope.GoesOn.refl _ with }⟩
  struct name fields l h := struct_grows h name fields l
  infer _ _ := { Grows.refl _ with }
  block h := { h with }
  breakable h := { h with }
  body _ _ h := h.leaveFunction
  header := .closeHeader
  headerRead _ _ _ _ h :=
    { h.closeHeader with headers := h.headers.trans (prefix_append _ _) }
  visit _ := { Grows.refl _ with }
  file _ h := { h with }
  unit _ _ _ _ h := { h with }

/-! ### Files that have been checked -/

namespace Check

theorem mem_insertUnit {m : Module} {units : List (Path × Module)} {u : Path × Module}
    (h : u ∈ insertUnit path m units) : u = (path, m) ∨ u ∈ units := by
  induction units with
  | nil => exact .inl (mem_singleton.mp h)
  | cons first rest ih =>
    obtain ⟨p, n⟩ := first
    unfold insertUnit at h
    split at h
    · rcases mem_cons.mp h with h | h
      · exact .inl h
      · exact .inr (mem_cons_of_mem _ h)
    · split at h
      · exact mem_cons.mp h
      · rcases mem_cons.mp h with rfl | h
        · exact .inr mem_cons_self
        · exact (ih h).imp_right (mem_cons_of_mem _)

theorem mem_insertUnit_self (path : Path) (m : Module) (units : List (Path × Module)) :
    (path, m) ∈ insertUnit path m units := by
  induction units with
  | nil => exact mem_singleton.mpr rfl
  | cons first rest ih =>
    unfold insertUnit
    split
    · exact mem_cons_self
    · split
      · exact mem_cons_self
      · exact mem_cons_of_mem _ ih

/-- Entering a file keeps the others. -/
theorem mem_insertUnit_of_ne (m : Module) {units : List (Path × Module)}
    {u : Path × Module} (hu : u ∈ units) (hne : u.1 ≠ path) : u ∈ insertUnit path m units := by
  induction units with
  | nil => cases hu
  | cons first rest ih =>
    obtain ⟨p, n⟩ := first
    unfold insertUnit
    split
    · rename_i hp
      rcases mem_cons.mp hu with rfl | hu
      · exact absurd hp.symm hne
      · exact mem_cons_of_mem _ hu
    · split
      · exact mem_cons_of_mem _ hu
      · rcases mem_cons.mp hu with rfl | hu
        · exact mem_cons_self
        · exact mem_cons_of_mem _ (ih hu)

end Check

/-- Files that have been checked are on the list of those included at any time. -/
def CheckState.Filed (s : CheckState) : Prop := ∀ u ∈ s.units, u.1 ∈ s.visited

/-- The files of the first state are still there in the second, and those that were added had not been
included before. -/
structure Files (s s' : CheckState) : Prop where
  visited : ∀ p ∈ s.visited, p ∈ s'.visited
  filed : s.Filed → s'.Filed
  keeps : s.Filed → ∀ u ∈ s.units, u ∈ s'.units
  fresh : s.Filed → ∀ u ∈ s'.units, u ∈ s.units ∨ u.1 ∉ s.visited

namespace Files

variable {s s' : CheckState} {path : Path}

theorem same (hv : s'.visited = s.visited) (hu : s'.units = s.units) : Files s s' := by
  refine ⟨?_, ?_, ?_, ?_⟩
  · rw [hv]
    exact fun _ h => h
  · unfold CheckState.Filed
    rw [hv, hu]
    exact id
  · rw [hu]
    exact fun _ _ h => h
  · rw [hu]
    exact fun _ _ h => .inl h

theorem trans (h : Files s t) (h' : Files t u) : Files s u where
  visited p hp := h'.visited p (h.visited p hp)
  filed hs := h'.filed (h.filed hs)
  keeps hs x hx := h'.keeps (h.filed hs) x (h.keeps hs x hx)
  fresh hs x hx := by
    rcases h'.fresh (h.filed hs) x hx with hx | hx
    · exact h.fresh hs x hx
    · exact .inr fun hp => hx (h.visited _ hp)

/-- Entering and leaving a part that keeps its files in view. -/
theorem around {t' : CheckState} (h : Files t t') (hin : t.visited = s.visited ∧ t.units = s.units)
    (hout : s'.visited = t'.visited ∧ s'.units = t'.units) : Files s s' :=
  ((same hin.1 hin.2).trans h).trans (same hout.1 hout.2)

theorem visit (path : Path) : Files s (s.visit path) where
  visited _ hp := mem_cons_of_mem _ hp
  filed hs u hu := mem_cons_of_mem _ (hs u hu)
  keeps _ _ hu := hu
  fresh _ _ hu := .inl hu

theorem file (h : Files (s.openFile path) s') : Files s (s.closeFile s') :=
  have hopen : Files s (s.openFile path) := (visit path).trans (.same rfl rfl)
  (hopen.trans h).trans (.same rfl rfl)

/-- The path of a file that has just been checked is new on the list. -/
theorem ne_path (hnew : path ∉ s.visited) (hs : s.Filed)
    (h : Files (s.openFile path) s') : ∀ u ∈ s'.units, u.1 ≠ path := by
  have hopen : (s.openFile path).Filed := fun u hu => mem_cons_of_mem _ (hs u hu)
  rintro u hu rfl
  rcases h.fresh hopen u hu with hu | hu
  · exact hnew (hs u hu)
  · exact hu mem_cons_self

theorem unit {m : Module} (hnew : path ∉ s.visited)
    (h : Files (s.openFile path) s') :
    Files s { s.closeFile s' with units := Check.insertUnit path m s'.units } where
  visited := h.file.visited
  filed hs u hu := by
    rcases Check.mem_insertUnit hu with rfl | hu
    · exact h.visited path mem_cons_self
    · exact h.file.filed hs u hu
  keeps hs u hu :=
    have hkept : u ∈ s'.units := h.file.keeps hs u hu
    Check.mem_insertUnit_of_ne m hkept (h.ne_path hnew hs u hkept)
  fresh hs u hu := by
    rcases Check.mem_insertUnit hu with rfl | hu
    · exact .inr hnew
    · exact h.file.fresh hs u hu

end Files

theorem files_tolerates (config : Config) : Check.Tolerates Files config where
  refl _ := .same rfl rfl
  trans := .trans
  add _ := .same rfl rfl
  constants _ _ := .same rfl rfl
  struct name fields l h := h.struct (fun _ _ _ => Files.same rfl rfl) name fields l (fun _ _ => .any) trivial
  infer _ _ := .same rfl rfl
  block h := h.around ⟨rfl, rfl⟩ ⟨rfl, rfl⟩
  breakable h := h.around ⟨rfl, rfl⟩ ⟨rfl, rfl⟩
  body _ _ h := h.around ⟨rfl, rfl⟩ ⟨rfl, rfl⟩
  header h := h.around ⟨rfl, rfl⟩ ⟨rfl, rfl⟩
  headerRead _ _ _ _ h := h.around ⟨rfl, rfl⟩ ⟨rfl, rfl⟩
  visit _ := .visit _
  file _ h := h.file
  unit hadmits _ _ _ h := .unit hadmits.new h

/-! ### Where files are added -/

/-- Inside a function, a block or a header. -/
def CheckState.Enclosed (s : CheckState) : Prop := s.function.isSome = true ∨ s.blockDepth ≠ 0 ∨ s.headerDepth ≠ 0

/-- The two states stand at the same place, and inside a function, a block or a header they know the same
files. -/
structure Encloses (s s' : CheckState) : Prop extends s.Situated s' where
  units : s.Enclosed → s'.units = s.units

namespace Encloses

theorem refl (s : CheckState) : Encloses s s := ⟨.refl s, fun _ => rfl⟩

theorem trans (h : Encloses s t) (h' : Encloses t u) : Encloses s u where
  toSituated := h.toSituated.trans h'.toSituated
  units hs := by
    have ht : t.Enclosed := by
      unfold CheckState.Enclosed at hs ⊢
      rwa [h.inFunction, h.block, h.header]
    rw [h'.units ht, h.units hs]

end Encloses

theorem CheckState.Admits.not_enclosed (h : s.Admits path) : ¬ s.Enclosed := by
  have htop := h.topLevel
  simp only [CheckState.atTopLevel, Bool.and_eq_true, beq_iff_eq] at htop
  rintro (hf | hb | hh)
  · cases hs : s.function <;> simp_all
  · exact hb htop.2
  · exact hh h.outside

theorem encloses_tolerates (config : Config) : Check.Tolerates Encloses config where
  refl := .refl
  trans := .trans
  add _ := ⟨.setScope _ _, fun _ => rfl⟩
  constants _ _ := ⟨.setScope _ _, fun _ => rfl⟩
  struct name fields l h :=
    h.struct (fun _ _ _ => ⟨.setScope _ _, fun _ => rfl⟩) name fields l (fun _ _ => .any) trivial
  infer type hf := ⟨.infer type hf, fun _ => rfl⟩
  block h := ⟨h.leaveBlock, fun _ => h.units (.inr (.inl (Nat.succ_ne_zero _)))⟩
  breakable h := ⟨h.leaveBreakable, h.units⟩
  body _ htop h := ⟨.leaveFunction htop h.toSituated, fun _ => h.units (.inl rfl)⟩
  header h := ⟨h.closeHeader, fun _ => h.units (.inr (.inr (Nat.succ_ne_zero _)))⟩
  headerRead _ _ _ _ h := ⟨{ h.closeHeader with }, fun _ => h.units (.inr (.inr (Nat.succ_ne_zero _)))⟩
  visit _ := ⟨{ CheckState.Situated.refl _ with }, fun _ => rfl⟩
  file _ h := ⟨h.closeFile, fun hs => h.units hs⟩
  unit hadmits _ _ _ h := ⟨{ h.closeFile with }, fun hs => absurd hs hadmits.not_enclosed⟩

namespace Check

variable {config : Config} {s s' : CheckState} {checked : Stmt}

/-- The two states know the same files. -/
def SameUnits (s s' : CheckState) : Prop := s'.units = s.units

theorem SameUnits.chains : Chains (Always SameUnits) := .ofOrder (fun _ => rfl) fun h h' => Eq.trans h' h

/-- Headers add no file. -/
theorem sameUnits_load (config : Config) (depth : Nat) {header : Header} (s : CheckState) :
    EndsFrom (Always SameUnits) ((sourcesTo config depth).load header) s := by
  cases depth with
  | zero => exact Eq.refl s.units
  | succ depth =>
    have hin : s.openHeader.Enclosed := .inr (.inr (Nat.succ_ne_zero _))
    have hbody (m : Module) := ((encloses_tolerates config).respects depth).statements m.body .any s.openHeader
    refine SameUnits.chains.loadHeader (fun _ _ => trivial)
      (fun m _ _ _ _ hrun => ((hbody m).error hrun).units hin) ?_
    intro m _ s' _ _ hrun
    have hunits : s'.units = s.units := ((hbody m).ok hrun).units hin
    show SameUnits s (if _ then _ else _)
    split <;> exact hunits

theorem sameUnits_shelters (config : Config) (depth : Nat) :
    Shelters (Always SameUnits) (Always Encloses) (sourcesTo config depth) where
  outside :=
    have hadds : Adds (Always SameUnits) (sourcesTo config depth) :=
      { SameUnits.chains with load := fun _ => sameUnits_load config depth, add := fun _ => rfl }
    { hadds with
      constants := fun _ _ => rfl
      struct := hadds.struct fun _ _ _ => rfl }
  inside := (encloses_tolerates config).respects depth
  misplaced _ _ _ := rfl
  block h := h.units (.inr (.inl (Nat.succ_ne_zero _)))
  breakable h := h
  body _ h := h.units (.inl rfl)
  result hf h := h.units (.inl (by rw [hf]; rfl))

/-- Only an include adds files. -/
theorem units_statement (config : Config) (depth : Nat) (s : Stmt) (hs : ∀ m path, s ≠ .includeFile m path) :
    Ends (Always SameUnits) (statement (sourcesTo config depth) s) :=
  (sameUnits_shelters config depth).statement s hs

/-! ### Between statements -/

/-- Outside all functions, so that what is declared is declared globally. -/
structure OnGlobal (s : CheckState) : Prop where
  locals : s.environment.locals = []
  rooted : s.environment.global.Rooted

namespace OnGlobal

variable {s s' : CheckState}

variable (h : OnGlobal s)
include h

theorem scope : s.scope = s.environment.global := by
  unfold CheckState.scope Environment.current
  rw [h.locals]
  rfl

theorem grows (hg : Grows s s') : OnGlobal s' := by
  refine ⟨length_eq_zero_iff.mp ?_, hg.rooted h.rooted⟩
  rw [hg.locals, h.locals]
  rfl

/-- Between statements the scope in sight is the global one. -/
theorem goesOn (hg : Grows s s') : s.scope.GoesOn s'.scope := by
  rw [h.scope, (h.grows hg).scope]
  exact hg.global h.rooted

theorem scope_rooted : s.scope.Rooted := by
  rw [h.scope]
  exact h.rooted

end OnGlobal

/-- A state between the statements of a program, outside headers. -/
structure Between (s : CheckState) : Prop extends OnGlobal s where
  topLevel : s.atTopLevel = true
  outside : s.headerDepth = 0
  filed : s.Filed

namespace Between

variable {config : Config} {depth : Nat} {s s' : CheckState}

variable (h : Between s)
include h

theorem openFile (path : Path) : Between (s.openFile path) :=
  ⟨⟨h.locals, h.rooted⟩, h.topLevel, h.outside, fun u hu => mem_cons_of_mem _ (h.filed u hu)⟩

/-- What a part of a check leaves, when it respects all that checks respect. -/
theorem moves (hg : Grows s s') (he : Encloses s s') (hf : Files s s') : Between s' := by
  exact ⟨h.toOnGlobal.grows hg, he.atTopLevel.trans h.topLevel, he.header.trans h.outside, hf.filed h.filed⟩

theorem statement {first : Stmt}
    (hrun : (Check.statement (sourcesTo config depth) first).run s = .ok checked s') : Between s' :=
  h.moves ((((grows_tolerates config).respects depth).statement first .any).ok hrun)
    ((((encloses_tolerates config).respects depth).statement first .any).ok hrun)
    ((((files_tolerates config).respects depth).statement first .any).ok hrun)

theorem keeps_statement {first : Stmt}
    (hrun : (Check.statement (sourcesTo config depth) first).run s = .ok checked s') :
    s.scope.Keeps s'.scope :=
  (h.toOnGlobal.goesOn ((((grows_tolerates config).respects depth).statement first .any).ok hrun)).names

theorem keeps_statements {body checked : List Stmt}
    (hrun : (Check.statements (sourcesTo config depth) body).run s = .ok checked s') :
    s.scope.Keeps s'.scope :=
  (h.toOnGlobal.goesOn ((((grows_tolerates config).respects depth).statements body .any).ok hrun)).names

theorem units_statements {body checked : List Stmt}
    (hrun : (Check.statements (sourcesTo config depth) body).run s = .ok checked s') :
    ∀ u ∈ s.units, u ∈ s'.units :=
  Files.keeps ((((files_tolerates config).respects depth).statements body .any).ok hrun) h.filed

end Between

theorem between_startState (path : Option Path) : Between (CheckedUnit.startState path) := by
  cases path with
  | none | some => exact ⟨⟨rfl, nofun⟩, rfl, rfl, nofun⟩

/-- An include that goes through. A file that was included before is not looked at again. -/
theorem includeFile_ok {config : Config} {sources : Sources}
    {l : Location} {a : Unit} (h : (includeFile config sources path l).run s = .ok a s') :
    (path ∈ s.visited ∧ s' = s) ∨ (path ∉ s.visited ∧ ∃ text m body s1,
      config.files.textAt path = .ok text ∧ Module.ofText path.text text = .ok m ∧
      (statements sources m.body).run (s.openFile path) = .ok body s1 ∧
      s' = { s.closeFile s1 with units := insertUnit path ⟨m.file, body⟩ s1.units }) := by
  rw [includeFile_run] at h
  split at h
  · cases h
  split at h
  · rename_i hvisited
    cases h
    exact .inl ⟨hvisited, rfl⟩
  · rename_i hnew
    refine .inr ⟨hnew, ?_⟩
    split at h
    · cases h
    · rename_i text htext
      split at h
      · cases h
      · rename_i m hm
        split at h
        · cases h
        · rename_i body s1 hrun
          cases h
          exact ⟨text, m, body, s1, htext, hm, hrun, rfl⟩

/-- An include statement that goes through: it means a file, or else a header, which adds no file. -/
theorem include_ok {config : Config} {depth : Nat} {mark : Mark} {path : String} (hs : Between s)
    (h : (statement (sourcesTo config depth) (.includeFile mark path)).run s = .ok checked s') :
    ∃ d, depth = d + 1 ∧ ((∃ file, findInclude config s.directory path = some file ∧
        (includeFile config (sourcesTo config d) file mark.span.start).run s = .ok () s') ∨
      (findInclude config s.directory path = none ∧ s'.units = s.units)) := by
  rw [statement] at h
  obtain ⟨_, _, hget, h⟩ := run_bind_ok.mp h
  cases hget
  obtain ⟨_, s1, htop, h⟩ := run_bind_ok.mp h
  obtain ⟨_, s2, hfollow, h⟩ := run_bind_ok.mp h
  rw [(require_ok htop).2] at hfollow
  cases h
  cases depth with
  | zero => cases hfollow
  | succ d =>
    refine ⟨d, rfl, ?_⟩
    have hfollow : (followInclude config (sourcesTo config d) path mark.span.start).run s = .ok () s' := hfollow
    unfold followInclude at hfollow
    obtain ⟨_, _, hget, hfollow⟩ := run_bind_ok.mp hfollow
    cases hget
    dsimp only at hfollow
    rw [if_pos hs.outside] at hfollow
    cases hfind : findInclude config s.directory path with
    | some file =>
      rw [hfind] at hfollow
      exact .inl ⟨file, rfl, hfollow⟩
    | none =>
      rw [hfind] at hfollow
      refine .inr ⟨rfl, ?_⟩
      dsimp only at hfollow
      split at hfollow
      · exact (sameUnits_load config (d + 1) s).ok hfollow
      · cases hfollow

/-! ### All files -/

section

variable {P : Module → Prop} {I : CheckState → Prop}

/-- A file that an include finishes. -/
theorem include_units {depth : Nat} {mark : Mark} {path : String}
    (hfile : ∀ d file text (m : Module) body t', depth = d + 1 → Module.ofText file.text text = .ok m →
      Between (s.openFile file) →
      (statements (sourcesTo config d) m.body).run (s.openFile file) = .ok body t' →
      P ⟨m.file, body⟩ ∧ ∀ u ∈ t'.units, P u.2)
    (hs : Between s) (hunits : ∀ u ∈ s.units, P u.2)
    (h : (statement (sourcesTo config depth) (.includeFile mark path)).run s = .ok checked s') :
    ∀ u ∈ s'.units, P u.2 := by
  obtain ⟨d, rfl, ⟨file, _, hinclude⟩ | ⟨_, hsame⟩⟩ := include_ok hs h
  · obtain ⟨_, rfl⟩ | ⟨_, text, m, body, s1, _, hm, hbody, rfl⟩ := includeFile_ok hinclude
    · exact hunits
    · obtain ⟨hbody, hinside⟩ := hfile d file text m body s1 rfl hm (hs.openFile file) hbody
      intro u hu
      rcases mem_insertUnit hu with rfl | hu
      · exact hbody
      · exact hinside u hu
  · rw [hsame]
    exact hunits

/-- What holds of every text that is read and in order holds of all files that are included. `I` is what a
text may count on where it begins: a check keeps it, and it does not depend on the file that is open. -/
theorem units_forall_read
    (hI : ∀ depth first s checked s', (statement (sourcesTo config depth) first).run s = .ok checked s' →
      I s → I s')
    (hopen : ∀ s path, I s → I (s.openFile path))
    (hP : ∀ depth file text (m : Module) s body s', Module.ofText file text = .ok m → Between s → I s →
      (statements (sourcesTo config depth) m.body).run s = .ok body s' → P ⟨m.file, body⟩)
    (depth : Nat) (body : List Stmt) {checked : List Stmt} (hs : Between s)
    (hstart : I s) (hunits : ∀ u ∈ s.units, P u.2)
    (h : (statements (sourcesTo config depth) body).run s = .ok checked s') : ∀ u ∈ s'.units, P u.2 := by
  induction depth using Nat.strong_induction_on generalizing body s s' checked with
  | _ depth ih =>
  induction body generalizing s checked with
  | nil =>
    cases h
    exact hunits
  | cons first rest ihrest =>
    obtain ⟨first', s1, hfirst, h⟩ := run_bind_ok.mp h
    obtain ⟨rest', s2, hrest, h⟩ := run_bind_ok.mp h
    cases h
    refine ihrest (hs.statement hfirst) (hI depth first s first' s1 hfirst hstart) ?_ hrest
    by_cases hinclude : ∃ m path, first = .includeFile m path
    · obtain ⟨mark, path, rfl⟩ := hinclude
      refine include_units (fun d file text m body t' hd hm ht hrun => ?_) hs hunits hfirst
      have hinside := hopen s file hstart
      exact ⟨hP d _ text m _ body t' hm ht hinside hrun, ih d (by omega) m.body ht hinside hunits hrun⟩
    · have hsame : s1.units = s.units :=
        (units_statement config depth first (by simpa using hinclude) s).ok hfirst
      rw [hsame]
      exact hunits

end

/-- What holds of every list of statements that is in order holds of all files that are included. -/
theorem units_forall {P : Module → Prop} (hP : ∀ depth (m : Module) s body s', Between s →
      (statements (sourcesTo config depth) m.body).run s = .ok body s' → P ⟨m.file, body⟩)
    (depth : Nat) (body : List Stmt) {checked : List Stmt} (hs : Between s)
    (hunits : ∀ u ∈ s.units, P u.2)
    (h : (statements (sourcesTo config depth) body).run s = .ok checked s') : ∀ u ∈ s'.units, P u.2 :=
  units_forall_read (I := fun _ => True) (fun _ _ _ _ _ _ => id) (fun _ _ => id)
    (fun depth _ _ m s body s' _ hs _ hrun => hP depth m s body s' hs hrun) depth body hs trivial hunits h

end Check

end Offside
