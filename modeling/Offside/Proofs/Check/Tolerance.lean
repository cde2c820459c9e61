import Offside.Proofs.Check.Statements

/-! What programs do to the state of a check.

Headers and files are checked in states of their own. An order on states that holds between the two ends of
these, and of each step of a statement, holds between the two ends of every check, however that ends
(`Tolerates`). -/
namespace Offside

variable {s' : CheckState} {failure : Failure} {l : Location}

namespace CheckState

/-- At the top level of the global scope, in a header. -/
def openHeader (s : CheckState) : CheckState :=
  { s with
    environment := s.environment.takeLocals.2
    function := none
    breakableDepth := 0
    blockDepth := 0
    headerDepth := s.headerDepth + 1 }

/-- Behind a header that was opened in `before`. -/
def closeHeader (before after : CheckState) : CheckState :=
  { after with
    environment := after.environment.restoreLocals before.environment.takeLocals.1
    function := before.function
    breakableDepth := before.breakableDepth
    blockDepth := before.blockDepth
    headerDepth := after.headerDepth - 1 }

/-- Where a file may be read: at the top level, outside headers, and for the first time. -/
structure Admits (s : CheckState) (path : Path) : Prop where
  topLevel : s.atTopLevel = true
  outside : s.headerDepth = 0
  new : path ∉ s.visited

/-- With a file on the list of those that were included at any time. -/
def visit (s : CheckState) (path : Path) : CheckState := { s with visited := path :: s.visited }

/-- In an included file. -/
def openFile (s : CheckState) (path : Path) : CheckState :=
  { s.visit path with
    begun := s.begun ++ [path]
    openFiles := path :: s.openFiles
    directory := some path.parent }

/-- Behind a file that was opened in `before`. -/
def closeFile (before after : CheckState) : CheckState :=
  { after with openFiles := after.openFiles.tail, directory := before.directory }

end CheckState

namespace Check

variable {α β : Type} {At : Location → Prop} {T : Course} {R : CheckState → CheckState → Prop}
    {sources : Sources} {s : CheckState} {config : Config}

/-- An order that checks respect, wherever their declarations come from. -/
structure Tolerates (R : CheckState → CheckState → Prop) (config : Config) : Prop where
  refl (s : CheckState) : R s s
  trans {s t u : CheckState} : R s t → R t u → R s u
  add {s : CheckState} {scope : Scope} : s.scope.Addition scope → R s (s.setScope scope)
  constants (s : CheckState) (constants : Dictionary Int) :
    R s (s.setScope { s.scope with constants })
  struct {sources : Sources} (name : String) (fields : List Field) (l : Location) :
    Adds (Always R) sources → Ends (Always R) (Check.struct sources name fields l)
  infer {s : CheckState} {f : FunctionContext} (type : ValueType) : s.function = some f →
    R s { s with function := some { f with inferred := some type } }
  block {s s' : CheckState} : R { s with blockDepth := s.blockDepth + 1 } s' →
    R s { s' with blockDepth := s'.blockDepth - 1 }
  breakable {s s' : CheckState} : R { s with breakableDepth := s.breakableDepth + 1 } s' →
    R s { s' with breakableDepth := s'.breakableDepth - 1 }
  body {s s' : CheckState} (f : FunctionContext) : s.atTopLevel = true →
    R { s with function := some f, environment := s.environment.enter } s' →
    R s { s' with function := none, environment := s'.environment.exit }
  /-- A header that is not in order, or was read on the way. -/
  header {s s' : CheckState} : R s.openHeader s' → R s (s.closeHeader s')
  /-- A header that is in order. -/
  headerRead {depth : Nat} {header : Header} {m : Module} {body : List Stmt} {s s' : CheckState} :
    header ∈ config.headers → Module.ofText header.name header.source = .ok m →
    (statements (sourcesTo config depth) m.body).run s.openHeader = .ok body s' →
    s'.headers.contains header.name = false → R s.openHeader s' →
    R s { s.closeHeader s' with headers := s'.headers ++ [header.name] }
  /-- A file that cannot be read, or is no text of the language. -/
  visit {s : CheckState} {path : Path} : s.Admits path → R s (s.visit path)
  /-- A file that is not in order. -/
  file {s s' : CheckState} {path : Path} : s.Admits path → R (s.openFile path) s' →
    R s (s.closeFile s')
  /-- A file that is in order. -/
  unit {sources : Sources} {s s' : CheckState} {path : Path} {text : String} {m : Module}
    {body : List Stmt} : s.Admits path → config.files.textAt path = .ok text →
    Module.ofText path.text text = .ok m →
    (statements sources m.body).run (s.openFile path) = .ok body s' →
    R (s.openFile path) s' →
    R s { s.closeFile s' with units := insertUnit path ⟨m.file, body⟩ s'.units }

theorem parsed_ok {file text : String} {m : Module}
    (h : (parsed file text).run s = .ok m s') : Module.ofText file text = .ok m ∧ s' = s := by
  unfold parsed at h
  split at h <;> cases h
  rename_i h
  exact ⟨h, rfl⟩

theorem parsed_run {file text : String} {m : Module} (h : Module.ofText file text = .ok m) (s : CheckState) :
    (parsed file text).run s = .ok m s := by
  unfold parsed
  rw [h]
  rfl

theorem inFile_run (path : Path) (part : Check α) (s : CheckState) : (inFile path part).run (s.visit path) =
      match part.run (s.openFile path) with
      | .ok a s' => .ok a (s.closeFile s')
      | .error failure s' => .error failure (s.closeFile s') := rfl

/-- Including a file, in one equation. -/
theorem includeFile_run (config : Config) (sources : Sources) (path : Path) (l : Location)
    (s : CheckState) :
    (includeFile config sources path l).run s =
      if path ∈ s.openFiles then
        .error (.semantic (.includeCycle (cycleThrough path s.openFiles)) l) s
      else if path ∈ s.visited then .ok () s
      else
        match config.files.textAt path with
        | .error fault => .error (.semantic (.unreadable path fault) l) (s.visit path)
        | .ok text =>
          match Module.ofText path.text text with
          | .error failure => .error failure (s.visit path)
          | .ok m =>
            match (statements sources m.body).run (s.openFile path) with
            | .error failure s' => .error failure (s.closeFile s')
            | .ok body s' =>
              .ok () { s.closeFile s' with units := insertUnit path ⟨m.file, body⟩ s'.units } := by
  show (do
    require (!s.openFiles.contains path) (.includeCycle (cycleThrough path s.openFiles)) l
    if !s.visited.contains path then
      set (s.visit path)
      match config.files.textAt path with
      | .error fault => fail (.unreadable path fault) l
      | .ok text =>
        let m ← parsed path.text text
        let body ← inFile path (statements sources m.body)
        modify fun s => { s with units := insertUnit path ⟨m.file, body⟩ s.units }
    : Check Unit).run s = _
  by_cases hopen : path ∈ s.openFiles
  · rw [if_pos hopen, List.contains_iff_mem.mpr hopen]
    rfl
  rw [if_neg hopen, show s.openFiles.contains path = false by simpa using hopen]
  by_cases hvisited : path ∈ s.visited
  · rw [if_pos hvisited, List.contains_iff_mem.mpr hvisited]
    rfl
  rw [if_neg hvisited, show s.visited.contains path = false by simpa using hvisited]
  show (match config.files.textAt path with
    | .error fault => fail (.unreadable path fault) l
    | .ok text => do
      let m ← parsed path.text text
      let body ← inFile path (statements sources m.body)
      modify fun s => { s with units := insertUnit path ⟨m.file, body⟩ s.units }
    : Check Unit).run (s.visit path) = _
  cases config.files.textAt path with
  | error fault => rfl
  | ok text =>
    dsimp only [parsed]
    cases Module.ofText path.text text with
    | error failure => rfl
    | ok m =>
      show (inFile path (statements sources m.body) >>= _ : Check Unit).run (s.visit path) = _
      rw [EStateM.run_bind, inFile_run]
      dsimp only
      cases (statements sources m.body).run (s.openFile path) <;> rfl

theorem inHeader_run (part : Check α) (s : CheckState) : (inHeader part).run s = match part.run s.openHeader with
      | .ok a s' => .ok a (s.closeHeader s')
      | .error failure s' => .error failure (s.closeHeader s') := rfl

/-- Reading a header, given how its statements end. -/
theorem ChainsAt.loadHeader (hT : ChainsAt At T) {header : Header}
    (htext : ∀ l : Location, l.InText header.name header.source → At l)
    (hfail : ∀ m failure s', Module.ofText header.name header.source = .ok m →
      s.headers.contains header.name = false →
      (statements sources m.body).run s.openHeader = .error failure s' →
      T s (some failure) (s.closeHeader s'))
    (hread : ∀ m body s', Module.ofText header.name header.source = .ok m →
      s.headers.contains header.name = false →
      (statements sources m.body).run s.openHeader = .ok body s' →
      T s none (if s'.headers.contains header.name then s.closeHeader s'
        else { s.closeHeader s' with headers := s'.headers ++ [header.name] })) :
    EndsFrom T (Check.loadHeader sources header) s := by
  unfold Check.loadHeader
  rw [endsFrom_get_bind]
  split
  · rename_i hnew
    have hnew : s.headers.contains header.name = false := by simpa using hnew
    refine hT.seq (hT.parsed _ _ htext s) fun m s1 hparsed => ?_
    obtain ⟨hm, rfl⟩ := parsed_ok hparsed
    apply endsFrom_of_run
    · intro a s2 hrun
      obtain ⟨body, s3, hbody, hrun⟩ := run_bind_ok.mp hrun
      rw [inHeader_run] at hbody
      cases hstatements : (statements sources m.body).run s1.openHeader with
      | error failure s' =>
        rw [hstatements] at hbody
        cases hbody
      | ok body' s' =>
        rw [hstatements] at hbody
        cases hbody
        cases hrun
        exact hread m body s' hm hnew hstatements
    · intro failure s2 hrun
      rw [EStateM.run_bind, inHeader_run] at hrun
      cases hstatements : (statements sources m.body).run s1.openHeader with
      | error failure' s' =>
        rw [hstatements] at hrun
        cases hrun
        exact hfail m failure s' hm hnew hstatements
      | ok body' s' =>
        rw [hstatements] at hrun
        cases hrun
  · exact hT.pure _ s

theorem sourcesTo_headers (config : Config) (depth : Nat) : (sourcesTo config depth).headers = config.headers := by
  cases depth <;> rfl

theorem sourcesTo_secludes (config : Config) (depth : Nat) : Secludes (sourcesTo config depth) where
  load _ := by
    intro s
    cases depth with
    | zero => exact ⟨rfl, rfl⟩
    | succ depth =>
      refine SamePlace.chains.loadHeader (fun _ _ => trivial) (fun _ _ _ _ _ _ => ⟨rfl, rfl⟩) fun _ _ s' _ _ _ => ?_
      show SamePlace s (if _ then _ else _)
      split <;> exact ⟨rfl, rfl⟩

namespace Tolerates

variable (hR : Tolerates R config)
include hR

theorem chains : Chains (Always R) := .ofOrder hR.refl hR.trans

theorem loadHeader {depth : Nat} (hs : Respects (Always R) (sourcesTo config depth)) {header : Header}
    (hmem : header ∈ config.headers) : Ends (Always R) (Check.loadHeader (sourcesTo config depth) header) := by
  intro s
  have hbody (m : Module) := hs.statements m.body .any s.openHeader
  refine hR.chains.loadHeader (fun _ _ => trivial) (fun m _ _ _ _ hrun => hR.header ((hbody m).error hrun)) ?_
  intro m body s' hm _ hrun
  have hbody := (hbody m).ok hrun
  show R s (if _ then _ else _)
  split
  · exact hR.header hbody
  · rename_i hnew
    exact hR.headerRead hmem hm hrun (by simpa using hnew) hbody

theorem includeFile (hs : Respects (Always R) sources) (path : Path) (l : Location) {s : CheckState}
    (htop : s.atTopLevel) (hdepth : s.headerDepth = 0) :
    EndsFrom (Always R) (Check.includeFile config sources path l) s := by
  show R s (stateAfter (Check.includeFile config sources path l) s)
  rw [stateAfter, includeFile_run]
  by_cases hopen : path ∈ s.openFiles
  · rw [if_pos hopen]
    exact hR.refl s
  by_cases hvisited : path ∈ s.visited
  · rw [if_neg hopen, if_pos hvisited]
    exact hR.refl s
  rw [if_neg hopen, if_neg hvisited]
  have hadmits : s.Admits path := ⟨htop, hdepth, hvisited⟩
  cases htext : config.files.textAt path with
  | error fault => exact hR.visit hadmits
  | ok text =>
    dsimp only
    cases hm : Module.ofText path.text text with
    | error failure => exact hR.visit hadmits
    | ok m =>
      have hbody := hs.statements m.body .any (s.openFile path)
      dsimp only
      cases hrun : (statements sources m.body).run (s.openFile path) with
      | error failure s' => exact hR.file hadmits (hbody.error hrun)
      | ok body s' => exact hR.unit hadmits htext hm hrun (hbody.ok hrun)

theorem followInclude {depth : Nat} (hs : Respects (Always R) (sourcesTo config depth))
    (path : String) (l : Location) (htop : s.atTopLevel) :
    EndsFrom (Always R) (Check.followInclude config (sourcesTo config depth) path l) s := by
  unfold Check.followInclude
  rw [endsFrom_get_bind]
  dsimp only
  split
  · rename_i file hfile
    split at hfile
    · rename_i hdepth
      exact hR.includeFile hs file l htop hdepth
    · cases hfile
  · split
    · rename_i header hheader
      exact hR.loadHeader hs (List.mem_of_find?_eq_some hheader) s
    · exact hR.refl s

theorem respects (depth : Nat) : Respects (Always R) (sourcesTo config depth) := by
  have hbase (sources : Sources) (hsecludes : Secludes sources)
      (hload : ∀ header ∈ sources.headers, Ends (Always R) (sources.load header))
      (hfollow : ∀ path l s, s.atTopLevel → EndsFrom (Always R) (sources.follow path l) s) :
      Respects (Always R) sources := by
    have hadds : Adds (Always R) sources :=
      { hR.chains with load := fun h => hload _ h, add := hR.add }
    exact
      { hadds with
        constants := hR.constants
        struct := fun name fields l _ _ => hR.struct name fields l hadds
        secludes := hsecludes
        misplaced := fun s _ _ _ => hR.refl s
        infer := hR.infer
        block := hR.block
        breakable := hR.breakable
        body := hR.body
        follow := fun path l s htop _ => hfollow path l s htop }
  induction depth with
  | zero =>
    exact hbase _ (sourcesTo_secludes config 0) (fun _ _ s => hR.refl s) fun _ _ s _ => hR.refl s
  | succ depth ih =>
    refine hbase _ (sourcesTo_secludes config (depth + 1)) (fun header hmem => ?_)
      fun path l s htop => hR.followInclude ih path l htop
    exact hR.loadHeader ih hmem

/-- However a program's check ends, the order holds between its start and its end. -/
theorem program (body : List Stmt) (s : CheckState) :
    R s (stateAfter (Check.statements (Check.sources config) body) s) :=
  (hR.respects (depthBound config)).statements body .any s

end Tolerates

end Check

end Offside
