import Offside.Proofs.Check.Decoration
import Offside.Proofs.Check.IncludeOnce
import Offside.Proofs.Grammar.Lookahead
import Offside.Proofs.Grammar.Files

/-! Where a check finds what it reports.

A check reports what it finds at the beginning of something in the tree: of the program, of a file that it
includes, or of a header. `Check.Cites` says of a part of a check that its report, if it has one, names a
place that is known, and what is known are the places of the texts that were read. The one failure without
a place is that of a bound on the nesting of includes, and no check comes near it
(`Check.statements_bounded`). Together with where reading finds what it reports, this says that all reports
point into texts: `CheckedUnit.ofText_pointsInto`. -/
namespace Offside

open List

variable {file : String}

/-- Failures with a place are faults of a text or of what it means. -/
theorem Failure.ofText_or_semantic {failure : Failure} {l : Location}
    (h : failure.location? = some l) : failure.ofText ∨ ∃ fault, failure = .semantic fault l := by
  cases failure with
  | lexical | layout | grammar => exact .inl rfl
  | semantic fault place =>
    cases h
    exact .inr ⟨fault, rfl⟩
  | unreadable | exhausted | underflow => cases h

namespace Check

variable {V : List Path} {At : Location → Prop} {config : Config} {path : Path} {text : String}

/-- The course of a check whose report, if it has one, names a place that `At` knows when no files but those
of `V` have been included. -/
def Cites (V : List Path) (At : Location → Prop) : Course := fun _ failure s' =>
  ∀ reported ∈ failure, (∀ path ∈ s'.visited, path ∈ V) → reported.PointsTo At

theorem cites_none {s s' : CheckState} : Cites V At s none s' := fun _ h => absurd h (Option.not_mem_none _)

theorem cites_chains : ChainsAt At (Cites V At) where
  refl _ := cites_none
  trans _ h := h
  fail _ _ hplace := by
    rintro _ ⟨⟩ _
    exact hplace

/-! ### Headers and files -/

/-- All places of the texts that a check may read are known: those of the headers, and of the files that
have been included. -/
structure KnowsTexts (config : Config) (V : List Path) (At : Location → Prop) : Prop where
  header : ∀ header ∈ config.headers, ∀ l : Location, l.InText header.name header.source → At l
  file : ∀ path ∈ V, ∀ text, config.files.textAt path = .ok text → ∀ l : Location, l.InText path.text text → At l

/-- A text all of whose places are known reads as something that begins there. -/
theorem anchored_of_inText {m : Module}
    (hAt : ∀ l : Location, l.InText file text → At l) (h : Module.ofText file text = .ok m) :
    Stmt.AnchoredList At m.body := by
  have hwithin := Cursor.ofText_within_inText file text
  refine Module.ofText_anchored ⟨hAt _ hwithin.lastEnd, fun t ht => ?_, hwithin.unended, hwithin.sound⟩ h
  exact ⟨hAt _ (hwithin.tokens t ht).1, hAt _ (hwithin.tokens t ht).2⟩

theorem includeFile_cites {depth : Nat} (hR : RespectsAt At (Cites V At) (sourcesTo config depth))
    (hknown : KnowsTexts config V At) (path : Path) {l : Location} (h : At l) :
    Ends (Cites V At) (Check.includeFile config (sourcesTo config depth) path l) := by
  intro s
  apply endsFrom_of_run
  · exact fun _ _ _ => cites_none
  rintro failure s' hrun _ ⟨⟩ hV
  rw [includeFile_run] at hrun
  by_cases hopen : path ∈ s.openFiles
  · rw [if_pos hopen] at hrun
    cases hrun
    exact .inr ⟨l, rfl, h⟩
  by_cases hvisited : path ∈ s.visited
  · rw [if_neg hopen, if_pos hvisited] at hrun
    cases hrun
  rw [if_neg hopen, if_neg hvisited] at hrun
  cases htext : config.files.textAt path with
  | error fault =>
    rw [htext] at hrun
    cases hrun
    exact .inr ⟨l, rfl, h⟩
  | ok text =>
    rw [htext] at hrun
    dsimp only at hrun
    cases hm : Module.ofText path.text text with
    | error reported =>
      rw [hm] at hrun
      cases hrun
      obtain ⟨place, hplace, hinside⟩ := (Module.ofText_error_inText hm).2
      exact .inr ⟨place, hplace, hknown.file path (hV path mem_cons_self) text htext place hinside⟩
    | ok m =>
      rw [hm] at hrun
      dsimp only at hrun
      cases hbody : (Check.statements (sourcesTo config depth) m.body).run (s.openFile path) with
      | ok body t =>
        rw [hbody] at hrun
        cases hrun
      | error reported t =>
        rw [hbody] at hrun
        cases hrun
        -- What was included while the file was checked has been included by its end.
        have hfiles : Files (s.openFile path) t :=
          (((files_tolerates config).respects depth).statements m.body .any).error hbody
        have hpath : path ∈ V := hV path (hfiles.visited path mem_cons_self)
        have hanchored := anchored_of_inText (hknown.file path hpath text htext) hm
        exact (hR.statements m.body hanchored).error hbody _ rfl hV

theorem cites_respects (hknown : KnowsTexts config V At) (depth : Nat) :
    RespectsAt At (Cites V At) (sourcesTo config depth) := by
  have hbase (depth : Nat)
      (hload : ∀ header ∈ config.headers, Ends (Cites V At) ((sourcesTo config depth).load header))
      (hfollow : ∀ path l, At l → Ends (Cites V At) ((sourcesTo config depth).follow path l)) :
      RespectsAt At (Cites V At) (sourcesTo config depth) := by
    have hadds : AddsAt At (Cites V At) (sourcesTo config depth) :=
      { cites_chains with
        load := fun hmem => hload _ (sourcesTo_headers config depth ▸ hmem)
        add := fun _ => cites_none }
    exact
      { hadds with
        constants := fun _ _ => cites_none
        struct := fun _ _ _ hfields h => hadds.struct (fun _ _ _ => cites_none) _ _ _ hfields h
        secludes := sourcesTo_secludes config depth
        misplaced := fun _ _ l h => by
          rintro _ ⟨⟩ _
          exact .inr ⟨l, rfl, h⟩
        infer := fun _ _ => cites_none
        block := id
        breakable := id
        body := fun _ _ => id
        follow := fun path l s _ h => hfollow path l h s }
  induction depth with
  | zero =>
    refine hbase 0 (fun _ _ _ => ?_) fun _ _ _ _ => ?_ <;>
    · rintro _ ⟨⟩ _
      exact .inl rfl
  | succ depth ih =>
    have hload {header : Header} (hmem : header ∈ config.headers) :
        Ends (Cites V At) (Check.loadHeader (sourcesTo config depth) header) := by
      intro s
      have hAt := hknown.header header hmem
      refine cites_chains.loadHeader hAt (fun m failure s' hm _ hrun => ?_) fun _ _ _ _ _ _ => cites_none
      have hbody : Cites V At s.openHeader failure s' :=
        (ih.statements m.body (anchored_of_inText hAt hm)).error hrun
      exact hbody
    refine hbase (depth + 1) (fun _ hmem => hload hmem) fun path l hl s => ?_
    show EndsFrom (Cites V At) (Check.followInclude config (sourcesTo config depth) path l) s
    unfold Check.followInclude
    rw [endsFrom_get_bind]
    dsimp only
    split
    · exact includeFile_cites ih hknown _ hl s
    · split
      · rename_i hnamed
        exact hload (mem_of_find?_eq_some hnamed) s
      · exact cites_chains.failWith _ _ rfl hl s

/-! ### No check comes near the bound -/

/-- Between the statements of a program or a file, with room for as many more files as are stored, and for
a header in each if there are headers. -/
structure Roomy (config : Config) (depth : Nat) (s : CheckState) : Prop where
  topLevel : s.atTopLevel = true
  outside : s.headerDepth = 0
  furnished : s.Furnished
  distinct : s.openFiles.Nodup
  stored : ∀ p ∈ s.openFiles, p ∈ config.files.nodes.map Prod.fst
  met : ∀ p ∈ s.openFiles, p ∈ s.visited
  room : depthBound config ≤ depth + s.openFiles.length

/-- The course of a check that has room and keeps it. -/
def Bounded (config : Config) (depth : Nat) : Course := fun s failure s' =>
  Roomy config depth s →
    failure ≠ some .exhausted ∧ (failure = none → Roomy config depth s' ∧ s'.openFiles = s.openFiles)

variable {depth : Nat} {s s' : CheckState} {failure : Option Failure}

namespace Roomy

theorem length_lt (h : Roomy config depth s) : config.headers.length < depth := by
  have hfiles := (h.distinct.subperm h.stored).length_le
  have hroom := h.room
  rw [length_map] at hfiles
  unfold depthBound at hroom
  omega

/-- Where there are headers, there is room to read one and what it includes. -/
theorem readsQuietly (h : Roomy config depth s) : ReadsQuietly config depth := by
  intro header hmem
  have hlength := h.length_lt
  have hpositive := length_pos_of_mem hmem
  obtain ⟨d, rfl⟩ := Nat.exists_eq_add_of_le (show 2 ≤ depth by omega)
  rw [Nat.add_comm]
  exact quietly_load config d hmem

/-- What has nothing to do with files keeps the room. -/
theorem quiet (h : Roomy config depth s) (hfurnished : s'.Furnished) (hfiles : SameFiles s s')
    (hplace : Encloses s s') : Roomy config depth s' where
  topLevel := hplace.atTopLevel.trans h.topLevel
  outside := hplace.header.trans h.outside
  furnished := hfurnished
  distinct := hplace.openFiles ▸ h.distinct
  stored := hplace.openFiles ▸ h.stored
  met := by
    rw [hplace.openFiles, hfiles.visited]
    exact h.met
  room := hplace.openFiles ▸ h.room

theorem openFile (h : Roomy config (depth + 1) s) (hopen : path ∉ s.openFiles)
    (htext : config.files.textAt path = .ok text) : Roomy config depth (s.openFile path) where
  topLevel := h.topLevel
  outside := h.outside
  furnished := h.furnished.congr rfl rfl
  distinct := nodup_cons.mpr ⟨hopen, h.distinct⟩
  stored := forall_mem_cons.mpr ⟨FileTree.mem_nodes_of_textAt htext, h.stored⟩
  met := forall_mem_cons.mpr ⟨mem_cons_self, fun p hp => mem_cons_of_mem _ (h.met p hp)⟩
  room := by
    have hroom := h.room
    show _ ≤ depth + (s.openFiles.length + 1)
    omega

theorem closeFile (h : Roomy config (depth + 1) s) (hbody : Roomy config depth s')
    (hopen : s'.openFiles = (s.openFile path).openFiles) (units : List (Path × Module)) :
    Roomy config (depth + 1) { s.closeFile s' with units } where
  topLevel := hbody.topLevel
  outside := hbody.outside
  furnished := hbody.furnished.congr rfl rfl
  distinct := hbody.distinct.tail
  stored p hp := hbody.stored p (mem_of_mem_tail hp)
  met p hp := hbody.met p (mem_of_mem_tail hp)
  room := by
    show _ ≤ depth + 1 + s'.openFiles.tail.length
    rw [hopen]
    exact h.room

end Roomy

theorem bounded_of_quiet (hquiet : Quietly s failure s') (hplace : Encloses s s') :
    Bounded config depth s failure s' := by
  intro hs
  have hquiet := hquiet hs.furnished
  refine ⟨?_, fun _ => ⟨hs.quiet hquiet.furnished hquiet.files hplace, hplace.openFiles⟩⟩
  intro hfailure
  exact Bool.noConfusion (hquiet.plain _ hfailure)

theorem bounded_chains (config : Config) (depth : Nat) : Chains (Bounded config depth) where
  refl _ hs := ⟨(Option.some_ne_none _).symm, fun _ => ⟨hs, rfl⟩⟩
  trans h h' hs := by
    obtain ⟨ht, hopen⟩ := (h hs).2 rfl
    obtain ⟨hfailure, hafter⟩ := h' ht
    exact ⟨hfailure, fun hnone => ⟨(hafter hnone).1, (hafter hnone).2.trans hopen⟩⟩
  fail _ hf _ _ := by
    refine ⟨?_, fun h => absurd h (Option.some_ne_none _)⟩
    rintro ⟨⟩
    cases hf

section

variable (ih : ∀ body, Ends (Bounded config depth) (statements (sourcesTo config depth) body))
include ih

theorem includeFile_bounded {l : Location} :
    Ends (Bounded config (depth + 1)) (includeFile config (sourcesTo config depth) path l) := by
  intro s hs
  have hfault {f : Failure} {s' : CheckState} (hf : f ≠ .exhausted) :
      (some f) ≠ some .exhausted ∧ (some f = none → Roomy config (depth + 1) s' ∧ s'.openFiles = s.openFiles) :=
    ⟨fun h => hf (Option.some.inj h), fun h => absurd h (Option.some_ne_none _)⟩
  unfold failureAfter stateAfter
  rw [includeFile_run]
  by_cases hopen : path ∈ s.openFiles
  · rw [if_pos hopen]
    exact hfault fun h => Failure.noConfusion h
  by_cases hvisited : path ∈ s.visited
  · rw [if_neg hopen, if_pos hvisited]
    exact (bounded_chains config (depth + 1)).refl s hs
  rw [if_neg hopen, if_neg hvisited]
  cases htext : config.files.textAt path with
  | error fault => exact hfault fun h => Failure.noConfusion h
  | ok text =>
    dsimp only
    cases hm : Module.ofText path.text text with
    | error reported =>
      have hkind := Module.ofText_error hm
      refine hfault ?_
      rintro rfl
      cases hkind
    | ok m =>
      have hbody := ih m.body (s.openFile path)
      have hroom := hs.openFile hopen htext
      dsimp only
      cases hrun : (statements (sourcesTo config depth) m.body).run (s.openFile path) with
      | error reported t =>
        refine hfault fun h => ?_
        exact (hbody.error hrun hroom).1 (congrArg some h)
      | ok body t =>
        obtain ⟨ht, hfiles⟩ := (hbody.ok hrun hroom).2 rfl
        exact ⟨(Option.some_ne_none _).symm, fun _ => ⟨hs.closeFile ht hfiles _, congrArg tail hfiles⟩⟩

theorem statement_bounded (line : Stmt) :
    Ends (Bounded config (depth + 1)) (statement (sourcesTo config (depth + 1)) line) := by
  intro s hs
  have hE := (encloses_tolerates config).respects (depth + 1)
  cases hincluded : line.included? with
  | none =>
    have hline (m : Mark) (path : String) : line ≠ .includeFile m path := by
      rintro rfl
      cases hincluded
    exact bounded_of_quiet (quiet_statement hs.readsQuietly line hline s) (hE.statement line .any s) hs
  | some path =>
    obtain ⟨m, rfl⟩ := Stmt.eq_includeFile hincluded
    have hfollow : EndsFrom (Bounded config (depth + 1))
        ((sourcesTo config (depth + 1)).follow path m.span.start) s := by
      apply EndsFrom.congr _ (followFile_run config (sourcesTo config depth) path _ hs.outside)
      cases findInclude config s.directory path with
      | some file => exact includeFile_bounded ih s
      | none =>
        dsimp only
        cases hnamed : Header.named? config.headers path with
        | none => exact (bounded_chains config (depth + 1)).failWith _ _ rfl trivial s
        | some header =>
          have hmem := mem_of_find?_eq_some hnamed
          exact bounded_of_quiet (hs.readsQuietly header hmem s) (hE.load (sourcesTo_headers config _ ▸ hmem) s)
    exact endsFrom_include hs.topLevel hfollow hs

end

/-- Statements never run out of room. -/
theorem statements_bounded (config : Config) (depth : Nat) (body : List Stmt) :
    Ends (Bounded config depth) (statements (sourcesTo config depth) body) := by
  induction depth generalizing body with
  | zero => exact fun s hs => absurd hs.length_lt (Nat.not_lt_zero _)
  | succ depth ih =>
    have hT := bounded_chains config (depth + 1)
    induction body with
    | nil => exact hT.pure _
    | cons line rest ihrest =>
      exact hT.bind (statement_bounded ih line) fun _ => hT.bind ihrest fun _ => hT.pure _

theorem roomy_startState (config : Config) : Roomy config (depthBound config) (CheckedUnit.startState none) where
  topLevel := rfl
  outside := rfl
  furnished := furnished_startState none
  distinct := nodup_nil
  stored := forall_mem_nil _
  met := forall_mem_nil _
  room := Nat.le_add_right _ _

end Check

namespace CheckedUnit

/-- The files that are included, directly or through others, while a text is checked. -/
def includedFiles (config : Config) (file text : String) : List Path := match Module.ofText file text with
  | .error _ => []
  | .ok m => (stateAfter (Check.statements (Check.sources config) m.body) (startState none)).visited

/-- The place is one of the text that is checked, of a file that it includes, or of a header. -/
def InSources (config : Config) (file text : String) (l : Location) : Prop := l.InText file text ∨
  (∃ path ∈ includedFiles config file text, ∃ included, config.files.textAt path = .ok included ∧
    l.InText path.text included) ∨
  ∃ header ∈ config.headers, l.InText header.name header.source

/-- What is reported of a program that can be read. -/
theorem ofModule_pointsTo {config : Config} {text : String} {m : Module} {failure : Failure}
    (hm : Module.ofText file text = .ok m) (h : ofModule config m none = .error failure) :
    ∃ l, failure.location? = some l ∧ InSources config file text l := by
  obtain ⟨s', hrun⟩ := ofModule_error h
  have hvisited : includedFiles config file text = s'.visited := by
    unfold includedFiles stateAfter
    rw [hm]
    dsimp only
    rw [hrun]
  have hknown : Check.KnowsTexts config s'.visited (InSources config file text) := by
    constructor
    · exact fun header hmem l hl => .inr (.inr ⟨header, hmem, hl⟩)
    · intro path hpath included hincluded l hl
      exact .inr (.inl ⟨path, hvisited ▸ hpath, included, hincluded, hl⟩)
  have hanchored : Stmt.AnchoredList (InSources config file text) m.body :=
    Check.anchored_of_inText (fun _ hl => .inl hl) hm
  have hbounded := (Check.statements_bounded config _ m.body _).error hrun (Check.roomy_startState config)
  have hcites := ((Check.cites_respects hknown _).statements m.body hanchored).error hrun
  rcases hcites failure rfl fun _ h => h with rfl | hl
  · exact absurd rfl hbounded.1
  · exact hl

/-- **Reports point into texts.** What is reported of the tokens or the grammar of a text is a fault of the
text, at a place of it. That includes whatever a reader asks of the buffer before the tokens: it answers as
the cursor does, and with no other fault. What is reported of checking the text is a fault of a text or of
what it means, at a place of the text itself, of a file that it includes or of a header. -/
theorem ofText_pointsInto (config : Config) (file text : String) :
    (∀ calls : List Call, Call.answers Call.onBuffer calls (Lookahead.ofText file text) =
        Call.answers Call.onCursor calls (Cursor.ofText file text) ∧
      ∀ failure, .error failure ∈ Call.answers Call.onBuffer calls (Lookahead.ofText file text) →
        failure.ofText = true ∧ ∃ l, failure.location? = some l ∧ l.InText file text) ∧
    (∀ failure, ((TokenStream.ofText file text).toList = .error failure ∨ Module.ofText file text = .error failure) →
      failure.ofText = true ∧ ∃ l, failure.location? = some l ∧ l.InText file text) ∧
    ∀ failure, ofText config file text = .error failure →
      (failure.ofText = true ∨ ∃ fault l, failure = .semantic fault l) ∧
      ∃ l, failure.location? = some l ∧ InSources config file text l := by
  refine ⟨fun calls => ?_, ?_, ?_⟩
  · obtain ⟨hsame, hfault⟩ := Call.answers_ofText file text calls
    exact ⟨hsame, fun failure h => TokenStream.failure_inText (hfault failure h)⟩
  · rintro failure (hcut | hread)
    · apply TokenStream.failure_inText
      unfold TokenStream.toList at hcut
      split at hcut <;> cases hcut
      assumption
    · exact Module.ofText_error_inText hread
  · intro failure h
    unfold ofText at h
    cases hm : Module.ofText file text with
    | error reported =>
      rw [hm] at h
      cases h
      obtain ⟨hkind, l, hl, hinside⟩ := Module.ofText_error_inText hm
      exact ⟨.inl hkind, l, hl, .inl hinside⟩
    | ok m =>
      rw [hm] at h
      obtain ⟨l, hl, hsource⟩ := ofModule_pointsTo hm h
      refine ⟨?_, l, hl, hsource⟩
      rcases Failure.ofText_or_semantic hl with hkind | ⟨fault, hkind⟩
      · exact .inl hkind
      · exact .inr ⟨fault, l, hkind⟩

/-- A file that uses a name which nothing declares. -/
def faultyFile : Config where
  includeDirs := ["."]
  files :=
    { nodes := [(["b.cu"], .file "y = z\n".toUTF8)]
      workingDirectory := [] }

/-- The file that a report names. -/
def reportedFile : Except Failure CheckedUnit → Option String
  | .error failure => failure.location?.map Location.file
  | .ok _ => none

theorem ofText_pointsInto_included : ∃ failure l, ofText faultyFile "a.cu" "include \"b.cu\"\n" = .error failure ∧
      failure.location? = some l ∧ l.file = "/b.cu" ∧
      InSources faultyFile "a.cu" "include \"b.cu\"\n" l := by
  have hfile : reportedFile (ofText faultyFile "a.cu" "include \"b.cu\"\n") = some "/b.cu" := by
    decide +kernel
  cases h : ofText faultyFile "a.cu" "include \"b.cu\"\n" with
  | ok unit =>
    rw [h] at hfile
    cases hfile
  | error failure =>
    obtain ⟨_, l, hl, hsource⟩ := (ofText_pointsInto faultyFile "a.cu" "include \"b.cu\"\n").2.2 failure h
    rw [h, reportedFile, hl] at hfile
    exact ⟨failure, l, rfl, hl, Option.some.inj hfile, hsource⟩

end CheckedUnit

end Offside
