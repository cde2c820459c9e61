import Mathlib.Data.List.Chain
import Mathlib.Logic.Relation
import Offside.Proofs.Check.Transparency

/-! The walk through included files.

A program in a file and the files around it form a graph (`Project.Includes`), and checking the program
walks through it depth first. The files that are open are a path of the graph, the ones that are finished
include finished ones only, and no other file has been met (`Project.Walked`). Statements that include
nothing leave all this as it is (`quiet_statement`). -/
namespace Offside

open List

/-- The two states know the same files. Which of them are open is part of the place (`Situated`). -/
structure SameFiles (s s' : CheckState) : Prop where
  units : s'.units = s.units
  visited : s'.visited = s.visited

namespace SameFiles

theorem refl (s : CheckState) : SameFiles s s := ⟨rfl, rfl⟩

theorem trans {s t u : CheckState} (h : SameFiles s t) (h' : SameFiles t u) : SameFiles s u where
  units := h'.units.trans h.units
  visited := h'.visited.trans h.visited

end SameFiles

/-- Inside a function or a block. -/
def CheckState.Inside (s : CheckState) : Prop := s.function.isSome = true ∨ s.blockDepth ≠ 0

namespace Check

variable {config : Config} {s s' t t' : CheckState} {failure : Option Failure}

/-! ### Statements that include nothing -/

/-- A course that has nothing to do with files: none is added, and no failure is about their nesting. -/
structure Quiet (s : CheckState) (failure : Option Failure) (s' : CheckState) : Prop where
  furnished : s'.Furnished
  files : SameFiles s s'
  plain : ∀ f, failure = some f → f.nests = false

namespace Quiet

theorem refl (hs : s.Furnished) : Quiet s none s := ⟨hs, .refl s, fun _ h => (nomatch h)⟩

theorem fail {f : Failure} (hs : s.Furnished) (hf : f.nests = false) : Quiet s (some f) s := by
  refine ⟨hs, .refl s, ?_⟩
  rintro _ ⟨⟩
  exact hf

theorem trans (h : Quiet s none t) (h' : Quiet t failure s') : Quiet s failure s' :=
  ⟨h'.furnished, h.files.trans h'.files, h'.plain⟩

theorem ofHeader (h : HeaderEffect True s failure s') : Quiet s failure s' := by
  refine ⟨h.furnished, ?_, h.plain trivial⟩
  rw [h.others]
  exact ⟨rfl, rfl⟩

end Quiet

/-- A course that is quiet from a furnished state. -/
def Quietly : Course := fun s failure s' => s.Furnished → Quiet s failure s'

/-- The course of what functions and blocks hold. -/
def QuietInside : Course := fun s failure s' =>
  Encloses s s' ∧ (s.Inside → Quietly s failure s')

theorem quietly_chains : Chains Quietly where
  refl _ hs := .refl hs
  trans h h' hs := (h hs).trans (h' (h hs).furnished)
  fail _ hf _ hs := .fail hs (Failure.nests_of_isCommon hf)

/-- Headers are read quietly, if there is room for the ones that they include. -/
theorem quietly_load (config : Config) (depth : Nat) {header : Header} (hmem : header ∈ config.headers) :
    Ends Quietly ((sourcesTo config (depth + 2)).load header) := by
  intro s hs
  have heffect := load_reads config (depth + 1) (config.mem_standard hmem) s hs
  exact .ofHeader { heffect with plain := fun _ => heffect.plain (Nat.succ_pos depth) }

theorem quietly_setScope (s : CheckState) {scope : Scope} (hrooted : s.scope.Rooted → scope.Rooted)
    (hscope : s.scope.CoveredBy scope) : Quietly s none (s.setScope scope) :=
  fun hs => ⟨furnished_setScope hs hrooted hscope, ⟨rfl, rfl⟩, fun _ h => (nomatch h)⟩

/-- The headers that a program may use are all read quietly. -/
def ReadsQuietly (config : Config) (depth : Nat) : Prop :=
  ∀ header ∈ config.headers, Ends Quietly ((sourcesTo config depth).load header)

theorem readsQuietly (config : Config) (depth : Nat) : ReadsQuietly config (depth + 2) :=
  fun _ hmem => quietly_load config depth hmem

theorem quietly_declares {depth : Nat} (hreads : ReadsQuietly config depth) :
    Declares Quietly (sourcesTo config depth) :=
  have hadds : Adds Quietly (sourcesTo config depth) :=
    { quietly_chains with
      load := fun hmem => hreads _ (sourcesTo_headers config _ ▸ hmem)
      add := fun h => quietly_setScope _ (fun hrooted => (hrooted.addition h).1) h.coveredBy }
  { hadds with
    constants := fun s _ => quietly_setScope s id { Scope.CoveredBy.refl _ with }
    struct := hadds.struct fun s _ _ => quietly_setScope s id (coveredBy_complete _ _ _) }

/-- Entering and leaving a part that is quiet. -/
theorem Quietly.around (h : Quietly t failure t') (hin : SameFiles s t ∧ (s.Furnished → t.Furnished))
    (hout : SameFiles t' s' ∧ (t'.Furnished → s'.Furnished)) : Quietly s failure s' := by
  intro hs
  have hquiet := h (hin.2 hs)
  exact ⟨hout.2 hquiet.furnished, (hin.1.trans hquiet.files).trans hout.1, hquiet.plain⟩

/-- Blocks and functions keep the files and the global scope in view. -/
theorem inside_block (h : QuietInside { s with blockDepth := s.blockDepth + 1 } failure s') :
    Quietly s failure { s' with blockDepth := s'.blockDepth - 1 } :=
  (h.2 (.inr (Nat.succ_ne_zero _))).around ⟨⟨rfl, rfl⟩, fun hs => hs.congr rfl rfl⟩
    ⟨⟨rfl, rfl⟩, fun hs => hs.congr rfl rfl⟩

theorem inside_body {f : FunctionContext}
    (h : QuietInside { s with function := some f, environment := s.environment.enter } failure s') :
    Quietly s failure { s' with function := none, environment := s'.environment.exit } :=
  (h.2 (.inl rfl)).around ⟨⟨rfl, rfl⟩, fun hs => hs.congr rfl rfl⟩
    ⟨⟨rfl, rfl⟩, fun hs => hs.congr rfl rfl⟩

theorem quietly_breakable (h : Quietly { s with breakableDepth := s.breakableDepth + 1 } failure s') :
    Quietly s failure { s' with breakableDepth := s'.breakableDepth - 1 } :=
  h.around ⟨⟨rfl, rfl⟩, fun hs => hs.congr rfl rfl⟩
    ⟨⟨rfl, rfl⟩, fun hs => hs.congr rfl rfl⟩

theorem not_inside_of_atTopLevel (h : s.atTopLevel) : ¬ s.Inside := by
  simp only [CheckState.atTopLevel, Bool.and_eq_true, beq_iff_eq] at h
  rintro (hf | hb)
  · cases hs : s.function <;> simp_all
  · exact hb h.2

theorem quietInside_respects {depth : Nat} (hreads : ReadsQuietly config depth) :
    Respects QuietInside (sourcesTo config depth) := by
  have hE := encloses_tolerates config
  have hT := hE.respects depth
  have hQ := quietly_declares hreads
  have hinside {s t : CheckState} (h : Encloses s t) (hs : s.Inside) : t.Inside := by
    unfold CheckState.Inside at hs ⊢
    rwa [h.inFunction, h.block]
  exact
    { refl := fun s => ⟨hE.refl s, fun _ => hQ.refl s⟩
      trans := fun h h' =>
        ⟨hE.trans h.1 h'.1, fun hs => hQ.trans (h.2 hs) (h'.2 (hinside h.1 hs))⟩
      fail := fun s hf hl => ⟨hE.refl s, fun _ => hQ.fail s hf hl⟩
      load := fun hmem s => ⟨hT.load hmem s, fun _ => hQ.load hmem s⟩
      add := fun h => ⟨hE.add h, fun _ => hQ.add h⟩
      constants := fun s constants => ⟨hE.constants s constants, fun _ => hQ.constants s constants⟩
      struct := fun name fields l hf hl s =>
        ⟨hT.struct name fields l hf hl s, fun _ => hQ.struct name fields l hf hl s⟩
      secludes := hT.secludes
      misplaced := fun s _ _ _ => ⟨hE.refl s, fun _ hs => .fail hs rfl⟩
      infer := fun type hf => ⟨hE.infer type hf, fun _ => (hQ.refl _).around ⟨.refl _, id⟩
        ⟨⟨rfl, rfl⟩, fun hs => hs.congr rfl rfl⟩⟩
      block := fun h => ⟨hE.block h.1, fun _ => inside_block h⟩
      breakable := fun h => ⟨hE.breakable h.1, fun hs => quietly_breakable (h.2 hs)⟩
      body := fun f htop h => ⟨hE.body f htop h.1, fun _ => inside_body h⟩
      follow := fun path l s htop _ =>
        ⟨hT.follow path l htop trivial, fun hs => absurd hs (not_inside_of_atTopLevel htop)⟩ }

/-- Statements other than includes. -/
theorem quiet_statement {depth : Nat} (hreads : ReadsQuietly config depth) (line : Stmt)
    (hline : ∀ m path, line ≠ .includeFile m path) :
    Ends Quietly (statement (sourcesTo config depth) line) := by
  have hshelters : Shelters Quietly QuietInside (sourcesTo config depth) :=
    { outside := quietly_declares hreads
      inside := quietInside_respects hreads
      misplaced := fun _ _ _ hs => .fail hs rfl
      block := inside_block
      breakable := quietly_breakable
      body := fun _ => inside_body
      result := fun hf h => h.2 (.inl (by rw [hf]; rfl)) }
  exact hshelters.statement line hline

/-- An include at the top level ends as following it does. -/
theorem endsFrom_include {T : Course} {sources : Sources} {m : Mark} {path : String}
    (htop : s.atTopLevel) (h : EndsFrom T (sources.follow path m.span.start) s) :
    EndsFrom T (statement sources (.includeFile m path)) s := by
  have hrun : (statement sources (.includeFile m path)).run s =
      (do sources.follow path m.span.start; return .includeFile m path : Check Stmt).run s := by
    show (do
      require s.atTopLevel (.misplaced .includeFile) m.span.start
      sources.follow path m.span.start
      return .includeFile m path : Check Stmt).run s = _
    rw [htop]
    rfl
  apply EndsFrom.congr _ hrun
  unfold EndsFrom failureAfter stateAfter at h ⊢
  rw [EStateM.run_bind]
  cases hfollow : (sources.follow path m.span.start).run s <;> rw [hfollow] at h <;> exact h

/-- Outside headers, files are searched first. -/
theorem followFile_run (config : Config) (sources : Sources) (path : String) (l : Location)
    (hdepth : s.headerDepth = 0) :
    (followInclude config sources path l).run s =
      (match findInclude config s.directory path with
      | some file => includeFile config sources file l
      | none =>
        match Header.named? config.headers path with
        | some header => loadHeader sources header
        | none => fail (.includeMissing path) l : Check Unit).run s := by
  exact congrArg (fun file => EStateM.run (match file with
    | some file => includeFile config sources file l
    | none =>
      match Header.named? config.headers path with
      | some header => loadHeader sources header
      | none => fail (.includeMissing path) l) s) (if_pos hdepth)

theorem mem_keys_insertUnit (path : Path) (m : Module) (units : List (Path × Module)) (p : Path) :
    p ∈ (insertUnit path m units).map Prod.fst ↔ p = path ∨ p ∈ units.map Prod.fst := by
  constructor
  · intro h
    obtain ⟨u, hu, rfl⟩ := mem_map.mp h
    rcases mem_insertUnit hu with rfl | hu
    · exact .inl rfl
    · exact .inr (mem_map_of_mem hu)
  · intro h
    by_cases hp : p = path
    · rw [hp]
      exact mem_map_of_mem (f := Prod.fst) (mem_insertUnit_self path m units)
    · obtain ⟨u, hu, rfl⟩ := mem_map.mp (h.resolve_left hp)
      exact mem_map_of_mem (mem_insertUnit_of_ne m hu hp)

end Check

/-- A file that can be read is stored. -/
theorem FileTree.mem_nodes_of_textAt {files : FileTree} {p : Path} {text : String}
    (h : files.textAt p = .ok text) : p ∈ files.nodes.map Prod.fst := by
  unfold textAt node? at h
  split at h
  · cases h
  · cases h
  · rename_i bytes hnode
    split at hnode
    · rename_i n hfound
      have hname : n.1 = p := by simpa using find?_some hfound
      exact hname ▸ mem_map_of_mem (mem_of_find?_eq_some hfound)
    · split at hnode <;> cases hnode

theorem eq_takeWhile_append {q : Path} {files : List Path} (h : q ∈ files) :
    ∃ further, files = files.takeWhile (· != q) ++ q :: further := by
  induction files with
  | nil => cases h
  | cons p rest ih =>
    by_cases hp : p = q
    · exact ⟨rest, by simp [hp]⟩
    · obtain ⟨further, hrest⟩ := ih ((mem_cons.mp h).resolve_left (Ne.symm hp))
      refine ⟨further, ?_⟩
      rw [takeWhile_cons_of_pos (by simpa using hp), cons_append, ← hrest]

/-! ### The graph of includes -/

/-- A program in a file, with the files around it. -/
structure Project where
  config : Config
  main : Path
  module : Module

namespace Project

variable (g : Project)

/-- The statements of a file. -/
def body? (p : Path) : Option (List Stmt) := if p = g.main then some g.module.body
  else
    match g.config.files.textAt p with
    | .error _ => none
    | .ok text =>
      match Module.ofText p.text text with
      | .error _ => none
      | .ok m => some m.body

/-- Whether the first file has an include that means the second. Includes stand at the top level of a
file; a check refuses all others. -/
def Includes (p q : Path) : Prop :=
  ∃ body path, g.body? p = some body ∧ path ∈ body.filterMap Stmt.included? ∧
    Check.findInclude g.config (some p.parent) path = some q

/-- A path of the graph that ends in the file that it begins with. -/
structure IsCycle (chain : List Path) : Prop where
  path : chain.IsChain g.Includes
  closed : ∃ file between, chain = file :: between ++ [file]

/-- How far a walk has come: the files that are open, innermost first, those met at any time, and those
that are finished. -/
structure Walked (openFiles visited finished : List Path) : Prop where
  chain : openFiles.IsChain fun q p => g.Includes p q
  distinct : openFiles.Nodup
  stored : ∀ p ∈ openFiles, p ∈ g.config.files.nodes.map Prod.fst
  main : g.main ∈ openFiles
  met : ∀ p, p ∈ visited ↔ p ∈ openFiles ∨ p ∈ finished
  apart : ∀ p ∈ finished, p ∉ openFiles
  reached : ∀ p ∈ visited, Relation.ReflTransGen g.Includes g.main p
  closed : ∀ p ∈ finished, ∀ q, g.Includes p q → q ∈ finished
  /-- No path from a finished file goes on for ever. -/
  ended : ∀ p ∈ finished, Acc (fun q p => g.Includes p q) p

namespace Walked

variable {g} {p q : Path} {openFiles visited finished finished' : List Path}

/-- Files that are open are no more than those stored. -/
theorem length_le (h : g.Walked openFiles visited finished) : openFiles.length ≤ g.config.files.nodes.length := by
  have hsub := (h.distinct.subperm h.stored).length_le
  rwa [length_map] at hsub

theorem openFile (h : g.Walked (p :: openFiles) visited finished) (hedge : g.Includes p q)
    (hnew : q ∉ visited) (hstored : q ∈ g.config.files.nodes.map Prod.fst) :
    g.Walked (q :: p :: openFiles) (q :: visited) finished where
  chain := h.chain.cons_cons hedge
  distinct := nodup_cons.mpr ⟨fun hq => hnew ((h.met q).mpr (.inl hq)), h.distinct⟩
  stored := forall_mem_cons.mpr ⟨hstored, h.stored⟩
  main := mem_cons_of_mem _ h.main
  met r := by rw [mem_cons, h.met r, mem_cons (a := r) (b := q), or_assoc]
  apart r hr hq := by
    rcases mem_cons.mp hq with rfl | hq
    · exact hnew ((h.met r).mpr (.inr hr))
    · exact h.apart r hr hq
  reached := by
    have hp : p ∈ visited := (h.met p).mpr (.inl mem_cons_self)
    exact forall_mem_cons.mpr ⟨(h.reached p hp).tail hedge, h.reached⟩
  closed := h.closed
  ended := h.ended

/-- A file all of whose includes are finished. -/
theorem closeFile (h : g.Walked (q :: openFiles) visited finished) (hmain : g.main ∈ openFiles)
    (hincluded : ∀ r, g.Includes q r → r ∈ finished)
    (hfinished : ∀ r, r ∈ finished' ↔ r = q ∨ r ∈ finished) : g.Walked openFiles visited finished' where
  chain := h.chain.tail
  distinct := (nodup_cons.mp h.distinct).2
  stored := (forall_mem_cons.mp h.stored).2
  main := hmain
  met r := by rw [h.met r, hfinished, mem_cons, or_assoc, or_left_comm]
  apart r hr := by
    rcases (hfinished r).mp hr with rfl | hr
    · exact (nodup_cons.mp h.distinct).1
    · exact fun hopen => h.apart r hr (mem_cons_of_mem _ hopen)
  reached := h.reached
  closed r hr x hx := by
    rcases (hfinished r).mp hr with rfl | hr
    · exact (hfinished x).mpr (.inr (hincluded x hx))
    · exact (hfinished x).mpr (.inr (h.closed r hr x hx))
  ended r hr := by
    rcases (hfinished r).mp hr with rfl | hr
    · exact Acc.intro r fun x hx => h.ended x (hincluded x hx)
    · exact h.ended r hr

/-- An include of a file that is open closes a cycle. -/
theorem isCycle (h : g.Walked (p :: openFiles) visited finished) (hedge : g.Includes p q)
    (hopen : q ∈ p :: openFiles) : g.IsCycle (Check.cycleThrough q (p :: openFiles)) := by
  obtain ⟨further, hsplit⟩ := eq_takeWhile_append hopen
  unfold Check.cycleThrough
  generalize (p :: openFiles).takeWhile (· != q) = inner at hsplit ⊢
  refine ⟨?_, q, inner.reverse, rfl⟩
  -- From `q` inwards to `p`, which includes `q`.
  have hchain : (inner ++ [q]).IsChain fun q p => g.Includes p q := by
    have hall := h.chain
    rw [hsplit, append_cons] at hall
    exact hall.left_of_append
  have hhead : (inner ++ [q]).head? = some p := by
    have hp : (inner ++ [q] ++ further).head? = some p := by
      rw [append_assoc, singleton_append, ← hsplit]
      rfl
    rwa [head?_append_of_ne_nil _ (by simp)] at hp
  have hinwards : (q :: inner.reverse).IsChain g.Includes := by
    have := isChain_reverse.mpr hchain
    rwa [reverse_append] at this
  refine isChain_append.mpr ⟨hinwards, isChain_singleton q, ?_⟩
  intro x hx y hy
  have hlast : (q :: inner.reverse).getLast? = some p := by
    rw [← hhead, ← getLast?_reverse, reverse_append]
    rfl
  obtain rfl : p = x := by simpa [hlast] using hx
  obtain rfl : q = y := by simpa using hy
  exact hedge

end Walked

/-! ### The walk -/

open Check

/-- Between the statements of a file, with room for as many more files as are stored. -/
structure At (depth : Nat) (p : Path) (s : CheckState) : Prop where
  topLevel : s.atTopLevel = true
  outside : s.headerDepth = 0
  furnished : s.Furnished
  directory : s.directory = some p.parent
  current : ∃ others, s.openFiles = p :: others
  walked : g.Walked s.openFiles s.visited (s.units.map Prod.fst)
  room : g.config.files.nodes.length + 2 ≤ depth + s.openFiles.length

/-- Includes of a file lead from it. -/
def Leads (p : Path) (body : List Stmt) : Prop :=
  ∀ path ∈ body.filterMap Stmt.included?, ∀ q, findInclude g.config (some p.parent) path = some q → g.Includes p q

/-- A failure that is not about a bound, and that reports a cycle only if there is one. -/
structure Blames (failure : Failure) : Prop where
  bounded : failure ≠ .exhausted
  cycle : ∀ chain l, failure = .semantic (.includeCycle chain) l → g.IsCycle chain

/-- Behind statements of a file: the same files are open, and those included are finished. -/
structure Advances (depth : Nat) (p : Path) (body : List Stmt) (s s' : CheckState) : Prop where
  place : g.At depth p s'
  openFiles : s'.openFiles = s.openFiles
  keeps : ∀ q ∈ s.units.map Prod.fst, q ∈ s'.units.map Prod.fst
  included : ∀ path ∈ body.filterMap Stmt.included?, ∀ q,
    findInclude g.config (some p.parent) path = some q → q ∈ s'.units.map Prod.fst

/-- The course of a walk through statements of a file. -/
structure Walks (depth : Nat) (p : Path) (body : List Stmt) (s : CheckState) (failure : Option Failure)
    (s' : CheckState) : Prop where
  blames : ∀ f, failure = some f → g.Blames f
  advances : failure = none → g.Advances depth p body s s'

variable {g} {depth : Nat} {p q : Path} {body rest : List Stmt} {line : Stmt} {s s' t : CheckState}
  {failure : Option Failure}

theorem blames_of_plain {failure : Failure} (h : failure.nests = false) : g.Blames failure := by
  constructor
  · rintro rfl
    cases h
  · rintro chain l rfl
    cases h

namespace At

/-- There is always room for one more file and a header in it. -/
theorem two_le_depth (h : g.At depth p s) : 2 ≤ depth := by
  have := h.room
  have := h.walked.length_le
  omega

theorem quiet (h : g.At depth p s) (hfurnished : s'.Furnished) (hfiles : SameFiles s s')
    (hplace : Encloses s s') : g.At depth p s' where
  topLevel := hplace.atTopLevel.trans h.topLevel
  outside := hplace.header.trans h.outside
  furnished := hfurnished
  directory := hplace.directory.trans h.directory
  current := hplace.openFiles ▸ h.current
  walked := by
    rw [hplace.openFiles, hfiles.visited, hfiles.units]
    exact h.walked
  room := hplace.openFiles ▸ h.room

end At

/-- A quiet part of a file that includes no file. -/
theorem walks_of_quiet (hs : g.At depth p s) (hquiet : Quiet s failure s') (hplace : Encloses s s')
    (hnone : ∀ path ∈ body.filterMap Stmt.included?, findInclude g.config (some p.parent) path = none) :
    g.Walks depth p body s failure s' where
  blames f hf := blames_of_plain (hquiet.plain f hf)
  advances _ :=
    { place := hs.quiet hquiet.furnished hquiet.files hplace
      openFiles := hplace.openFiles
      keeps := fun q hq => hquiet.files.units ▸ hq
      included := fun path hpath q hq => by
        rw [hnone path hpath] at hq
        cases hq }

theorem walks_nil (hs : g.At depth p s) : g.Walks depth p [] s none s :=
  walks_of_quiet hs (.refl hs.furnished) (.refl s) nofun

theorem Walks.fail {f : Failure} (hf : g.Blames f) : g.Walks depth p body s (some f) s' := by
  refine ⟨?_, fun h => (nomatch h)⟩
  rintro _ ⟨⟩
  exact hf

theorem Advances.walks (h : g.Advances depth p body s s') : g.Walks depth p body s none s' :=
  ⟨fun _ h => (nomatch h), fun _ => h⟩

theorem Walks.trans (h : g.Walks depth p [line] s none t) (h' : g.Walks depth p rest t failure s') :
    g.Walks depth p (line :: rest) s failure s' where
  blames := h'.blames
  advances hnone := by
    have hfirst := h.advances rfl
    have hrest := h'.advances hnone
    refine ⟨hrest.place, hrest.openFiles.trans hfirst.openFiles, ?_, ?_⟩
    · exact fun q hq => hrest.keeps q (hfirst.keeps q hq)
    · intro path hpath q hq
      rw [← singleton_append, filterMap_append, mem_append] at hpath
      rcases hpath with hpath | hpath
      · exact hrest.keeps q (hfirst.included path hpath q hq)
      · exact hrest.included path hpath q hq

/-! ### Including a file -/

section

variable {d : Nat} {text : String} {m : Module}

theorem body?_of_text (hmain : q ≠ g.main) (htext : g.config.files.textAt q = .ok text)
    (hm : Module.ofText q.text text = .ok m) : g.body? q = some m.body := by
  unfold body?
  rw [if_neg hmain, htext]
  dsimp only
  rw [hm]

theorem leads_of_body? (h : g.body? q = some body) : g.Leads q body :=
  fun path hpath _ hfind => ⟨body, path, h, hpath, hfind⟩

theorem At.openFile (h : g.At (d + 1) p s) (hedge : g.Includes p q) (hnew : q ∉ s.visited)
    (htext : g.config.files.textAt q = .ok text) : g.At d q (s.openFile q) := by
  obtain ⟨others, hothers⟩ := h.current
  have hwalked := h.walked
  have hroom := h.room
  rw [hothers] at hwalked
  refine ⟨h.topLevel, h.outside, h.furnished.congr rfl rfl, rfl, ⟨s.openFiles, rfl⟩, ?_, ?_⟩
  · show g.Walked (q :: s.openFiles) (q :: s.visited) _
    rw [hothers]
    exact hwalked.openFile hedge hnew (FileTree.mem_nodes_of_textAt htext)
  · show _ ≤ d + (s.openFiles.length + 1)
    omega

/-- Behind a file that was in order. -/
theorem Advances.closeFile (hs : g.At (d + 1) p s) (hq : g.body? q = some m.body)
    (h : g.Advances d q m.body (s.openFile q) s') (checked : Module) :
    g.At (d + 1) p { s.closeFile s' with units := insertUnit q checked s'.units } where
  topLevel := h.place.topLevel
  outside := h.place.outside
  furnished := h.place.furnished.congr rfl rfl
  directory := hs.directory
  current := by
    obtain ⟨others, hothers⟩ := hs.current
    exact ⟨others, (congrArg tail h.openFiles).trans hothers⟩
  walked := by
    have hwalked := h.place.walked
    rw [h.openFiles] at hwalked
    show g.Walked s'.openFiles.tail _ _
    rw [h.openFiles]
    apply hwalked.closeFile hs.walked.main _ (mem_keys_insertUnit q checked s'.units)
    rintro r ⟨body, path, hbody, hpath, hfind⟩
    rw [hq] at hbody
    cases hbody
    exact h.included path hpath r hfind
  room := by
    show _ ≤ d + 1 + s'.openFiles.tail.length
    rw [h.openFiles]
    exact hs.room

/-- One file, given how its statements end. -/
theorem includeFile_walks {l : Location} (ih : ∀ {q body s}, g.At d q s → g.Leads q body →
      EndsFrom (g.Walks d q body) (statements (sourcesTo g.config d) body) s)
    (hs : g.At (d + 1) p s) (hedge : g.Includes p q)
    (hline : ∀ path ∈ [line].filterMap Stmt.included?, findInclude g.config (some p.parent) path = some q) :
    EndsFrom (g.Walks (d + 1) p [line]) (includeFile g.config (sourcesTo g.config d) q l) s := by
  unfold EndsFrom failureAfter stateAfter
  rw [includeFile_run]
  by_cases hopen : q ∈ s.openFiles
  · rw [if_pos hopen]
    refine .fail ⟨nofun, ?_⟩
    rintro chain l ⟨⟩
    obtain ⟨others, hothers⟩ := hs.current
    have hwalked := hs.walked
    rw [hothers] at hwalked hopen ⊢
    exact hwalked.isCycle hedge hopen
  by_cases hvisited : q ∈ s.visited
  · -- Met before and not open any more, it is finished.
    rw [if_neg hopen, if_pos hvisited]
    have hfinished := ((hs.walked.met q).mp hvisited).resolve_left hopen
    refine Advances.walks ⟨hs, rfl, fun _ h => h, fun path hpath r hr => ?_⟩
    rw [hline path hpath] at hr
    cases hr
    exact hfinished
  rw [if_neg hopen, if_neg hvisited]
  cases htext : g.config.files.textAt q with
  | error fault => exact .fail (blames_of_plain rfl)
  | ok text =>
    dsimp only
    cases hm : Module.ofText q.text text with
    | error failure => exact .fail (blames_of_plain (Failure.nests_of_ofText (Module.ofText_error hm)))
    | ok m =>
      have hmain : q ≠ g.main := by
        rintro rfl
        exact hopen hs.walked.main
      have hq := body?_of_text hmain htext hm
      have hbody := ih (hs.openFile hedge hvisited htext) (leads_of_body? hq)
      dsimp only
      cases hrun : (statements (sourcesTo g.config d) m.body).run (s.openFile q) with
      | error failure s' => exact .fail ((hbody.error hrun).blames failure rfl)
      | ok checked s' =>
        have hadvances := (hbody.ok hrun).advances rfl
        refine Advances.walks
          ⟨hadvances.closeFile hs hq _, congrArg tail hadvances.openFiles, fun r hr => ?_, ?_⟩
        · exact (mem_keys_insertUnit _ _ _ r).mpr (.inr (hadvances.keeps r hr))
        · intro path hpath r hr
          rw [hline path hpath] at hr
          cases hr
          exact (mem_keys_insertUnit _ _ _ q).mpr (.inl rfl)

/-- An include that means no file. -/
theorem header_walks {path : String} {l : Location} (hs : g.At (d + 2) p s)
    (hnone : ∀ path ∈ [line].filterMap Stmt.included?, findInclude g.config (some p.parent) path = none) :
    EndsFrom (g.Walks (d + 2) p [line]) (match Header.named? g.config.headers path with
      | some header => loadHeader (sourcesTo g.config (d + 1)) header
      | none => fail (.includeMissing path) l : Check Unit) s := by
  cases hnamed : Header.named? g.config.headers path with
  | none => exact .fail (blames_of_plain rfl)
  | some header =>
    have hmem := mem_of_find?_eq_some hnamed
    have hquiet := quietly_load g.config d hmem s hs.furnished
    have hplace := ((encloses_tolerates g.config).respects (d + 2)).load (sourcesTo_headers g.config _ ▸ hmem) s
    exact walks_of_quiet hs hquiet hplace hnone

/-- One statement of a file. -/
theorem statement_walks (ih : ∀ {q body s}, g.At d q s → g.Leads q body →
      EndsFrom (g.Walks d q body) (statements (sourcesTo g.config d) body) s)
    (hs : g.At (d + 1) p s) (hleads : g.Leads p [line]) :
    EndsFrom (g.Walks (d + 1) p [line]) (statement (sourcesTo g.config (d + 1)) line) s := by
  obtain ⟨e, rfl⟩ : ∃ e, d = e + 1 := Nat.exists_eq_succ_of_ne_zero (by have := hs.two_le_depth; omega)
  cases hincluded : line.included? with
  | none =>
    have hline (m : Mark) (path : String) : line ≠ .includeFile m path := by
      rintro rfl
      cases hincluded
    have hquiet := quiet_statement (readsQuietly g.config e) line hline s hs.furnished
    have hplace := ((encloses_tolerates g.config).respects (e + 2)).statement line .any s
    exact walks_of_quiet hs hquiet hplace (by simp [hincluded])
  | some path =>
    obtain ⟨m, rfl⟩ := Stmt.eq_includeFile hincluded
    apply endsFrom_include hs.topLevel
    apply EndsFrom.congr _ (followFile_run g.config _ path _ hs.outside)
    rw [hs.directory]
    have hpaths : [Stmt.includeFile m path].filterMap Stmt.included? = [path] := rfl
    cases hfind : findInclude g.config (some p.parent) path with
    | none =>
      apply header_walks hs
      simpa [hpaths] using hfind
    | some q =>
      apply includeFile_walks ih hs (hleads path (by simp [hpaths]) q hfind)
      simpa [hpaths] using hfind

end

/-- All statements of a file. -/
theorem statements_walks (hs : g.At depth p s) (hleads : g.Leads p body) :
    EndsFrom (g.Walks depth p body) (statements (sourcesTo g.config depth) body) s := by
  induction depth generalizing p body s with
  | zero => exact absurd hs.two_le_depth (by omega)
  | succ d ih =>
    induction body generalizing s with
    | nil => exact walks_nil hs
    | cons line rest ihrest =>
      have hline : g.Leads p [line] := by
        intro path hpath
        apply hleads path
        rw [← singleton_append, filterMap_append]
        exact mem_append_left _ hpath
      have hrest : g.Leads p rest := by
        intro path hpath
        apply hleads path
        rw [← singleton_append, filterMap_append]
        exact mem_append_right _ hpath
      have hfirst := statement_walks ih hs hline
      have hafter {checked s1} (hrun : (statement (sourcesTo g.config (d + 1)) line).run s = .ok checked s1) :=
        ihrest ((hfirst.ok hrun).advances rfl).place hrest
      apply endsFrom_of_run
      · intro checked s' hrun
        obtain ⟨_, s1, hfirst', hrun⟩ := run_bind_ok.mp hrun
        obtain ⟨_, s2, hmore, hrun⟩ := run_bind_ok.mp hrun
        cases hrun
        exact (hfirst.ok hfirst').trans ((hafter hfirst').ok hmore)
      · intro failure s' hrun
        obtain hrun | ⟨_, s1, hfirst', hrun⟩ := run_bind_error hrun
        · exact .fail ((hfirst.error hrun).blames failure rfl)
        · obtain hrun | ⟨_, _, _, hrun⟩ := run_bind_error hrun
          · exact .fail (((hafter hfirst').error hrun).blames failure rfl)
          · cases hrun

end Project

end Offside
