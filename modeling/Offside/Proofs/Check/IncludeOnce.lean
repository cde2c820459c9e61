import Offside.Proofs.Check.IncludeWalk

/-! Checking a file with all it includes.

On its way a check notes each file whose statements it begins (`CheckState.begun`). No file is noted twice,
however the check ends, and behind a program that is in order these are the files of the program
(`beginsNew_tolerates`). With the walk through the graph this says what becomes of a file that is checked:
`CheckedUnit.ofFile_walks`. -/
namespace Offside

open List Check

variable {failure : Failure}

/-! ### Files whose statements are begun -/

/-- Files were begun once, when they were met, and the ones that are finished have been begun. -/
structure BegunOnce (begun visited : List Path) (units : List (Path × Module)) : Prop where
  nodup : begun.Nodup
  met : ∀ q ∈ begun, q ∈ visited
  finished : ∀ q ∈ units.map Prod.fst, q ∈ begun

/-- Between the two states only files have been begun that were not begun before. -/
structure BeginsNew (s s' : CheckState) : Prop where
  keeps : s.begun <+: s'.begun
  once : BegunOnce s.begun s.visited s.units → BegunOnce s'.begun s'.visited s'.units

namespace BeginsNew

variable {s s' t : CheckState} {path : Path}

theorem refl (s : CheckState) : BeginsNew s s := ⟨prefix_rfl, id⟩

theorem trans (h : BeginsNew s t) (h' : BeginsNew t s') : BeginsNew s s' := ⟨h.keeps.trans h'.keeps, h'.once ∘ h.once⟩

/-- A file that was not met has not been begun. -/
theorem openFile (hnew : path ∉ s.visited) : BeginsNew s (s.openFile path) where
  keeps := prefix_append _ _
  once h :=
    { nodup := h.nodup.append (nodup_singleton path) (disjoint_singleton.mpr fun hq => hnew (h.met path hq))
      met := fun q hq => by
        rcases mem_append.mp hq with hq | hq
        · exact mem_cons_of_mem _ (h.met q hq)
        · exact mem_cons.mpr (.inl (mem_singleton.mp hq))
      finished := fun q hq => mem_append_left _ (h.finished q hq) }

theorem file (hnew : path ∉ s.visited) (h : BeginsNew (s.openFile path) s') : BeginsNew s (s.closeFile s') :=
  (openFile hnew).trans ⟨h.keeps, h.once⟩

/-- A file that is finished was begun when it was opened. -/
theorem unit (m : Module) (hnew : path ∉ s.visited) (h : BeginsNew (s.openFile path) s') :
    BeginsNew s { s.closeFile s' with units := insertUnit path m s'.units } := by
  refine (openFile hnew).trans ⟨h.keeps, fun hopen => { h.once hopen with finished := ?_ }⟩
  intro q hq
  rcases (mem_keys_insertUnit path m s'.units q).mp hq with rfl | hq
  · exact h.keeps.subset (mem_append_right _ (mem_singleton.mpr rfl))
  · exact (h.once hopen).finished q hq

end BeginsNew

theorem beginsNew_tolerates (config : Config) : Tolerates BeginsNew config where
  refl := .refl
  trans := .trans
  add _ := ⟨prefix_rfl, id⟩
  constants _ _ := ⟨prefix_rfl, id⟩
  struct name fields l h :=
    h.struct (fun _ _ _ => ⟨prefix_rfl, id⟩) name fields l (fun _ _ => .any) trivial
  infer _ _ := ⟨prefix_rfl, id⟩
  block h := ⟨h.keeps, h.once⟩
  breakable h := ⟨h.keeps, h.once⟩
  body _ _ h := ⟨h.keeps, h.once⟩
  header h := ⟨h.keeps, h.once⟩
  headerRead _ _ _ _ h := ⟨h.keeps, h.once⟩
  visit _ := ⟨prefix_rfl, fun h => { h with met := fun q hq => mem_cons_of_mem _ (h.met q hq) }⟩
  file hadmits h := h.file hadmits.new
  unit hadmits _ _ _ h := h.unit _ hadmits.new

/-! ### Programs in files -/

namespace Project

open Check Relation

/-- The project of a file that can be read. -/
def ofFile? (config : Config) (path : String) : Option Project := match config.files.resolve path with
  | .error _ => none
  | .ok main =>
    match config.files.textAt main with
    | .error _ => none
    | .ok text =>
      match Module.ofText path text with
      | .error _ => none
      | .ok m => some ⟨config, main, m⟩

/-- The state in which the check of the program ends, in order or not. -/
def endState (g : Project) : CheckState :=
  stateAfter (statements (sources g.config) g.module.body) (CheckedUnit.startState (some g.main))

theorem beginsNew_endState (g : Project) : BeginsNew (CheckedUnit.startState (some g.main)) g.endState :=
  (beginsNew_tolerates g.config).program _ _

theorem begunOnce_endState (g : Project) :
    BegunOnce g.endState.begun g.endState.visited g.endState.units :=
  g.beginsNew_endState.once ⟨nodup_singleton _, fun _ h => h, nofun⟩

variable {g : Project}

theorem at_start {text : String} (htext : g.config.files.textAt g.main = .ok text) :
    g.At (depthBound g.config) g.main (CheckedUnit.startState (some g.main)) where
  topLevel := rfl
  outside := rfl
  furnished := furnished_startState _
  directory := rfl
  current := ⟨[], rfl⟩
  walked :=
    { chain := isChain_singleton _
      distinct := nodup_singleton _
      stored := forall_mem_singleton.mpr (FileTree.mem_nodes_of_textAt htext)
      main := mem_singleton.mpr rfl
      met := fun p => (or_iff_left (by simp [CheckedUnit.startState])).symm
      apart := nofun
      reached := forall_mem_singleton.mpr .refl
      closed := nofun
      ended := nofun }
  room := by
    show _ ≤ depthBound g.config + 1
    unfold depthBound
    omega

/-- A file from which no path goes on for ever is on no cycle. -/
theorem not_transGen_of_acc {p : Path} (h : Acc (fun q p => g.Includes p q) p) :
    ¬ TransGen g.Includes p p := by
  induction h with
  | intro p _ ih =>
    intro hloop
    -- The first step of the cycle leads to another file on it.
    obtain ⟨q, hpq, hqp⟩ := TransGen.head'_iff.mp hloop
    exact ih q hpq (TransGen.tail' hqp hpq)

/-- Behind a program that is in order, the walk has been everywhere. -/
theorem Advances.reaches {s s' : CheckState} {depth : Nat} (hopen : s.openFiles = [g.main])
    (h : g.Advances depth g.main g.module.body s s') :
    (∀ q, q ∈ s'.visited ↔ q = g.main ∨ q ∈ s'.units.map Prod.fst) ∧
      (∀ q, q ∈ s'.units.map Prod.fst ↔ q ≠ g.main ∧ ReflTransGen g.Includes g.main q) ∧
      ∀ q, ReflTransGen g.Includes g.main q → ¬ TransGen g.Includes q q := by
  have hwalked := h.place.walked
  rw [h.openFiles, hopen] at hwalked
  have hmain (q : Path) (hq : g.Includes g.main q) : q ∈ s'.units.map Prod.fst := by
    obtain ⟨body, path, hbody, hpath, hfind⟩ := hq
    rw [body?, if_pos rfl] at hbody
    cases hbody
    exact h.included path hpath q hfind
  have hreached (q : Path) (hq : ReflTransGen g.Includes g.main q) : q = g.main ∨ q ∈ s'.units.map Prod.fst := by
    induction hq with
    | refl => exact .inl rfl
    | tail _ hstep ih =>
      rcases ih with rfl | ih
      · exact .inr (hmain _ hstep)
      · exact .inr (hwalked.closed _ ih _ hstep)
  refine ⟨fun q => (hwalked.met q).trans (or_congr_left mem_singleton),
    fun q => ⟨fun hq => ⟨?_, ?_⟩, fun hq => (hreached q hq.2).resolve_left hq.1⟩, fun q hq => ?_⟩
  · rintro rfl
    exact hwalked.apart _ hq hwalked.main
  · exact hwalked.reached q ((hwalked.met q).mpr (.inr hq))
  · apply not_transGen_of_acc
    rcases hreached q hq with rfl | hq
    · exact Acc.intro _ fun r hr => hwalked.ended r (hmain r hr)
    · exact hwalked.ended q hq

end Project

namespace CheckedUnit

variable {unit : CheckedUnit}

open Project

/-- A file that can be read is checked as a program, any other is refused. -/
theorem ofFile_eq (config : Config) (path : String) : (∃ g text, ofFile? config path = some g ∧ g.config = config ∧
      config.files.textAt g.main = .ok text ∧
      ofFile config path = ofModule config g.module (some g.main)) ∨
    ofFile? config path = none ∧ ∃ failure, failure.nests = false ∧ ofFile config path = .error failure := by
  unfold ofFile ofFile? FileTree.read
  cases hmain : config.files.resolve path with
  | error fault => exact .inr ⟨rfl, _, rfl, rfl⟩
  | ok main =>
    dsimp only
    cases htext : config.files.textAt main with
    | error fault => exact .inr ⟨rfl, _, rfl, rfl⟩
    | ok text =>
      dsimp only
      cases hm : Module.ofText path text with
      | error failure => exact .inr ⟨rfl, failure, Failure.nests_of_ofText (Module.ofText_error hm), rfl⟩
      | ok m => exact .inl ⟨⟨config, main, m⟩, text, rfl, rfl, htext, rfl⟩

theorem ofModule_ok {config : Config} {m : Module} {path : Option Path} (h : ofModule config m path = .ok unit) :
    ∃ body s, (Check.statements (Check.sources config) m.body).run (startState path) = .ok body s ∧
      unit.units = s.units := by
  unfold ofModule at h
  split at h
  · rename_i body s hrun
    cases h
    exact ⟨body, s, hrun, rfl⟩
  · cases h

theorem ofModule_error {config : Config} {m : Module} {path : Option Path}
    (h : ofModule config m path = .error failure) :
    ∃ s, (Check.statements (Check.sources config) m.body).run (startState path) = .error failure s := by
  unfold ofModule at h
  split at h
  · cases h
  · rename_i failure' s hrun
    cases h
    exact ⟨s, hrun⟩

section

variable {g : Project} {text : String} (htext : g.config.files.textAt g.main = .ok text)
include htext

/-- The walk from the beginning of the program. -/
theorem program_walks : EndsFrom (g.Walks (Check.depthBound g.config) g.main g.module.body)
      (Check.statements (Check.sources g.config) g.module.body) (startState (some g.main)) :=
  statements_walks (at_start htext) (leads_of_body? (if_pos rfl))

theorem blames_of_ofModule (h : ofModule g.config g.module (some g.main) = .error failure) : g.Blames failure := by
  obtain ⟨s, hrun⟩ := ofModule_error h
  exact ((program_walks htext).error hrun).blames failure rfl

theorem advances_of_ofModule (h : ofModule g.config g.module (some g.main) = .ok unit) :
    g.Advances (Check.depthBound g.config) g.main g.module.body (startState (some g.main)) g.endState ∧
      unit.units = g.endState.units := by
  obtain ⟨body, s, hrun, hunits⟩ := ofModule_ok h
  have hend : g.endState = s := by
    unfold Project.endState stateAfter
    rw [hrun]
  rw [hend]
  exact ⟨((program_walks htext).ok hrun).advances rfl, hunits⟩

end

/-- The program's own file is the first one that is begun. -/
theorem head?_begun (g : Project) : g.endState.begun.head? = some g.main := by
  obtain ⟨rest, hrest⟩ := g.beginsNew_endState.keeps
  rw [← hrest]
  rfl

/-- **Includes are walked depth first, and each file is checked once.** Checking a file comes to an end
without running into the bound on nested files, and begins with the statements of no file twice, however
it ends. If all is in order, the files it has begun with are the file itself and the ones that it reaches
through includes, and no include leads back. If a cycle is reported, it is one. -/
theorem ofFile_walks (config : Config) (path : String) :
    ofFile config path ≠ .error .exhausted ∧
    (∀ g, ofFile? config path = some g → ofFile config path = ofModule config g.module (some g.main) ∧
      g.endState.begun.head? = some g.main ∧ g.endState.begun.Nodup) ∧
    (∀ unit, ofFile config path = .ok unit → ∃ g, ofFile? config path = some g ∧
      (∀ q, q ∈ g.endState.begun ↔ q = g.main ∨ q ∈ unit.units.map Prod.fst) ∧
      (∀ q, q ∈ unit.units.map Prod.fst ↔
        q ≠ g.main ∧ Relation.ReflTransGen g.Includes g.main q) ∧
      ∀ q, Relation.ReflTransGen g.Includes g.main q → ¬ Relation.TransGen g.Includes q q) ∧
    ∀ chain l, ofFile config path = .error (.semantic (.includeCycle chain) l) →
      ∃ g, ofFile? config path = some g ∧ g.IsCycle chain := by
  obtain ⟨g, text, hg, rfl, htext, heq⟩ | ⟨hnone, failure, hplain, heq⟩ := ofFile_eq config path
  · rw [heq, hg]
    refine ⟨fun h => (blames_of_ofModule htext h).bounded rfl, ?_, ?_, ?_⟩
    · rintro _ ⟨⟩
      exact ⟨rfl, head?_begun g, g.begunOnce_endState.nodup⟩
    · intro unit h
      obtain ⟨hadvances, hunits⟩ := advances_of_ofModule htext h
      obtain ⟨hmet, hreached⟩ := hadvances.reaches rfl
      rw [hunits]
      refine ⟨g, rfl, fun q => ⟨fun hq => (hmet q).mp (g.begunOnce_endState.met q hq), ?_⟩, hreached⟩
      rintro (rfl | hq)
      · exact List.mem_of_mem_head? (head?_begun g)
      · exact g.begunOnce_endState.finished q hq
    · intro chain l h
      exact ⟨g, rfl, (blames_of_ofModule htext h).cycle chain l rfl⟩
  · rw [heq, hnone]
    refine ⟨?_, nofun, nofun, ?_⟩
    · rintro ⟨⟩
      cases hplain
    · rintro chain l ⟨⟩
      cases hplain

/-- A file that is included by two others and could not be checked twice, since it defines a struct; and two
files that include each other. -/
def twoProjects : Config where
  files :=
    { nodes :=
        [(["main.cu"], .file "include \"a.cu\"\ninclude \"b.cu\"\np: Point\n".toUTF8),
         (["a.cu"], .file "include \"c.cu\"\n".toUTF8),
         (["b.cu"], .file "include \"c.cu\"\n".toUTF8),
         (["c.cu"], .file "struct Point:\n    x: int\n".toUTF8),
         (["there.cu"], .file "include \"back.cu\"\n".toUTF8),
         (["back.cu"], .file "include \"there.cu\"\n".toUTF8)]
      workingDirectory := [] }

def endsInCycle : Except Failure CheckedUnit → Bool
  | .error (.semantic (.includeCycle _) _) => true
  | _ => false

theorem ofFile_walks_diamond_and_loop : (∃ unit g, ofFile twoProjects "main.cu" = .ok unit ∧ unit.units.length = 3 ∧
      ofFile? twoProjects "main.cu" = some g ∧
      g.endState.begun = [["main.cu"], ["a.cu"], ["c.cu"], ["b.cu"]] ∧ g.endState.begun.Nodup ∧
      ∀ q, q ∈ unit.units.map Prod.fst ↔ q ≠ g.main ∧ Relation.ReflTransGen g.Includes g.main q) ∧
    ∃ chain l g, ofFile twoProjects "there.cu" = .error (.semantic (.includeCycle chain) l) ∧
      ofFile? twoProjects "there.cu" = some g ∧ g.IsCycle chain := by
  have hdiamond : ((ofFile twoProjects "main.cu").toOption.any fun unit =>
      unit.units.length == 3) = true := by decide +kernel
  have hbegun : (ofFile? twoProjects "main.cu").map (fun g => g.endState.begun) =
      some [["main.cu"], ["a.cu"], ["c.cu"], ["b.cu"]] := by decide +kernel
  have hloop : endsInCycle (ofFile twoProjects "there.cu") = true := by decide +kernel
  constructor
  · obtain ⟨unit, hunit, hcount⟩ := exists_ok_of_any hdiamond
    obtain ⟨_, hfiles, hok, _⟩ := ofFile_walks twoProjects "main.cu"
    obtain ⟨g, hg, _, hreached, _⟩ := hok unit hunit
    rw [hg] at hbegun
    exact ⟨unit, g, hunit, by simpa using hcount, hg, Option.some.inj hbegun, (hfiles g hg).2.2, hreached⟩
  · unfold endsInCycle at hloop
    split at hloop
    · rename_i chain l hcycle
      obtain ⟨_, _, _, herror⟩ := ofFile_walks twoProjects "there.cu"
      obtain ⟨g, hg, hchain⟩ := herror chain l hcycle
      exact ⟨chain, l, g, hcycle, hg, hchain⟩
    · cases hloop

end CheckedUnit

end Offside
