import Offside.Proofs.Check.Agreement
import Offside.Proofs.Check.Transparency

/-! What is declared stays declared.

A check only adds to the global scope. What it says of a variable or of a type it goes on saying, and a
function that is defined and a guard that is set remain so (`Scope.GoesOn`); the one thing that changes is
what a constant stands for. A struct is entered twice, first by name and then with its members, but its
name was free before the statement. Since a definition looks its name up among the defined functions
first, no function is defined twice, in a program with all the files that it includes
(`Check.definesTo`). -/
namespace Offside

open List

/-! ### The functions that a tree defines -/

mutual

/-- The names of the functions that a statement defines, anywhere in it. -/
def Stmt.definitions : Stmt → List String
  | .function _ head body => head.name :: Stmt.definitionsIn body
  | .ifElse _ _ body orelse => Stmt.definitionsIn body ++ Stmt.definitionsIn orelse
  | .whileLoop _ _ body orelse => Stmt.definitionsIn body ++ Stmt.definitionsIn orelse
  | .doLoop _ body _ => Stmt.definitionsIn body
  | .switch _ _ cases default => SwitchCase.definitionsIn cases ++ Stmt.definitionsInBlock default
  | _ => []

def Stmt.definitionsIn : List Stmt → List String
  | [] => []
  | s :: rest => s.definitions ++ Stmt.definitionsIn rest

def Stmt.definitionsInBlock : Option (List Stmt) → List String
  | none => []
  | some body => Stmt.definitionsIn body

def SwitchCase.definitions : SwitchCase → List String
  | .mk _ _ body => Stmt.definitionsIn body

def SwitchCase.definitionsIn : List SwitchCase → List String
  | [] => []
  | c :: rest => c.definitions ++ SwitchCase.definitionsIn rest

end

def Module.definitions (m : Module) : List String := Stmt.definitionsIn m.body

/-- The functions that a program defines, in its own text and in the files it includes. -/
def CheckedUnit.definitions (u : CheckedUnit) : List String :=
  (u.module :: u.units.map Prod.snd).flatMap Module.definitions

/-- The function that a statement itself defines. -/
def Stmt.defines : Stmt → List String
  | .function _ head _ => [head.name]
  | _ => []

theorem Stmt.nodup_defines (s : Stmt) : s.defines.Nodup := by
  cases s with
  | function m head body => exact nodup_singleton _
  | _ => exact nodup_nil

/-! ### Definitions stand at the top level -/

namespace Check

/-- Inside a function or a block. -/
def Nested (s : CheckState) : Prop := s.atTopLevel = false

section

variable {α : Type} {sources : Sources} {post : α → Prop}

theorem inBlock_yields {part : Check α} (h : Ensures Nested part fun a _ => post a) : Yields (inBlock part) post := by
  intro s a s' _ hrun
  obtain ⟨t, hpart, _⟩ := during_ok hrun
  refine h _ a t ?_ hpart
  simp [Nested, CheckState.atTopLevel]

theorem inFunction_yields {f : FunctionContext} {part : Check α}
    (h : Ensures Nested part fun a _ => post a) : Yields (inFunction f part) post := by
  intro s a s' _ hrun
  obtain ⟨t, hpart, _⟩ := during_ok hrun
  refine h _ a t ?_ hpart
  rfl

/-- A definition that is not at the top level is refused. -/
theorem defines_nested {line checked : Stmt} {s s' : CheckState} (hs : Nested s)
    (h : (statement sources line).run s = .ok checked s') : line.defines = [] := by
  cases line with
  | function m head body =>
    rw [statement] at h
    obtain ⟨_, _, hopen, _⟩ := run_bind_ok.mp h
    obtain ⟨_, _, hget, hopen⟩ := run_bind_ok.mp hopen
    cases hget
    obtain ⟨_, _, htop, _⟩ := run_bind_ok.mp hopen
    rw [hs] at htop
    cases htop
  | _ => rfl

theorem closeDefinition_name (head : FunctionHead) (types : List ValueType)
    (returns inferred : Option ValueType) (l : Location) :
    Yields (closeDefinition head types returns inferred l) fun r => r.name = head.name := by
  unfold closeDefinition
  dsimp only
  split
  · exact .after fun _ => .pure rfl
  · exact .pure rfl

mutual

/-- A checked statement defines the function it is about, if any, and none inside. -/
theorem statement_definitions (hR : Respects (Always Encloses) sources) : (line : Stmt) →
    Yields (statement sources line) fun checked => checked.definitions = line.defines
  | .function m head body => by
    refine .after fun ⟨types, returns⟩ => ?_
    have hpart : Ensures Nested (do
        modifyScope (bindParams head.params types)
        let body ← statements sources body
        return (body, (← get).function.bind (·.inferred))) fun r _ => Stmt.definitionsIn r.1 = [] := by
      intro s r s' hs hrun
      obtain ⟨_, s1, hparams, hrun⟩ := run_bind_ok.mp hrun
      obtain ⟨body', s2, hbody, hrun⟩ := run_bind_ok.mp hrun
      cases hrun
      have hs1 : Nested s1 := by
        rw [Nested, ((hR.bindParams head.params types s).ok hparams).atTopLevel]
        exact hs
      exact statements_nested hR body s1 body' s' hs1 hbody
    refine (inFunction_yields hpart).bind fun ⟨body', inferred⟩ hbody => ?_
    refine (closeDefinition_name head types returns inferred _).bind fun head' hname => .pure ?_
    simp only [Stmt.definitions, Stmt.defines, hname, hbody]
  | .ifElse m c body orelse => by
    refine .after fun c' => (inBlock_yields (statements_nested hR body)).bind fun body' hbody => ?_
    refine (inBlock_yields (statements_nested hR orelse)).bind fun orelse' horelse => .pure ?_
    simp only [Stmt.definitions, Stmt.defines, hbody, horelse, append_nil]
  | .whileLoop m c body orelse => by
    refine .after fun c' => ?_
    refine (during_yields (inBlock_yields (statements_nested hR body))).bind fun body' hbody => ?_
    refine (inBlock_yields (statements_nested hR orelse)).bind fun orelse' horelse => .pure ?_
    simp only [Stmt.definitions, Stmt.defines, hbody, horelse, append_nil]
  | .doLoop m body c => by
    refine (during_yields (inBlock_yields (statements_nested hR body))).bind fun body' hbody => ?_
    refine .after fun c' => .pure ?_
    simp only [Stmt.definitions, Stmt.defines, hbody]
  | .switch m subject cases default => by
    refine .after fun subject' => .after fun _ => ?_
    refine (switchCases_definitions hR _ cases).bind fun cases' hcases => ?_
    refine (defaultCase_definitions hR default).bind fun default' hdefault => .pure ?_
    simp only [Stmt.definitions, Stmt.defines, hcases, hdefault, append_nil]
  | .assign m target value => by
    unfold statement assignment
    split
    · refine .after fun found => ?_
      cases found with
      | none => exact .after fun _ => .after fun _ => .after fun _ => .pure rfl
      | some type => exact .after fun _ => .after fun _ => .after fun _ => .pure rfl
    · exact .after fun _ => .after fun _ => .after fun _ => .after fun _ => .pure rfl
  | .expr m e => .after fun _ => .pure rfl
  | .declare m d => .after fun _ => .pure rfl
  | .announce m head => .after fun _ => .pure rfl
  | .result m value => .after fun _ => .pure rfl
  | .leave m => .after fun _ => .after fun _ => .pure rfl
  | .pass m => .pure rfl
  | .struct m name fields => .after fun _ => .pure rfl
  | .enum m name members => .after fun _ => .pure rfl
  | .typedef m target name => .after fun _ => .pure rfl
  | .define m name value => .after fun _ => .pure rfl
  | .includeFile m path => .after fun _ => .after fun _ => .after fun _ => .pure rfl
  | .ifndef m name => .pure rfl
  | .endif m => .pure rfl

theorem statements_nested (hR : Respects (Always Encloses) sources) : (body : List Stmt) →
    Ensures Nested (statements sources body) fun checked _ => Stmt.definitionsIn checked = []
  | [] => .pure fun _ _ => rfl
  | line :: rest => by
    intro s checked s' hs hrun
    obtain ⟨first, s1, hfirst, hrun⟩ := run_bind_ok.mp hrun
    obtain ⟨more, s2, hmore, hrun⟩ := run_bind_ok.mp hrun
    cases hrun
    have hs1 : Nested s1 := by
      rw [Nested, ((hR.statement line .any).ok hfirst).atTopLevel]
      exact hs
    have hhead : first.definitions = [] :=
      (statement_definitions hR line s first s1 trivial hfirst).trans (defines_nested hs hfirst)
    have hrest := statements_nested hR rest s1 more s' hs1 hmore
    simp only [Stmt.definitionsIn, hhead, hrest, append_nil]

theorem switchCases_definitions (hR : Respects (Always Encloses) sources) (subject : ValueType) :
    (cs : List SwitchCase) →
      Yields (switchCases sources subject cs) fun checked => SwitchCase.definitionsIn checked = []
  | [] => .pure rfl
  | c :: rest => by
    refine (switchCase_definitions hR subject c).bind fun c' hc => ?_
    refine (switchCases_definitions hR subject rest).bind fun rest' hrest => .pure ?_
    simp only [SwitchCase.definitionsIn, hc, hrest, append_nil]

theorem switchCase_definitions (hR : Respects (Always Encloses) sources) (subject : ValueType) :
    (c : SwitchCase) → Yields (switchCase sources subject c) fun checked => checked.definitions = []
  | .mk span values body => by
    refine .after fun values' => ?_
    refine (during_yields (inBlock_yields (statements_nested hR body))).bind fun body' hbody => .pure ?_
    simp only [SwitchCase.definitions, hbody]

theorem defaultCase_definitions (hR : Respects (Always Encloses) sources) : (d : Option (List Stmt)) →
    Yields (defaultCase sources d) fun checked => Stmt.definitionsInBlock checked = []
  | none => .pure rfl
  | some body => by
    refine (during_yields (inBlock_yields (statements_nested hR body))).bind fun body' hbody => .pure ?_
    simp only [Stmt.definitionsInBlock, hbody]

end

end

end Check

/-! ### No function is defined twice -/

/-- The functions that the finished files define. -/
def CheckState.definitions (s : CheckState) : List String := s.units.flatMap fun u => u.2.definitions

namespace Check

variable {config : Config} {depth : Nat} {s s' : CheckState} {names : List String}

theorem insertUnit_perm {path : Path} {units : List (Path × Module)} (m : Module)
    (h : ∀ u ∈ units, u.1 ≠ path) : (insertUnit path m units).Perm ((path, m) :: units) := by
  induction units with
  | nil => exact .refl _
  | cons first rest ih =>
    obtain ⟨p, n⟩ := first
    have hp : path ≠ p := fun heq => h _ mem_cons_self heq.symm
    unfold insertUnit
    rw [if_neg hp]
    split
    · exact .refl _
    · exact ((ih fun u hu => h u (mem_cons_of_mem _ hu)).cons _).trans (.swap _ _ _)

/-- The functions defined so far, by the finished files and, under `names`, by those still open, are all
different and all noted as defined. -/
structure DefinedOnce (names : List String) (s : CheckState) : Prop where
  nodup : (names ++ s.definitions).Nodup
  noted : ∀ name ∈ names ++ s.definitions, s.scope.definedFunctions.contains name = true

namespace DefinedOnce

variable {path : Path} {body : List Stmt}

/-- One statement that finishes no file. -/
theorem step (h : DefinedOnce names s) (hscope : s.scope.GoesOn s'.scope) (hunits : s'.units = s.units)
    {new : List String} (hnodup : new.Nodup)
    (hfree : ∀ name ∈ new, s.scope.definedFunctions.contains name = false)
    (hnoted : ∀ name ∈ new, s'.scope.definedFunctions.contains name) :
    DefinedOnce (names ++ new) s' := by
  have hdefinitions : s'.definitions = s.definitions := congrArg (flatMap _) hunits
  have hperm : (names ++ new ++ s'.definitions).Perm (new ++ (names ++ s.definitions)) := by
    rw [hdefinitions, append_assoc]
    exact perm_append_comm_assoc _ _ _
  constructor
  · rw [hperm.nodup_iff, nodup_append]
    refine ⟨hnodup, h.nodup, ?_⟩
    rintro name hname _ hother rfl
    have hold := h.noted name hother
    rw [hfree name hname] at hold
    cases hold
  · intro name hname
    rcases mem_append.mp (hperm.mem_iff.mp hname) with hname | hname
    · exact hnoted name hname
    · exact hscope.functions name (h.noted name hname)

/-- A file that was open and is finished. -/
theorem finish (h : DefinedOnce (names ++ Stmt.definitionsIn body) s) (file : String)
    (hnew : ∀ u ∈ s.units, u.1 ≠ path) (hscope : s'.scope = s.scope)
    (hunits : s'.units = insertUnit path ⟨file, body⟩ s.units) : DefinedOnce names s' := by
  have hdefinitions : s'.definitions.Perm (Stmt.definitionsIn body ++ s.definitions) := by
    rw [CheckState.definitions, hunits]
    exact (insertUnit_perm _ hnew).flatMap_right _
  have hperm : (names ++ s'.definitions).Perm (names ++ Stmt.definitionsIn body ++ s.definitions) := by
    rw [append_assoc]
    exact hdefinitions.append_left names
  constructor
  · rw [hperm.nodup_iff]
    exact h.nodup
  · intro name hname
    rw [hscope]
    exact h.noted name (hperm.mem_iff.mp hname)

end DefinedOnce

/-- Before a definition its function is not noted as defined. -/
theorem openDefinition_free {sources : Sources} {head : FunctionHead} {l : Location}
    {r : List ValueType × Option ValueType} (h : (openDefinition sources head l).run s = .ok r s') :
    s.scope.definedFunctions.contains head.name = false := by
  unfold openDefinition at h
  obtain ⟨_, _, hget, h⟩ := run_bind_ok.mp h
  cases hget
  obtain ⟨_, s1, htop, h⟩ := run_bind_ok.mp h
  obtain ⟨_, s2, hparams, h⟩ := run_bind_ok.mp h
  obtain ⟨_, _, hscope, h⟩ := run_bind_ok.mp h
  cases hscope
  obtain ⟨_, s3, hnew, _⟩ := run_bind_ok.mp h
  have hsame : Chains (Always Eq) := .ofOrder (fun _ => rfl) Eq.trans
  have h2 : s1 = s2 := (hsame.checkParams head.name [] head.params fun _ _ => .any).ok hparams
  rw [← h2, (require_ok htop).2] at hnew
  simpa using (require_ok hnew).1

/-- Behind the head of a definition it is. -/
theorem openDefinition_noted {sources : Sources} {head : FunctionHead} {l : Location}
    {r : List ValueType × Option ValueType} (h : (openDefinition sources head l).run s = .ok r s') :
    s'.scope.definedFunctions.contains head.name := by
  obtain ⟨types, returns⟩ := r
  obtain ⟨s0, scope, _, hscope, rfl⟩ := openDefinition_ok h
  have hnoted : scope.definedFunctions.contains head.name := by
    rw [hscope]
    simp [NameSet.contains_insert]
  rw [CheckState.scope_setScope]
  cases returns with
  | none => exact hnoted
  | some returns =>
    dsimp only
    obtain hbind | hbind := scope.bind_cases head.name (.function types returns)
    · rw [hbind]
      exact hnoted
    · rw [hbind]
      exact hnoted

/-- The function that a statement defines is new, and noted behind the statement. -/
theorem statement_defines (hs : OnGlobal s) {line checked : Stmt}
    (h : (statement (sourcesTo config depth) line).run s = .ok checked s') :
    ∀ name ∈ line.defines, s.scope.definedFunctions.contains name = false ∧
      s'.scope.definedFunctions.contains name := by
  have hR := (grows_tolerates config).respects depth
  cases line with
  | function m head body =>
    intro name hname
    rw [mem_singleton.mp hname]
    rw [statement] at h
    obtain ⟨⟨types, returns⟩, s1, hopen, h⟩ := run_bind_ok.mp h
    obtain ⟨⟨body', inferred⟩, s2, hbody, h⟩ := run_bind_ok.mp h
    obtain ⟨head', s3, hclose, h⟩ := run_bind_ok.mp h
    cases h
    refine ⟨openDefinition_free hopen, ?_⟩
    have hhead : Grows s s1 := (hR.openDefinition head _ .any trivial).ok hopen
    have hrest : Grows s1 s' := by
      refine .trans ?_ ((hR.closeDefinition head types returns inferred _ trivial).ok hclose)
      refine (hR.inFunction _ ?_ (openDefinition_atTopLevel hR.secludes hopen)).ok hbody
      exact hR.bind (hR.bindParams head.params types) fun _ => hR.bind (hR.statements body .any) fun _ =>
        hR.bind hR.get fun _ => hR.pure _
    exact ((hs.grows hhead).goesOn hrest).functions head.name (openDefinition_noted hopen)
  | _ => exact forall_mem_nil _

/-- With sources nested so deep: what statements define is defined once. -/
def DefinesTo (config : Config) (depth : Nat) : Prop := ∀ body names s checked s', Between s → DefinedOnce names s →
    (statements (sourcesTo config depth) body).run s = .ok checked s' →
    DefinedOnce (names ++ Stmt.definitionsIn checked) s'

/-- An include: the file it means defines what no other does. -/
theorem include_definedOnce (ih : ∀ d, depth = d + 1 → DefinesTo config d) (hs : Between s)
    (h : DefinedOnce names s) {mark : Mark} {path : String} {checked : Stmt}
    (hrun : (statement (sourcesTo config depth) (.includeFile mark path)).run s = .ok checked s') :
    DefinedOnce names s' := by
  have hgoesOn := hs.goesOn ((((grows_tolerates config).respects depth).statement _ .any).ok hrun)
  have hsame (hunits : s'.units = s.units) : DefinedOnce names s' := by
    simpa using h.step hgoesOn hunits nodup_nil nofun nofun
  obtain ⟨d, rfl, ⟨file, _, hfile⟩ | ⟨_, hunits⟩⟩ := include_ok hs hrun
  · obtain ⟨_, rfl⟩ | ⟨hnew, text, m, body, s1, _, _, hbody, rfl⟩ := includeFile_ok hfile
    · exact h
    · have hfiles : Files (s.openFile file) s1 :=
        (((files_tolerates config).respects d).statements m.body .any).ok hbody
      have hopen : DefinedOnce names (s.openFile file) := ⟨h.nodup, h.noted⟩
      have hinside := ih d rfl m.body names _ body s1 (hs.openFile file) hopen hbody
      exact hinside.finish m.file (hfiles.ne_path hnew hs.filed) rfl rfl
  · exact hsame hunits

theorem definesTo_of_less (ih : ∀ d, depth = d + 1 → DefinesTo config d) : DefinesTo config depth := by
  have hdefinitions (line : Stmt) :=
    statement_definitions ((encloses_tolerates config).respects depth) line
  intro body
  induction body with
  | nil =>
    intro names s checked s' _ h hrun
    cases hrun
    rwa [Stmt.definitionsIn, append_nil]
  | cons first rest ihrest =>
    intro names s checked s' hs h hrun
    obtain ⟨first', s1, hfirst, hrun⟩ := run_bind_ok.mp hrun
    obtain ⟨rest', s2, hrest, hrun⟩ := run_bind_ok.mp hrun
    cases hrun
    have hstep : DefinedOnce (names ++ first'.definitions) s1 := by
      rw [hdefinitions first s first' s1 trivial hfirst]
      by_cases hinclude : ∃ m path, first = .includeFile m path
      · obtain ⟨mark, path, rfl⟩ := hinclude
        show DefinedOnce (names ++ []) s1
        rw [append_nil]
        exact include_definedOnce ih hs h hfirst
      · have hunits := (units_statement config depth first (by simpa using hinclude) s).ok hfirst
        have hgoesOn := hs.goesOn ((((grows_tolerates config).respects depth).statement first .any).ok hfirst)
        have hnew := statement_defines hs.toOnGlobal hfirst
        exact h.step hgoesOn hunits first.nodup_defines (fun name hname => (hnew name hname).1)
          fun name hname => (hnew name hname).2
    rw [Stmt.definitionsIn, ← append_assoc]
    exact ihrest _ s1 rest' s' (hs.statement hfirst) hstep hrest

theorem definesTo (config : Config) (depth : Nat) : DefinesTo config depth := by
  induction depth with
  | zero => exact definesTo_of_less nofun
  | succ depth ih =>
    refine definesTo_of_less ?_
    rintro d ⟨⟩
    exact ih

theorem definitions_nodup {m : Module} {path : Option Path} {u : CheckedUnit}
    (h : CheckedUnit.ofModule config m path = .ok u) : u.definitions.Nodup := by
  have hstart := between_startState path
  have hnone : DefinedOnce [] (CheckedUnit.startState path) := by
    cases path <;> exact ⟨nodup_nil, nofun⟩
  unfold CheckedUnit.ofModule at h
  split at h
  · rename_i body s hrun
    cases h
    have hend := definesTo config _ m.body [] _ body s hstart hnone hrun
    simpa [CheckedUnit.definitions, CheckState.definitions, Module.definitions, flatMap_map] using hend.nodup
  · cases h

/-- **What is declared stands.** From any state that a check goes through, however a statement ends, the
global scope binds every variable to the type it had, keeps every entry for a type, every function that is
defined and every guard, and the headers that were read come first among those read then. And in a program
that is in order no function is defined twice, wherever in its text and in the files it includes. -/
theorem declarations_stand (config : Config) :
    (∀ s, Reached config s → ∀ depth line,
      let s' := stateAfter (statement (sourcesTo config depth) line) s
      s.environment.global.GoesOn s'.environment.global ∧ s.headers <+: s'.headers) ∧
    ∀ m path u, CheckedUnit.ofModule config m path = .ok u → u.definitions.Nodup := by
  refine ⟨fun s hs depth line => ?_, fun m path u h => definitions_nodup h⟩
  have hgoesOn : Grows s (stateAfter (statement (sourcesTo config depth) line) s) :=
    ((grows_tolerates config).respects depth).statement line .any s
  exact ⟨hgoesOn.global hs.furnished.rooted, hgoesOn.headers⟩

/-- A program that includes a file, each with a definition, and a struct behind a variable. -/
theorem declarations_stand_twice :
    let config : Config :=
      { includeDirs := ["/lib"]
        files := ⟨[(["lib", "n.cu"], .file "def twice(n: int) -> int:\n    return n + n\n".toUTF8)], []⟩ }
    let s := stateAfter (declare "n" .int default) (CheckedUnit.startState none)
    let s' := stateAfter (statement (sourcesTo config 1) (.struct default "pair" [])) s
    (s.environment.global.lookup "n" = some .int ∧ s.environment.global.GoesOn s'.environment.global ∧
      s.headers <+: s'.headers) ∧
    ∃ m u, Module.ofText "main.cu"
        "include \"n.cu\"\ndef thrice(n: int) -> int:\n    return n + twice(n)\n" = .ok m ∧
      CheckedUnit.ofModule config m none = .ok u ∧ u.definitions = ["thrice", "twice"] ∧
      u.definitions.Nodup := by
  intro config s s'
  have hreached : Reached config s := .behind 0 (.declaration "n" .int default) (.start none)
  refine ⟨⟨rfl, (declarations_stand config).1 s hreached 1 _⟩, ?_⟩
  have htwo : ((CheckedUnit.ofText config "main.cu"
      "include \"n.cu\"\ndef thrice(n: int) -> int:\n    return n + twice(n)\n").toOption.any
        fun u => u.definitions == ["thrice", "twice"]) = true := by decide +kernel
  obtain ⟨u, hu, hdefinitions⟩ := exists_ok_of_any htwo
  obtain ⟨m, hm, hu⟩ := CheckedUnit.ofText_ok hu
  exact ⟨m, u, hm, hu, by simpa using hdefinitions, (declarations_stand config).2 m none u hu⟩

end Check

end Offside
