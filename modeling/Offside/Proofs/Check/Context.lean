import Offside.Proofs.Check.Tolerance

/-! Where a check stands.

On its way into blocks, functions, headers and files a check notes where it is, and every way out puts the
notes back, also the way of a failure. `CheckState.Situated` says that two states stand at the same place.
The one step that does not put back what it found is the end of a function, which leaves no function
behind: there was none before it, since functions are defined at the top level only. -/
namespace Offside

/-- What stands fixed of a function while its body is checked. -/
def FunctionContext.declared (f : FunctionContext) : String × Option ValueType := (f.name, f.returns)

/-- The two states stand at the same place: under as many scopes, in blocks, headers and files as deep,
and in the same function, if in any. -/
structure CheckState.Situated (s s' : CheckState) : Prop where
  locals : s'.environment.locals.length = s.environment.locals.length
  breakable : s'.breakableDepth = s.breakableDepth
  block : s'.blockDepth = s.blockDepth
  header : s'.headerDepth = s.headerDepth
  openFiles : s'.openFiles = s.openFiles
  directory : s'.directory = s.directory
  function : s'.function.map FunctionContext.declared = s.function.map FunctionContext.declared

namespace CheckState.Situated

variable {s s' t : CheckState}

theorem refl (s : CheckState) : s.Situated s := ⟨rfl, rfl, rfl, rfl, rfl, rfl, rfl⟩

theorem trans (h : s.Situated t) (h' : t.Situated s') : s.Situated s' where
  locals := h'.locals.trans h.locals
  breakable := h'.breakable.trans h.breakable
  block := h'.block.trans h.block
  header := h'.header.trans h.header
  openFiles := h'.openFiles.trans h.openFiles
  directory := h'.directory.trans h.directory
  function := h'.function.trans h.function

theorem inFunction (h : s.Situated s') : s'.function.isSome = s.function.isSome := by
  rw [← Option.isSome_map (f := FunctionContext.declared), h.function, Option.isSome_map]

theorem atTopLevel (h : s.Situated s') : s'.atTopLevel = s.atTopLevel := by
  simp only [CheckState.atTopLevel, ← Option.not_isSome, h.inFunction, h.block]

theorem setScope (s : CheckState) (scope : Scope) : s.Situated (s.setScope scope) :=
  { refl s with locals := Environment.length_locals_setCurrent _ _ }

/-- The type that is inferred is not part of the place. -/
theorem infer {f : FunctionContext} (type : ValueType) (hf : s.function = some f) :
    s.Situated { s with function := some { f with inferred := some type } } :=
  { refl s with function := by rw [hf]; rfl }

/-- Behind a function there is the scope it was entered from, and no function. -/
theorem leaveFunction {f : FunctionContext} (htop : s.atTopLevel = true)
    (h : Situated { s with function := some f, environment := s.environment.enter } s') :
    s.Situated { s' with function := none, environment := s'.environment.exit } := by
  have hnone : s.function = none := by
    simp only [CheckState.atTopLevel, Bool.and_eq_true, Option.isNone_iff_eq_none] at htop
    exact htop.1
  have hlocals : s'.environment.locals.length = s.environment.locals.length + 1 := h.locals
  refine ⟨?_, h.breakable, h.block, h.header, h.openFiles, h.directory, by rw [hnone]⟩
  show (s'.environment.locals.drop 1).length = s.environment.locals.length
  rw [List.length_drop, hlocals, Nat.add_sub_cancel]

/-- A block that ends as deep as it began is left where it was entered. -/
theorem leaveBlock (h : Situated { s with blockDepth := s.blockDepth + 1 } s') :
    s.Situated { s' with blockDepth := s'.blockDepth - 1 } :=
  { h with block := Nat.sub_eq_of_eq_add h.block }

theorem leaveBreakable (h : Situated { s with breakableDepth := s.breakableDepth + 1 } s') :
    s.Situated { s' with breakableDepth := s'.breakableDepth - 1 } :=
  { h with breakable := Nat.sub_eq_of_eq_add h.breakable }

/-- Behind a header the local scopes are back, and so is all that was set aside with them. -/
theorem closeHeader (h : s.openHeader.Situated s') : s.Situated (s.closeHeader s') where
  locals := List.length_map _
  breakable := rfl
  block := rfl
  header := Nat.sub_eq_of_eq_add h.header
  openFiles := h.openFiles
  directory := h.directory
  function := rfl

/-- A file whose own includes are all closed again is the innermost at its end. -/
theorem closeFile {path : Path} (h : (s.openFile path).Situated s') : s.Situated (s.closeFile s') :=
  { h with openFiles := congrArg List.tail h.openFiles, directory := rfl }

end CheckState.Situated

namespace Check

theorem situated_tolerates (config : Config) : Tolerates CheckState.Situated config where
  refl := .refl
  trans := .trans
  add _ := .setScope _ _
  constants _ _ := .setScope _ _
  struct name fields l h :=
    h.struct (fun _ _ _ => .setScope _ _) name fields l (fun _ _ => .any) trivial
  infer := .infer
  block := .leaveBlock
  breakable := .leaveBreakable
  body _ := .leaveFunction
  header := .closeHeader
  headerRead _ _ _ _ h := { h.closeHeader with }
  visit _ := { CheckState.Situated.refl _ with }
  file _ := .closeFile
  unit _ _ _ _ h := { h.closeFile with }

/-- **A check returns to its place.** From any state, whether a statement is in order or not, the check
ends under as many scopes as it began, in as many breakable statements, blocks and headers, with the same
files open and the same directory, and in no function or in the function it began in, with the type that
this was declared to return. -/
theorem statement_returns (config : Config) (depth : Nat) (line : Stmt) (s : CheckState) :
    s.Situated (stateAfter (statement (sourcesTo config depth) line) s) :=
  ((situated_tolerates config).respects depth).statement line .any s

end Check

end Offside
