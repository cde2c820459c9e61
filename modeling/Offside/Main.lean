import Offside.Command

/-! The command line program.

The work is done on a `FileTree`. It is filled with what the file named on the command line can reach:
the file itself and, as long as new ones turn up, every candidate for an include in them. -/
namespace Offside

/-- The paths that a program includes. -/
def Module.includes (m : Module) : List String :=
  m.body.filterMap fun
    | .includeFile _ path => some path
    | _ => none

/-- What stands under a path. -/
def readNode (path : Path) : IO (Option FileNode) := do
  try
    let real ← IO.FS.realPath path.text
    if ← real.isDir then return some .directory
    else if ← real.pathExists then return some (.file (← IO.FS.readBinFile real))
    else return none
  catch _ => return none

/-- Adds what stands on the way of a written path. -/
def addWay (tree : FileTree) (path : String) : IO FileTree := do
  let mut tree := tree
  let mut here : Path := if path.startsWith "/" then [] else tree.workingDirectory
  for c in FileTree.components path do
    if c = ".." then here := here.parent
    else if c ≠ "" && c ≠ "." then
      here := here ++ [c]
      if (tree.node? here).isNone then
        match ← readNode here with
        | some node => tree := { tree with nodes := (here, node) :: tree.nodes }
        | none => pure ()
  return tree

/-- Adds what a file includes, and what that includes. -/
partial def addIncludes (dirs : List String) (tree : FileTree) (path : String) : IO FileTree := do
  match tree.resolve path, tree.read path with
  | .ok file, .ok text =>
    match Module.ofText path text with
    | .error _ => return tree
    | .ok m =>
      let mut tree := tree
      for included in m.includes do
        for dir in file.parent.text :: dirs do
          let candidate := Path.join dir included
          if (tree.file? candidate).isNone then
            tree ← addWay tree candidate
            if (tree.file? candidate).isSome then
              tree ← addIncludes dirs tree candidate
      return tree
  | _, _ => return tree

/-- The files that a request can need. -/
def gather (r : Request) : IO FileTree := do
  let here ← IO.currentDir
  let start : FileTree :=
    ⟨[], (FileTree.components here.toString).filter fun c => c ≠ ""⟩
  let tree ← addWay start r.main
  addIncludes r.includeDirs tree r.main

end Offside

def main (arguments : List String) : IO UInt32 := do
  match Offside.Request.ofArguments arguments with
  | none =>
    IO.eprint Offside.Request.usage
    return 2
  | some r =>
    let outcome := r.outcome (← Offside.gather r)
    IO.print outcome.output
    IO.eprint outcome.errors
    return outcome.exitCode.toUInt32
