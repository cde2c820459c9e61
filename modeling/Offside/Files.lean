/-! Files and directories as a value.

A `FileTree` lists what is stored under which path and names the directory that relative paths start
from. A path is written as text; `resolve` walks it one component at a time, as the system does: only a
directory can be walked through, `..` goes back one step, and the answer is the path with all detours
taken out. Files are compared by that path, and paths component by component. -/
namespace Offside

/-- The components of a path from the root. -/
abbrev Path := List String

namespace Path

/-- The written form. -/
def text (p : Path) : String := "/" ++ String.intercalate "/" p

/-- The directory that a path lies in. -/
def parent (p : Path) : Path := p.dropLast

/-- Whether a path comes first in the order of components. -/
def before (p q : Path) : Bool := decide (p < q)

/-- A written path seen from a directory. -/
def join (directory path : String) : String :=
  if path.startsWith "/" then path
  else if directory = "" || directory.endsWith "/" then directory ++ path
  else directory ++ "/" ++ path

end Path

inductive FileNode where
  | file (bytes : ByteArray)
  | directory

/-- Why a file could not be read. -/
inductive ReadFault where
  | missing
  | isDirectory
  | notDirectory
  | notText
  deriving DecidableEq, Repr

def ReadFault.message : ReadFault → String
  | missing => "No such file or directory (os error 2)"
  | isDirectory => "Is a directory (os error 21)"
  | notDirectory => "Not a directory (os error 20)"
  | notText => "stream did not contain valid UTF-8"

structure FileTree where
  nodes : List (Path × FileNode)
  workingDirectory : Path

namespace FileTree

/-- No files at all. -/
def empty : FileTree := ⟨[], []⟩

/-- What is stored under a path. The directories on the way to a file need no entry. -/
def node? (t : FileTree) (p : Path) : Option FileNode :=
  match t.nodes.find? fun n => n.1 == p with
  | some n => some n.2
  | none =>
    if p.isPrefixOf t.workingDirectory || t.nodes.any fun n => p.isPrefixOf n.1 then some .directory
    else none

def isDirectory (t : FileTree) (p : Path) : Bool :=
  match t.node? p with
  | some .directory => true
  | _ => false

/-- Walks components from a path. -/
def walk (t : FileTree) (p : Path) : List String → Except ReadFault Path
  | [] => .ok p
  | c :: rest =>
    if !t.isDirectory p then .error .notDirectory
    else if c = "" || c = "." then walk t p rest
    else if c = ".." then walk t p.parent rest
    else if (t.node? (p ++ [c])).isNone then .error .missing
    else walk t (p ++ [c]) rest

/-- The components of a written path; a leading or repeated slash leaves an empty one. -/
def components (path : String) : List String := (path.toList.splitOn '/').map String.ofList

/-- The path without detours of what a written path leads to. -/
def resolve (t : FileTree) (path : String) : Except ReadFault Path :=
  if path = "" then .error .missing
  else t.walk (if path.startsWith "/" then [] else t.workingDirectory) (components path)

/-- The path without detours of a file, if a written path leads to one. -/
def file? (t : FileTree) (path : String) : Option Path :=
  match t.resolve path with
  | .ok p => if t.isDirectory p then none else some p
  | .error _ => none

/-- The text stored under a path without detours. -/
def textAt (t : FileTree) (p : Path) : Except ReadFault String :=
  match t.node? p with
  | none => .error .missing
  | some .directory => .error .isDirectory
  | some (.file bytes) =>
    match String.fromUTF8? bytes with
    | some text => .ok text
    | none => .error .notText

/-- The text that a written path leads to. -/
def read (t : FileTree) (path : String) : Except ReadFault String :=
  match t.resolve path with
  | .ok p => t.textAt p
  | .error fault => .error fault

end FileTree

end Offside
