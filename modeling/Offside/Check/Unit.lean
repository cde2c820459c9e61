import Offside.Check.Statement
import Offside.Grammar.Statement

/-! Checking programs with what they include.

An include is searched in the directory of the file it stands in, then in the directories given, then
among the headers; headers include only headers. A file is checked once, in the scope of the place that
includes it first. A file that includes itself, directly or through others, is refused. -/
namespace Offside

/-- What a check is given besides the program. -/
structure Config where
  /-- Directories that are searched for includes, as written. -/
  includeDirs : List String := []
  /-- Whether unknown names may come from the standard headers. -/
  builtins : Bool := true
  files : FileTree := .empty

def Config.headers (c : Config) : List Header := if c.builtins then Header.standard else []

/-- A program that is in order. -/
structure CheckedUnit where
  /-- The headers it needs, in the order of their first use. -/
  headers : List String
  module : Module
  /-- The files it includes, directly or through others, in the order of their paths. -/
  units : List (Path × Module)
  /-- What is known at its end. -/
  globals : Scope

namespace Check

/-- Enters a file into a list that is ordered by paths. -/
def insertUnit (path : Path) (m : Module) : List (Path × Module) → List (Path × Module)
  | [] => [(path, m)]
  | (p, n) :: rest =>
    if path = p then (path, m) :: rest
    else if path.before p then (path, m) :: (p, n) :: rest
    else (p, n) :: insertUnit path m rest

/-- Lifts reading a text into the check. -/
def parsed (file text : String) : Check Module :=
  match Module.ofText file text with
  | .ok m => return m
  | .error failure => throw failure

/-- Reads a header, unless it has been read. -/
def loadHeader (sources : Sources) (header : Header) : Check Unit := do
  if !(← get).headers.contains header.name then
    let m ← parsed header.name header.source
    let _ ← inHeader (statements sources m.body)
    modify fun s =>
      if s.headers.contains header.name then s
      else { s with headers := s.headers ++ [header.name] }

/-- The first file that an include can mean. -/
def findInclude (config : Config) (directory : Option Path) (path : String) : Option Path :=
  (directory.toList.map Path.text ++ config.includeDirs).findSome? fun d =>
    config.files.file? (Path.join d path)

/-- The open files from one of them to the innermost and back to it. -/
def cycleThrough (path : Path) (openFiles : List Path) : List Path :=
  path :: (openFiles.takeWhile (· != path)).reverse ++ [path]

/-- Checks an included file, unless that has been done. -/
def includeFile (config : Config) (sources : Sources) (path : Path) (l : Location) :
    Check Unit := do
  let s ← get
  require (!s.openFiles.contains path) (.includeCycle (cycleThrough path s.openFiles)) l
  if !s.visited.contains path then
    set { s with visited := path :: s.visited }
    match config.files.textAt path with
    | .error fault => fail (.unreadable path fault) l
    | .ok text =>
      let m ← parsed path.text text
      let body ← inFile path (statements sources m.body)
      modify fun s => { s with units := insertUnit path ⟨m.file, body⟩ s.units }

/-- Follows an include. -/
def followInclude (config : Config) (sources : Sources) (path : String) (l : Location) :
    Check Unit := do
  let s ← get
  let file := if s.headerDepth = 0 then findInclude config s.directory path else none
  match file with
  | some file => includeFile config sources file l
  | none =>
    match Header.named? config.headers path with
    | some header => loadHeader sources header
    | none => fail (.includeMissing path) l

/-- Sources nested at most `depth` deep. -/
def sourcesTo (config : Config) : (depth : Nat) → Sources
  | 0 => ⟨config.headers, fun _ => throw .exhausted, fun _ _ => throw .exhausted⟩
  | depth + 1 =>
    ⟨config.headers, loadHeader (sourcesTo config depth),
     followInclude config (sourcesTo config depth)⟩

/-- Files that are open are all different, and so are the headers being read. -/
def depthBound (config : Config) : Nat :=
  config.files.nodes.length + config.headers.length + 1

def sources (config : Config) : Sources := sourcesTo config (depthBound config)

end Check

namespace CheckedUnit

/-- The state in which a program is checked, given the file it was read from. -/
def startState : Option Path → CheckState
  | none => {}
  | some path =>
    { visited := [path], begun := [path], openFiles := [path], directory := some path.parent }

/-- Checks a program. -/
def ofModule (config : Config) (m : Module) (path : Option Path) : Except Failure CheckedUnit :=
  match Check.statements (Check.sources config) m.body (startState path) with
  | .ok body s => .ok ⟨s.headers, ⟨m.file, body⟩, s.units, s.environment.global⟩
  | .error failure _ => .error failure

/-- Reads and checks a text that is in no file. -/
def ofText (config : Config) (file text : String) : Except Failure CheckedUnit := do
  let m ← Module.ofText file text
  ofModule config m none

/-- Reads and checks a file. -/
def ofFile (config : Config) (path : String) : Except Failure CheckedUnit := do
  match config.files.read path with
  | .error fault => throw (.unreadable path fault)
  | .ok text =>
    let m ← Module.ofText path text
    ofModule config m (config.files.resolve path).toOption

end CheckedUnit

end Offside
