import Offside.Source.Position

/-! What is told to the user.

A `Report` is one thing that went wrong: its kind, a message and, unless the trouble lies outside
every source text, a location. A `Diagnostic` is the form it takes on the terminal, with a severity
and notes. -/
namespace Offside

/-- Which part of the work found the trouble. -/
inductive ReportKind where
  | lexical
  | layout
  | grammar
  | semantic
  | files
  | internal
  deriving DecidableEq, Repr

structure Report where
  kind : ReportKind
  message : String
  location : Option Location
  deriving DecidableEq, Repr

namespace Report

/-- Kinds that belong to a place in a text are introduced with it, the others by a colon. -/
def headline : ReportKind → String
  | .lexical => "Lexical error at "
  | .layout => "Indentation error at "
  | .grammar => "Parse error at "
  | .semantic => "Semantic error at "
  | .files => "IO error: "
  | .internal => "Internal compiler error: "

def text (r : Report) : String :=
  match r.location with
  | some l => headline r.kind ++ l.text ++ ": " ++ r.message
  | none => headline r.kind ++ r.message

end Report

inductive Severity where
  | error
  | note
  deriving DecidableEq, Repr

def Severity.text : Severity → String
  | .error => "error"
  | .note => "note"

structure Diagnostic where
  severity : Severity
  message : String
  location : Option Location
  notes : List String
  deriving DecidableEq, Repr

namespace Diagnostic

/-- Advice that goes with every trouble of a kind. -/
def advice : ReportKind → List String
  | .layout => ["blocks are indented after a line ending in ':'"]
  | .internal => ["this is a bug in the compiler"]
  | _ => []

def ofReport (r : Report) : Diagnostic :=
  ⟨.error, r.message, r.location, advice r.kind⟩

def addNote (d : Diagnostic) (note : String) : Diagnostic :=
  { d with notes := d.notes ++ [note] }

/-- The first line says where, how bad and what; every note has a line of its own. -/
def text (d : Diagnostic) : String :=
  let place := match d.location with
    | some l => l.text ++ ": "
    | none => ""
  d.notes.foldl (fun shown note => shown ++ "\n  note: " ++ note)
    (place ++ d.severity.text ++ ": " ++ d.message)

end Diagnostic

end Offside
