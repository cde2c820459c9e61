import Offside.Json.Encode

/-! The commands of the program.

`tokens` lists the tokens of a file, `parse` prints its tree as a text, and `check` does so after adding
types, headed by what the program needs. Each can answer in JSON instead. Trouble is told as a
diagnostic. -/
namespace Offside

inductive Command where
  | tokens
  | parse
  | check
  deriving DecidableEq, Repr

/-- What is asked on the command line. -/
structure Request where
  command : Command
  main : String
  json : Bool := false
  includeDirs : List String := []
  builtins : Bool := true
  deriving Repr

/-- What a command makes. -/
inductive Product where
  | tokens (tokens : List Token)
  | tree (tree : Module)
  | unit (unit : CheckedUnit)

namespace Product

/-- A token on a line of its own, behind its place. -/
def tokenLine (t : Token) : String :=
  Nat.repr t.start.line ++ ":" ++ Nat.repr t.start.column ++ "\t" ++ t.kind.text ++ "\n"

def text : Product → String
  | tokens ts => String.join (ts.map tokenLine)
  | tree m => m.print
  | unit u =>
    String.join (u.headers.map fun h => "# needs " ++ h ++ "\n")
      ++ String.join (u.units.map fun (path, _) => "# includes " ++ path.text ++ "\n")
      ++ u.module.print

def json (style : Json.Style) : Product → Json
  | tokens ts => .array (ts.map (Json.ofToken style))
  | tree m => Json.ofModule style m
  | unit u => Json.ofUnit style u

end Product

namespace Request

def config (r : Request) (files : FileTree) : Config :=
  { includeDirs := r.includeDirs, builtins := r.builtins, files }

/-- The text of the file that a request is about. -/
def source (r : Request) (files : FileTree) : Except Failure String :=
  match files.read r.main with
  | .ok text => .ok text
  | .error fault => .error (.unreadable r.main fault)

def run (r : Request) (files : FileTree) : Except Failure Product :=
  match r.command with
  | .tokens => do
    let text ← r.source files
    return .tokens (← (TokenStream.ofText r.main text).toList)
  | .parse => do
    let text ← r.source files
    return .tree (← Module.ofText r.main text)
  | .check => return .unit (← CheckedUnit.ofFile (r.config files) r.main)

/-- How a failure is told. -/
def diagnostic (failure : Failure) : Diagnostic := .ofReport failure.report

/-- What ends up on the output and on the error output, and the exit code. -/
structure Outcome where
  output : String
  errors : String
  exitCode : Nat
  deriving DecidableEq, Repr

def outcome (r : Request) (files : FileTree) : Outcome :=
  match r.run files with
  | .ok product =>
    ⟨if r.json then (product.json .plain).text ++ "\n" else product.text, "", 0⟩
  | .error failure =>
    let d := diagnostic failure
    ⟨"", (if r.json then (Json.ofDiagnostic d).text else d.text) ++ "\n", 1⟩

/-! ### Arguments -/

def commandOf? : String → Option Command
  | "tokens" => some .tokens
  | "parse" => some .parse
  | "check" => some .check
  | _ => none

/-- Takes the options out of the arguments; what is left are words. -/
def options (r : Request) : List String → Option (Request × List String)
  | [] => some (r, [])
  | "--json" :: rest => options { r with json := true } rest
  | "--no-builtins" :: rest => options { r with builtins := false } rest
  | "-I" :: dir :: rest | "--include-dir" :: dir :: rest =>
    options { r with includeDirs := r.includeDirs ++ [dir] } rest
  | word :: rest =>
    if word.startsWith "-" then none
    else (options r rest).map fun (r, words) => (r, word :: words)

/-- The request that arguments spell: a command, a file and options in any order. -/
def ofArguments (arguments : List String) : Option Request := do
  let (r, words) ← options { command := .check, main := "" } arguments
  match words with
  | [name, main] => return { r with command := ← commandOf? name, main }
  | _ => none

def usage : String :=
  "usage: cuc (tokens | parse | check) FILE [--json] [-I DIR]... [--no-builtins]\n"

end Request

end Offside
