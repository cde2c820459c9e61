import Offside.Check.Fault
import Offside.Source.Report
import Offside.Token.Fault
import Offside.Grammar.Fault

/-! The ways in which working on a program can fail, and how each is reported. -/
namespace Offside

inductive Failure where
  | lexical (fault : LexicalFault) (location : Location)
  | layout (fault : LayoutFault) (location : Location)
  | grammar (fault : GrammarFault) (location : Location)
  | semantic (fault : SemanticFault) (location : Location)
  /-- A file named on the command line that cannot be read. -/
  | unreadable (path : String) (fault : ReadFault)
  /-- A bound on the depth of the work was met; the bounds in use are chosen so that none is. -/
  | exhausted
  /-- A token was asked for that filling the buffer should have put there; it always does. -/
  | underflow

namespace Failure

def report : Failure → Report
  | lexical fault l => ⟨.lexical, fault.message l.position, some l⟩
  | layout fault l => ⟨.layout, fault.message, some l⟩
  | grammar fault l => ⟨.grammar, fault.message, some l⟩
  | semantic fault l => ⟨.semantic, fault.message, some l⟩
  | unreadable path fault => ⟨.files, path ++ ": " ++ fault.message, none⟩
  | exhausted => ⟨.internal, "nesting bound exceeded", none⟩
  | underflow => ⟨.internal, "token lookahead underflow", none⟩

def message (f : Failure) : String := f.report.message

def location? (f : Failure) : Option Location := f.report.location

end Failure

end Offside
