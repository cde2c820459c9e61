import Offside.Token.Basic

/-! What can be wrong with the grammar of a text. -/
namespace Offside

/-- What should have come next. -/
inductive Expectation where
  | token (kind : TokenKind) (context : String)
  | identifier (context : String)
  | expression
  | type
  | lineEnd (context : String)
  | includePath
  | clause
  deriving DecidableEq, Repr

def Expectation.text : Expectation → String
  | token kind context => "'" ++ kind.text ++ "' in " ++ context
  | identifier context => "identifier in " ++ context
  | expression => "expression"
  | type => "type"
  | lineEnd context => "end of line after " ++ context
  | includePath => "quoted path after include"
  | clause => "'case' or 'else' in switch statement"

inductive GrammarFault where
  | unexpected (wanted : Expectation) (found : TokenKind)
  | notAPlace
  | misplacedVararg
  | secondDefault
  | duplicateField (field struct : String)
  | duplicateMember (member enum : String)
  | variadicEntry
  | entryArity
  | entryParameter (name expected found : String)
  | entryResult (found : String)
  deriving DecidableEq, Repr

def GrammarFault.message : GrammarFault → String
  | unexpected wanted found => "Expected " ++ wanted.text ++ ", found " ++ found.text
  | notAPlace => "cannot assign to this expression"
  | misplacedVararg => "'...' is only allowed in parameter lists"
  | secondDefault => "switch has more than one default clause"
  | duplicateField field struct =>
    "duplicate field '" ++ field ++ "' in struct '" ++ struct ++ "'"
  | duplicateMember member enum =>
    "duplicate member '" ++ member ++ "' in enum '" ++ enum ++ "'"
  | variadicEntry => "program entry point cannot be variadic"
  | entryArity => "program entry point expects either 0 or 2 arguments"
  | entryParameter name expected found =>
    "program entry point parameter '" ++ name ++ "' must have type " ++ expected ++ ", found " ++ found
  | entryResult found => "program entry point must return int, found " ++ found

end Offside
