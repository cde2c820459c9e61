import Offside.Source.Position

/-! What can be wrong with the characters of a text and with the layout of its lines. -/
namespace Offside

inductive LexicalFault where
  | invalidHex (digits : List Char)
  | invalidInt (digits : List Char)
  | invalidFloat (text : List Char)
  | invalidEscape (c : Char)
  | emptyChar
  | unterminatedChar
  | unterminatedString
  | nonAsciiChar (c : Char)
  | unknownSymbol (c : Char)
  deriving DecidableEq, Repr

/-- The wording of a fault found at a position. -/
def LexicalFault.message (p : Position) : LexicalFault → String
  | invalidHex digits => "Invalid hex literal: 0x" ++ String.ofList digits
  | invalidInt digits => "Invalid integer literal: " ++ String.ofList digits
  | invalidFloat text => "Invalid float literal: " ++ String.ofList text
  | invalidEscape c => "Invalid escape sequence: \\" ++ String.singleton c
  | emptyChar => "Empty character literal"
  | unterminatedChar => "Unterminated character literal"
  | unterminatedString => "Unterminated string literal"
  | nonAsciiChar c => "Character literal '" ++ String.singleton c ++ "' is not ASCII"
  | unknownSymbol c =>
    "Unknown symbol '" ++ String.singleton c ++ "' at (" ++ Nat.repr p.line ++ ", "
      ++ Nat.repr p.column ++ ")"

inductive LayoutFault where
  | missingBlock
  | unexpectedIndent
  | inconsistentDedent
  deriving DecidableEq, Repr

def LayoutFault.message : LayoutFault → String
  | missingBlock => "expected an indented block"
  | unexpectedIndent => "indentation increase but not in new block"
  | inconsistentDedent => "inconsistent indentation"

end Offside
