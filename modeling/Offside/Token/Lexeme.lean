import Offside.Token.Basic
import Offside.Token.Fault

/-! The shapes of single lexemes.

Each recogniser looks at the front of a text and says how many characters it uses up and what they
are, or what is wrong with them and at which offset the fault shows. None of them knows a position:
that follows from the number of characters used. A recogniser may be asked anywhere; what it does
before a text that does not start like its lexeme is part of its answer. -/
namespace Offside

open Text Number

/-- What stands at the front of a text. -/
structure Lexeme where
  /-- The token, or the fault with the offset of the character it shows at. -/
  outcome : Except (LexicalFault × Nat) TokenKind
  /-- The number of characters used up, also by a fault. -/
  length : Nat

namespace Lexeme

def ok (kind : TokenKind) (length : Nat) : Lexeme := ⟨.ok kind, length⟩

def fail (fault : LexicalFault) (offset length : Nat) : Lexeme := ⟨.error (fault, offset), length⟩

/-! ### Words -/

/-- A keyword or a name: the longest run of word characters. -/
def word (text : List Char) : Lexeme :=
  let chars := text.takeWhile isWordPart
  let name := String.ofList chars
  match Keyword.ofSpelling name with
  | some k => ok (.keyword k) chars.length
  | none => ok (.identifier name) chars.length

/-! ### Numbers -/

/-- The digits behind `0x`. -/
def hexNumber (text : List Char) : Lexeme :=
  let digits := text.takeWhile isHexDigit
  match readWord 16 digits with
  | some n => ok (.int n) (digits.length + 2)
  | none => fail (.invalidHex digits) 0 (digits.length + 2)

/-- The parts of a decimal number, each with the digits it was written with. -/
structure Numeral where
  whole : List Char
  /-- The digits behind the point. -/
  fraction : Option (List Char)
  /-- Sign, if written, and digits of the exponent. -/
  power : Option (Option Char × List Char)

namespace Numeral

/-- A point belongs to the number only if a digit follows it. -/
def takeFraction : List Char → Option (List Char)
  | '.' :: c :: rest => if isDigit c then some ((c :: rest).takeWhile isDigit) else none
  | _ => none

/-- An exponent belongs to the number only if it has a digit. -/
def takePower : List Char → Option (Option Char × List Char)
  | e :: s :: rest =>
    if e = 'e' || e = 'E' then
      if s = '+' || s = '-' then
        match rest with
        | c :: _ => if isDigit c then some (some s, rest.takeWhile isDigit) else none
        | [] => none
      else if isDigit s then some (none, (s :: rest).takeWhile isDigit)
      else none
    else none
  | _ => none

/-- The longest number at the front of a text. -/
def take (text : List Char) : Numeral :=
  let whole := text.takeWhile isDigit
  let rest := text.dropWhile isDigit
  let fraction := takeFraction rest
  let used := match fraction with
    | some digits => digits.length + 1
    | none => 0
  ⟨whole, fraction, takePower (rest.drop used)⟩

def fractionText (n : Numeral) : List Char :=
  match n.fraction with
  | some digits => '.' :: digits
  | none => []

def powerText (n : Numeral) : List Char :=
  match n.power with
  | some (some sign, digits) => 'e' :: sign :: digits
  | some (none, digits) => 'e' :: digits
  | none => []

/-- The number as written, except that the exponent is marked with a small letter. -/
def text (n : Numeral) : List Char :=
  n.whole ++ n.fractionText ++ n.powerText

def isFloat (n : Numeral) : Bool :=
  n.fraction.isSome || n.power.isSome

def exponent (n : Numeral) : Int :=
  match n.power with
  | some (some '-', digits) => -(digitsValue 10 digits : Int)
  | some (_, digits) => digitsValue 10 digits
  | none => 0

/-- The double nearest to the number. -/
def value (n : Numeral) : Double :=
  let fraction := n.fraction.getD []
  Double.ofDecimal (digitsValue 10 (n.whole ++ fraction)) (n.exponent - fraction.length)

end Numeral

/-- A decimal number. Without a digit before the exponent it is none. -/
def decimalNumber (text : List Char) : Lexeme :=
  let n := Numeral.take text
  let length := n.text.length
  if n.isFloat then
    if n.whole.isEmpty && n.fraction.isNone then fail (.invalidFloat n.text) 0 length
    else ok (.float n.value) length
  else
    match readWord 10 n.whole with
    | some value => ok (.int value) length
    | none => fail (.invalidInt n.whole) 0 length

def number : List Char → Lexeme
  | '0' :: x :: rest =>
    if x = 'x' || x = 'X' then hexNumber rest else decimalNumber ('0' :: x :: rest)
  | text => decimalNumber text

/-! ### Characters and strings -/

/-- The closing quote of a character literal, behind `used` characters. Whatever stands in its place
is used up as well. -/
def closeCharacter (c : Char) (used : Nat) (rest : List Char) : Lexeme :=
  if !isAscii c then fail (.nonAsciiChar c) 0 used
  else
    match rest with
    | '\'' :: _ => ok (.char c) (used + 1)
    | _ :: _ => fail .unterminatedChar 0 (used + 1)
    | [] => fail .unterminatedChar 0 used

/-- A character between single quotes. The first character is taken for the opening quote. -/
def character : List Char → Lexeme
  | [] => fail .unterminatedChar 0 0
  | [_] => fail .unterminatedChar 0 1
  | _ :: '\n' :: _ => fail .unterminatedChar 0 2
  | _ :: '\'' :: _ => fail .emptyChar 0 2
  | [_, '\\'] => fail .unterminatedChar 2 2
  | _ :: '\\' :: e :: rest =>
    match unescape e with
    | some c => closeCharacter c 3 rest
    | none => fail (.invalidEscape e) 2 3
  | _ :: c :: rest => closeCharacter c 2 rest

/-- The inside of a string, behind `used` characters; `soFar` holds its characters in reverse. A
string with three quotes on each side may go on over several lines. -/
def stringBody (triple : Bool) (used : Nat) (soFar : List Char) : List Char → Lexeme
  | [] => fail .unterminatedString 0 used
  | '\\' :: [] => fail .unterminatedString (used + 1) (used + 1)
  | '\\' :: e :: rest =>
    match unescape e with
    | some c => stringBody triple (used + 2) (c :: soFar) rest
    | none => fail (.invalidEscape e) (used + 1) (used + 2)
  | c :: rest =>
    if !triple && c = '\n' then fail .unterminatedString 0 used
    else if !triple && c = '"' then ok (.string (String.ofList soFar.reverse)) (used + 1)
    else if triple && ['"', '"', '"'].isPrefixOf (c :: rest) then
      ok (.string (String.ofList soFar.reverse)) (used + 3)
    else stringBody triple (used + 1) (c :: soFar) rest

/-- A string between double quotes. The first character is taken for the opening quote. -/
def string : List Char → Lexeme
  | [] => fail .unterminatedString 0 0
  | _ :: '"' :: '"' :: rest => stringBody true 3 [] rest
  | _ :: rest => stringBody false 1 [] rest

/-! ### Symbols -/

/-- The longest symbol at the front of a text. -/
def longestSymbol : List Char → Option Symbol
  | '+' :: '+' :: _ => some .plusPlus
  | '+' :: _ => some .plus
  | '-' :: '-' :: _ => some .minusMinus
  | '-' :: '>' :: _ => some .arrow
  | '-' :: _ => some .minus
  | '*' :: _ => some .star
  | '/' :: _ => some .slash
  | '%' :: _ => some .percent
  | '&' :: _ => some .ampersand
  | '|' :: _ => some .pipe
  | '^' :: _ => some .caret
  | '~' :: _ => some .tilde
  | '=' :: '=' :: _ => some .equalEqual
  | '=' :: _ => some .equal
  | '<' :: '<' :: _ => some .leftShift
  | '<' :: '=' :: _ => some .lessEqual
  | '<' :: _ => some .less
  | '>' :: '>' :: _ => some .rightShift
  | '>' :: '=' :: _ => some .greaterEqual
  | '>' :: _ => some .greater
  | '!' :: '=' :: _ => some .bangEqual
  | '.' :: '.' :: '.' :: _ => some .ellipsis
  | '.' :: _ => some .dot
  | ':' :: _ => some .colon
  | ',' :: _ => some .comma
  | '(' :: _ => some .leftParen
  | ')' :: _ => some .rightParen
  | '[' :: _ => some .leftBracket
  | ']' :: _ => some .rightBracket
  | '\x7b' :: _ => some .leftBrace
  | '\x7d' :: _ => some .rightBrace
  | _ => none

def operator : List Char → Lexeme
  | [] => ok .endOfFile 0
  | c :: rest =>
    match longestSymbol (c :: rest) with
    | some s => ok (.symbol s) s.spelling.length
    | none => fail (.unknownSymbol c) 0 1

/-- The lexeme that the first character announces. -/
def ofText : List Char → Lexeme
  | [] => ok .endOfFile 0
  | c :: rest =>
    if isWordStart c then word (c :: rest)
    else if isDigit c then number (c :: rest)
    else if c = '\'' then character (c :: rest)
    else if c = '"' then string (c :: rest)
    else operator (c :: rest)

end Lexeme

end Offside
