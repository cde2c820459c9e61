import Offside.Failure
import Offside.Token.Lexeme

/-! From characters to raw tokens.

A `Scanner` is a place in a text together with the brackets open there and whether a line starts. A step
(`next`) passes over what carries no meaning, reads one lexeme and moves on by its length, also when the
lexeme is faulty, so that scanning can go on. Every step short of the end uses up a character, which is
why all tokens of a text are found in no more steps than it has characters, and one for its end. -/
namespace Offside

open Text

/-- Line ends written as carriage return and line feed become plain line feeds. -/
def foldLineEnds : List Char → List Char
  | '\r' :: '\n' :: rest => '\n' :: foldLineEnds rest
  | c :: rest => c :: foldLineEnds rest
  | [] => []

/-- How many brackets of each kind are open. -/
structure Brackets where
  parens : Nat := 0
  squares : Nat := 0
  braces : Nat := 0
  deriving DecidableEq, Repr

namespace Brackets

/-- Whether line ends are without meaning. -/
def isOpen (b : Brackets) : Bool :=
  b.parens + b.squares + b.braces > 0

/-- The brackets open behind a token; a closing bracket without its partner changes nothing. -/
def after (b : Brackets) : TokenKind → Brackets
  | .symbol .leftParen => { b with parens := b.parens + 1 }
  | .symbol .rightParen => { b with parens := b.parens - 1 }
  | .symbol .leftBracket => { b with squares := b.squares + 1 }
  | .symbol .rightBracket => { b with squares := b.squares - 1 }
  | .symbol .leftBrace => { b with braces := b.braces + 1 }
  | .symbol .rightBrace => { b with braces := b.braces - 1 }
  | _ => b

end Brackets

def isBlank (c : Char) : Bool := c == ' ' || c == '\t'

/-- The number of characters without meaning at the front of a text: comments, continued lines, and
blanks and line ends where they are said to mean nothing. -/
def triviaLength (blanks newlines : Bool) : (comment : Bool) → List Char → Nat
  | _, [] => 0
  | _, '\n' :: rest => if newlines then triviaLength blanks newlines false rest + 1 else 0
  | true, _ :: rest => triviaLength blanks newlines true rest + 1
  | false, '#' :: rest => triviaLength blanks newlines true rest + 1
  | false, '\\' :: '\n' :: rest => triviaLength blanks newlines false rest + 2
  | false, c :: rest =>
    if blanks && isBlank c then triviaLength blanks newlines false rest + 1 else 0

structure Scanner where
  file : String
  rest : List Char
  position : Position := .start
  brackets : Brackets := {}
  atLineStart : Bool := true

namespace Scanner

def ofText (file text : String) : Scanner :=
  { file, rest := foldLineEnds text.toList }

def location (s : Scanner) : Location := ⟨s.file, s.position⟩

/-- Moves on by a number of characters. -/
def advance (s : Scanner) (n : Nat) : Scanner :=
  { s with rest := s.rest.drop n, position := s.position.afterAll (s.rest.take n) }

/-- Passes over what carries no meaning. Blanks count at the start of a line outside brackets. -/
def skipTrivia (s : Scanner) : Scanner :=
  s.advance (triviaLength (!s.atLineStart || s.brackets.isOpen) s.brackets.isOpen false s.rest)

/-- Uses up a lexeme at the front of the text. -/
def take (s : Scanner) (lexeme : Lexeme) : Except Failure TokenKind × Scanner :=
  let outcome := match lexeme.outcome with
    | .ok kind => .ok kind
    | .error (fault, offset) => .error (.lexical fault (s.advance offset).location)
  (outcome, s.advance lexeme.length)

/-- Notes what a token changes for the tokens behind it. -/
def note (s : Scanner) (kind : TokenKind) : Scanner :=
  match kind with
  | .whitespace _ | .endOfFile => s
  | .newline => { s with atLineStart := true }
  | _ => { s with atLineStart := false, brackets := s.brackets.after kind }

/-- The lexeme at the front of a text, layout included: runs of line ends and of blanks are one token
each. -/
def front : List Char → Lexeme
  | [] => .ok .endOfFile 0
  | c :: rest =>
    if isBlank c then
      let width := ((c :: rest).takeWhile isBlank).length
      .ok (.whitespace width) width
    else if c = '\n' then .ok .newline ((c :: rest).takeWhile (· == '\n')).length
    else .ofText (c :: rest)

/-- The next raw token. -/
def next (s : Scanner) : Except Failure Token × Scanner :=
  let s := s.skipTrivia
  match s.take (front s.rest) with
  | (.ok kind, after) => (.ok ⟨kind, ⟨s.location, after.location⟩⟩, after.note kind)
  | (.error failure, after) => (.error failure, after)

/-- What stands at the front read as a lexeme of a given kind, wherever that may be. -/
def readNumber (s : Scanner) : Except Failure TokenKind × Scanner := s.take (.number s.rest)
def readCharacter (s : Scanner) : Except Failure TokenKind × Scanner := s.take (.character s.rest)
def readString (s : Scanner) : Except Failure TokenKind × Scanner := s.take (.string s.rest)
def readOperator (s : Scanner) : Except Failure TokenKind × Scanner := s.take (.operator s.rest)

/-- Raw tokens and faults up to the end of the file, at most `fuel` of them. -/
def run : Nat → Scanner → List (Except Failure Token) × Scanner
  | 0, s => ([], s)
  | fuel + 1, s =>
    match s.next with
    | (.ok t, after) =>
      if t.kind = .endOfFile then ([.ok t], after)
      else
        let (more, last) := run fuel after
        (.ok t :: more, last)
    | (.error failure, after) =>
      let (more, last) := run fuel after
      (.error failure :: more, last)

/-- All raw tokens and faults of the text that is left. -/
def all (s : Scanner) : List (Except Failure Token) × Scanner :=
  run (s.rest.length + 1) s

end Scanner

end Offside
