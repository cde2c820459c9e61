import Offside.Number.Decimal
import Offside.Number.Shortest
import Offside.Source.Position
import Offside.Text.Escape

/-! Tokens.

A token is a keyword, a symbol, a literal, a name, or layout: a newline, the opening and the closing
of an indented block, and the end of the file. Leading blanks are tokens too, but only until the
layout of the lines has been worked out. Keywords and symbols are told by their spelling, and each
spelling belongs to one of them (`Keyword.ofSpelling_spelling`). -/
namespace Offside

inductive Keyword where
  | def_ | pass_ | if_ | elif_ | else_ | while_ | do_ | switch_ | case_ | return_ | break_
  | not_ | and_ | or_ | define_ | include_ | ifndef_ | endif_ | enum_ | struct_ | typedef_
  | sizeof_ | null_
  deriving DecidableEq, Repr

namespace Keyword

def all : List Keyword :=
  [def_, pass_, if_, elif_, else_, while_, do_, switch_, case_, return_, break_, not_, and_, or_,
   define_, include_, ifndef_, endif_, enum_, struct_, typedef_, sizeof_, null_]

def spelling : Keyword → String
  | def_ => "def" | pass_ => "pass" | if_ => "if" | elif_ => "elif" | else_ => "else"
  | while_ => "while" | do_ => "do" | switch_ => "switch" | case_ => "case"
  | return_ => "return" | break_ => "break" | not_ => "not" | and_ => "and" | or_ => "or"
  | define_ => "define" | include_ => "include" | ifndef_ => "ifndef" | endif_ => "endif"
  | enum_ => "enum" | struct_ => "struct" | typedef_ => "typedef" | sizeof_ => "sizeof"
  | null_ => "NULL"

def ofSpelling (word : String) : Option Keyword :=
  all.find? fun k => k.spelling == word

theorem ofSpelling_spelling (k : Keyword) : ofSpelling k.spelling = some k := by
  cases k <;> decide

end Keyword

inductive Symbol where
  | plus | minus | star | slash | percent | ampersand | pipe | caret | tilde
  | equal | less | greater | colon
  | plusPlus | minusMinus | leftShift | rightShift | lessEqual | greaterEqual | equalEqual | bangEqual
  | leftParen | rightParen | leftBrace | rightBrace | leftBracket | rightBracket
  | comma | dot | arrow | ellipsis
  deriving DecidableEq, Repr

def Symbol.all : List Symbol :=
  [.plus, .minus, .star, .slash, .percent, .ampersand, .pipe, .caret, .tilde, .equal, .less,
   .greater, .colon, .plusPlus, .minusMinus, .leftShift, .rightShift, .lessEqual, .greaterEqual,
   .equalEqual, .bangEqual, .leftParen, .rightParen, .leftBrace, .rightBrace, .leftBracket,
   .rightBracket, .comma, .dot, .arrow, .ellipsis]

def Symbol.spelling : Symbol → String
  | .plus => "+" | .minus => "-" | .star => "*" | .slash => "/" | .percent => "%"
  | .ampersand => "&" | .pipe => "|" | .caret => "^" | .tilde => "~"
  | .equal => "=" | .less => "<" | .greater => ">" | .colon => ":"
  | .plusPlus => "++" | .minusMinus => "--" | .leftShift => "<<" | .rightShift => ">>"
  | .lessEqual => "<=" | .greaterEqual => ">=" | .equalEqual => "==" | .bangEqual => "!="
  | .leftParen => "(" | .rightParen => ")" | .leftBrace => "\x7b" | .rightBrace => "\x7d"
  | .leftBracket => "[" | .rightBracket => "]"
  | .comma => "," | .dot => "." | .arrow => "->" | .ellipsis => "..."

inductive TokenKind where
  | int (value : Int)
  | float (value : Number.Double)
  | char (value : Char)
  | string (value : String)
  | identifier (name : String)
  | keyword (word : Keyword)
  | symbol (sign : Symbol)
  /-- Blanks at the start of a line, with their number. -/
  | whitespace (width : Nat)
  | newline
  | indent
  | dedent
  | endOfFile
  deriving DecidableEq, Repr

namespace TokenKind

/-- What a keyword or symbol is written as; other tokens have no fixed spelling. -/
def spelling : TokenKind → Option String
  | keyword k => some k.spelling
  | symbol s => some s.spelling
  | _ => none

/-- A token as messages show it. -/
def text : TokenKind → String
  | int n => Number.decimal n
  | float x => x.text
  | char c => "'" ++ Text.visibleChar c ++ "'"
  | string s => "\"" ++ Text.visible s ++ "\""
  | identifier name => name
  | keyword k => k.spelling
  | symbol s => s.spelling
  | whitespace w => "WS(" ++ Nat.repr w ++ ")"
  | newline => "NEWLINE"
  | indent => "INDENT"
  | dedent => "DEDENT"
  | endOfFile => "EOF"

end TokenKind

structure Token where
  kind : TokenKind
  span : Span
  deriving DecidableEq, Repr

namespace Token

/-- A token that takes up no text. -/
def atPoint (kind : TokenKind) (l : Location) : Token :=
  ⟨kind, Span.point l⟩

/-- Where the token starts. -/
def start (t : Token) : Location := t.span.start

def text (t : Token) : String :=
  t.kind.text ++ " at " ++ t.start.text

end Token

end Offside
