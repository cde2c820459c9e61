import Offside.Token.Stream
import Offside.Tree.Basic

/-! Reading tokens one after another.

A `Cursor` is what is left of a token stream, together with the end of the last token taken and the
next free node number. Behind the last token there are as many ends of file as are asked for. What cut
the stream short is reported once, when the tokens before it have been used up; from then on the stream
counts as ended. A cursor keeps its place also when reading fails, so reading can go on from there. -/
namespace Offside

structure Cursor where
  file : String
  tokens : List Token
  failure : Option Failure
  lastEnd : Location
  nextId : Nat := 0

def Cursor.ofStream (s : TokenStream) : Cursor :=
  { file := s.file, tokens := s.tokens, failure := s.failure, lastEnd := ⟨s.file, .start⟩ }

/-- The cursor at the start of a text. -/
def Cursor.ofText (file text : String) : Cursor :=
  .ofStream (.ofText file text)

/-- More than the depth to which reading what is left can nest: between two tokens taken there are at
most a handful of calls. -/
def Cursor.depthBound (c : Cursor) : Nat := 10 * (c.tokens.length + 10)

/-- The end of file that stands behind the last token. -/
def Cursor.ending (c : Cursor) : Token := .atPoint .endOfFile c.lastEnd

abbrev Parse := EStateM Failure Cursor

namespace Parse

/-- What to do when the tokens are used up: report what cut them short, or go on with `ending`. -/
def pastEnd : Parse Token := do
  let c ← get
  match c.failure with
  | some failure =>
    set { c with failure := none }
    throw failure
  | none => return c.ending

/-- The next `count` tokens, with ends of file in the places of those that are missing. Ends of file that
are made up behind a token keep their place; in front they are the same each time they are asked for. -/
def fill (count : Nat) : Parse (List Token) := do
  let front := (← get).tokens.take count
  if front.length < count then
    let padded := front ++ List.replicate (count - front.length) (← pastEnd)
    if !front.isEmpty then modify fun c => { c with tokens := padded }
    return padded
  else return front

/-- The token behind so many others, which stays where it is. -/
def peekNth (offset : Nat) : Parse Token := do
  match (← fill (offset + 1))[offset]? with
  | some t => return t
  | none => throw .underflow

/-- The next token. -/
def peek : Parse Token := peekNth 0

def peekKind : Parse TokenKind := return (← peek).kind

/-- The kind of the token behind the next one. -/
def peekSecond : Parse TokenKind := return (← peekNth 1).kind

/-- Takes the next token. -/
def advance : Parse Token := do
  match ← fill 1 with
  | t :: _ =>
    modify fun c =>
      { c with
        tokens := c.tokens.tail
        lastEnd := if t.kind = .endOfFile then c.lastEnd else t.span.stop }
    return t
  | [] => throw .underflow

/-- Whether the next token is of a kind. -/
def next (kind : TokenKind) : Parse Bool := return (← peek).kind = kind

/-- Takes the next token if it is of a kind. -/
def accept (kind : TokenKind) : Parse Bool := do
  if ← next kind then
    let _ ← advance
    return true
  else return false

def fail {α : Type} (fault : GrammarFault) (l : Location) : Parse α :=
  throw (.grammar fault l)

/-- Reports a token that is not what was wanted. -/
def unexpected {α : Type} (wanted : Expectation) (found : Token) : Parse α :=
  fail (.unexpected wanted found.kind) found.start

/-- Takes a token that has to be of a kind. -/
def expect (kind : TokenKind) (context : String) : Parse Unit := do
  let t ← advance
  if t.kind ≠ kind then unexpected (.token kind context) t

def expectSymbol (s : Symbol) (context : String) : Parse Unit :=
  expect (.symbol s) context

/-- Takes a token that has to be a name. -/
def expectName (context : String) : Parse (String × Span) := do
  let t ← advance
  match t.kind with
  | .identifier name => return (name, t.span)
  | _ => unexpected (.identifier context) t

/-- From a place to the end of the last token taken. -/
def spanFrom (start : Location) : Parse Span := return ⟨start, (← get).lastEnd⟩

/-- Numbers a node. Nodes are numbered when they are complete, so parts come before wholes. -/
def fresh : Parse Nat := do
  let c ← get
  set { c with nextId := c.nextId + 1 }
  return c.nextId

/-- The mark of a node that ends here. -/
def markFrom (start : Location) : Parse Mark := return ⟨← fresh, ← spanFrom start⟩

/-- Completes an expression that ends here. -/
def finish (start : Location) (build : ExprMark → Expr) : Parse Expr :=
  return build { ← markFrom start with }

/-- Whether a token ends a statement that fits on a line. -/
def endsLine : TokenKind → Bool
  | .newline | .dedent | .endOfFile => true
  | _ => false

/-- Takes the newline that ends a statement. The end of a block or of the file ends it too, and stays
for the block around it. -/
def endLine (context : String) : Parse Unit := do
  let kind ← peekKind
  if kind = .newline then
    let _ ← advance
  else if !endsLine kind then
    unexpected (.lineEnd context) (← advance)

end Parse

end Offside
