import Offside.Failure

/-! From lines to blocks.

Two machines read the raw tokens. `LineState` marks the token that starts a line and the token that has
to open a block: the first one behind a colon and a newline. `Indentation` turns the blanks at the start
of lines into tokens that open and close blocks, against a stack of the widths that are open. Blank
lines leave no newline behind. -/
namespace Offside

/-- How far the announcement of a block has come. -/
inductive Announcement where
  | none
  /-- Behind a colon. -/
  | possible
  /-- Behind a colon and a newline. -/
  | due
  deriving DecidableEq, Repr

structure LineState where
  atLineStart : Bool := true
  announced : Announcement := .none
  deriving DecidableEq, Repr

/-- A token with what its line says about it. -/
structure MarkedToken where
  token : Token
  atLineStart : Bool
  mustIndent : Bool
  deriving DecidableEq, Repr

def LineState.mark (s : LineState) (t : Token) : MarkedToken × LineState :=
  match t.kind with
  | .symbol .colon => (⟨t, s.atLineStart, false⟩, ⟨false, .possible⟩)
  | .newline =>
    (⟨t, s.atLineStart, false⟩, ⟨true, if s.announced = .possible then .due else s.announced⟩)
  | .whitespace _ => (⟨t, s.atLineStart, false⟩, s)
  | _ => (⟨t, s.atLineStart, s.announced = .due⟩, ⟨false, .none⟩)

structure Indentation where
  /-- Widths of the open blocks, innermost first. -/
  levels : List Nat := [0]
  /-- Width of the blanks that start the line. -/
  width : Nat := 0
  /-- Whether nothing but blanks has been seen since the last token of substance. -/
  afterBlanks : Bool := false
  deriving DecidableEq, Repr

namespace Indentation

def level (s : Indentation) : Nat := s.levels.headD 0

/-- The tokens that come out of a step, and why it failed if it did. -/
structure Step where
  out : List Token
  failure : Option Failure
  state : Indentation

/-- Closes blocks until the given widths are left. -/
def closeTo (s : Indentation) (levels : List Nat) (l : Location) : List Token × Indentation :=
  (List.replicate (s.levels.length - levels.length) (Token.atPoint .dedent l),
   { s with levels := levels })

/-- Takes one marked token. -/
def push (s : Indentation) (m : MarkedToken) : Step :=
  let t := m.token
  match t.kind with
  | .whitespace w => ⟨[], none, { s with width := w, afterBlanks := true }⟩
  | .newline =>
    ⟨if s.afterBlanks || m.atLineStart then [] else [t], none, { s with width := 0 }⟩
  | _ =>
    let s := { s with afterBlanks := false }
    if m.mustIndent then
      if s.width ≤ s.level || t.kind = .endOfFile then
        ⟨[], some (.layout .missingBlock t.start), s⟩
      else
        ⟨[Token.atPoint .indent t.start, t], none, { s with levels := s.width :: s.levels }⟩
    else if t.kind = .endOfFile then
      let (closing, s) := s.closeTo (s.levels.drop (s.levels.length - 1)) t.start
      ⟨closing ++ [t], none, s⟩
    else if m.atLineStart then
      if s.width > s.level then ⟨[], some (.layout .unexpectedIndent t.start), s⟩
      else if s.width < s.level then
        if s.levels.contains s.width then
          let (closing, s) := s.closeTo (s.levels.dropWhile (· != s.width)) t.start
          ⟨closing ++ [t], none, s⟩
        else ⟨[], some (.layout .inconsistentDedent t.start), s⟩
      else ⟨[t], none, s⟩
    else ⟨[t], none, s⟩

end Indentation

/-- Both machines side by side. -/
structure Layout where
  line : LineState := {}
  indentation : Indentation := {}

/-- Takes one raw token through both machines. -/
def Layout.push (s : Layout) (t : Token) : MarkedToken × Indentation.Step × Layout :=
  let (marked, line) := s.line.mark t
  let step := s.indentation.push marked
  (marked, step, ⟨line, step.state⟩)

end Offside
