/-! Places in a source text.

A `Position` is a line and a column, both counted from one. Reading a character moves it
(`Position.after`), so the position behind a stretch of text is a fold over that text and splits
where the text splits (`afterAll_append`). A `Location` adds the file, a `Span` has two ends. Lines and
columns have no greatest number here: texts with 2^32 or more of either are out of scope. -/
namespace Offside

structure Position where
  line : Nat
  column : Nat
  deriving DecidableEq, Repr, Inhabited

namespace Position

/-- Where every text begins. -/
def start : Position := ⟨1, 1⟩

/-- The position behind one more character: a line feed opens the next line. -/
def after (p : Position) (c : Char) : Position :=
  if c = '\n' then ⟨p.line + 1, 1⟩ else ⟨p.line, p.column + 1⟩

/-- The position behind a stretch of text. -/
def afterAll (p : Position) (text : List Char) : Position :=
  text.foldl after p

/-- Every position passed while reading a text, the first one included. -/
def trail (p : Position) : List Char → List Position
  | [] => [p]
  | c :: rest => p :: trail (p.after c) rest

/-- Reading order. -/
def precedes (p q : Position) : Bool :=
  p.line < q.line || (p.line == q.line && p.column ≤ q.column)

theorem afterAll_append (p : Position) (s t : List Char) :
    p.afterAll (s ++ t) = (p.afterAll s).afterAll t := by
  simp [afterAll, List.foldl_append]

theorem precedes_refl (p : Position) : p.precedes p = true := by
  simp [precedes]

theorem precedes_after (p : Position) (c : Char) : p.precedes (p.after c) = true := by
  unfold after precedes
  split <;> simp

end Position

structure Location where
  file : String
  position : Position
  deriving DecidableEq, Repr, Inhabited

namespace Location

/-- The file name of a text that has none. -/
def anonymous : String := "<input>"

/-- Stands where no place in a text is meant. -/
def unknown : Location := ⟨"<unknown>", ⟨0, 0⟩⟩

def line (l : Location) : Nat := l.position.line

def column (l : Location) : Nat := l.position.column

/-- Reading order within one file. -/
def precedes (l m : Location) : Bool := l.position.precedes m.position

/-- The written form `file:line:column`. -/
def text (l : Location) : String :=
  l.file ++ ":" ++ Nat.repr l.line ++ ":" ++ Nat.repr l.column

end Location

/-- A stretch of text, from the start of its first character to behind its last. -/
structure Span where
  start : Location
  stop : Location
  deriving DecidableEq, Repr, Inhabited

namespace Span

/-- The empty stretch at a place. -/
def point (l : Location) : Span := ⟨l, l⟩

def unknown : Span := point .unknown

/-- The least span around both. Spans of different files have none: the first is kept. -/
def extend (s t : Span) : Span :=
  if s.start.file = t.start.file then
    ⟨if s.start.precedes t.start then s.start else t.start,
     if t.stop.precedes s.stop then s.stop else t.stop⟩
  else s

/-- The written form: a point as a place, a line's stretch as `file:line:from-to`. -/
def text (s : Span) : String :=
  if s.start.file ≠ s.stop.file then s.start.text ++ " to " ++ s.stop.text
  else if s.start = s.stop then s.start.text
  else if s.start.line = s.stop.line then s.start.text ++ "-" ++ Nat.repr s.stop.column
  else s.start.text ++ "-" ++ Nat.repr s.stop.line ++ ":" ++ Nat.repr s.stop.column

end Span

end Offside
