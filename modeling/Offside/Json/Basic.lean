import Offside.Number.Decimal
import Offside.Number.Shortest

/-! JSON values and how they are written.

Lists and objects that hold anything have a line for each item, two blanks further in than the bracket.
A number without a finite value is written as `null`. -/
namespace Offside

inductive Json where
  | null
  | bool (value : Bool)
  | int (value : Int)
  | float (value : Number.Double)
  | string (value : String)
  | array (items : List Json)
  | object (members : List (String × Json))

namespace Json

/-- A value that is there or not. -/
def ofOption {α : Type} (encode : α → Json) : Option α → Json
  | none => null
  | some a => encode a

def ofNat (n : Nat) : Json := int n

/-- A value under the name of its kind. -/
def tagged (name : String) (value : Json) : Json := object [(name, value)]

/-- A character inside a string. -/
def escapedChar (c : Char) : List Char :=
  if c = '"' then ['\\', '"']
  else if c = '\\' then ['\\', '\\']
  else if c = '\n' then ['\\', 'n']
  else if c = '\r' then ['\\', 'r']
  else if c = '\t' then ['\\', 't']
  else if c = '\x08' then ['\\', 'b']
  else if c = '\x0c' then ['\\', 'f']
  else if c.toNat < 32 then
    ['\\', 'u', '0', '0', Nat.digitChar (c.toNat / 16), Nat.digitChar (c.toNat % 16)]
  else [c]

def quotedText (s : String) : String :=
  "\"" ++ String.ofList (s.toList.flatMap escapedChar) ++ "\""

/-- The start of a line at a depth. -/
def lineStart (depth : Nat) : String := "\n" ++ String.ofList (List.replicate (2 * depth) ' ')

/-- Items between brackets, a line each. -/
def bracketed (opening closing : String) (depth : Nat) (items : List String) : String :=
  if items.isEmpty then opening ++ closing
  else
    opening ++ String.intercalate "," (items.map fun item => lineStart (depth + 1) ++ item)
      ++ lineStart depth ++ closing

mutual

/-- The written form of a value whose line starts at a depth. -/
def textAt (depth : Nat) : Json → String
  | null => "null"
  | bool value => if value then "true" else "false"
  | int value => Number.decimal value
  | float value => if value.isFinite then value.text else "null"
  | string value => quotedText value
  | array items => bracketed "[" "]" depth (itemTexts (depth + 1) items)
  | object members => bracketed "\x7b" "\x7d" depth (memberTexts (depth + 1) members)
termination_by structural j => j

def itemTexts (depth : Nat) : List Json → List String
  | [] => []
  | j :: rest => j.textAt depth :: itemTexts depth rest
termination_by structural js => js

def memberTexts (depth : Nat) : List (String × Json) → List String
  | [] => []
  | m :: rest => memberText depth m :: memberTexts depth rest
termination_by structural ms => ms

def memberText (depth : Nat) : String × Json → String
  | (name, value) => quotedText name ++ ": " ++ value.textAt depth
termination_by structural m => m

end

def text (j : Json) : String := j.textAt 0

end Json

end Offside
