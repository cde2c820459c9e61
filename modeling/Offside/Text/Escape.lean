/-! Two ways to write characters that do not stand for themselves.

`unescape` is what a backslash and a letter mean in a literal, and `escape` is its inverse for one
kind of quote: together they let every literal be written back (`unescape_escapeLetter`). `visible` is
for messages only: there a character outside printable ASCII becomes its code point. -/
namespace Offside.Text

/-- The character that a backslash and `c` stand for. -/
def unescape : Char → Option Char
  | 'n' => some '\n'
  | 't' => some '\t'
  | 'r' => some '\r'
  | '0' => some '\x00'
  | '\\' => some '\\'
  | '\'' => some '\''
  | '"' => some '"'
  | _ => none

/-- The letter that follows the backslash, for characters that need one inside such quotes. -/
def escapeLetter (quote c : Char) : Option Char :=
  if c = '\n' then some 'n'
  else if c = '\t' then some 't'
  else if c = '\r' then some 'r'
  else if c = '\x00' then some '0'
  else if c = '\\' then some '\\'
  else if c = quote then some c
  else none

def escapeChar (quote c : Char) : List Char :=
  match escapeLetter quote c with
  | some e => ['\\', e]
  | none => [c]

/-- A text between quotes as a literal writes it. -/
def escape (quote : Char) (text : List Char) : List Char :=
  quote :: text.flatMap (escapeChar quote) ++ [quote]

theorem unescape_escapeLetter {quote c e : Char} (hq : quote = '"' ∨ quote = '\'')
    (h : escapeLetter quote c = some e) : unescape e = some c := by
  unfold escapeLetter at h
  repeat' split at h
  all_goals simp only [Option.some.injEq, reduceCtorEq] at h
  all_goals subst h
  case isFalse.isFalse.isFalse.isFalse.isFalse.isTrue hc =>
    subst hc
    rcases hq with rfl | rfl <;> rfl
  all_goals
    subst_vars
    rfl

/-- A character as messages show it. -/
def visibleChar (c : Char) : String :=
  if c = '\t' then "\\t"
  else if c = '\r' then "\\r"
  else if c = '\n' then "\\n"
  else if c = '\'' || c = '"' || c = '\\' then String.ofList ['\\', c]
  else if ' ' ≤ c && c ≤ '~' then String.singleton c
  else "\\u\x7b" ++ String.ofList (Nat.toDigits 16 c.toNat) ++ "\x7d"

/-- A text as messages show it. -/
def visible (text : String) : String :=
  text.toList.foldl (fun shown c => shown ++ visibleChar c) ""

end Offside.Text
