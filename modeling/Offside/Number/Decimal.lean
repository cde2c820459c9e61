import Offside.Text.Letter

/-! Numerals: how whole numbers are read and written.

`digitsValue` reads digits of a base up to sixteen, most significant first. Whole numbers of the
language are words of 64 bits with a sign (`fitsWord`); their written form is `decimal`. -/
namespace Offside.Number

open Text

/-- The value of a digit, of either case above nine. -/
def digitValue (c : Char) : Nat :=
  if isDigit c then c.toNat - '0'.toNat
  else if 'a' ≤ c && c ≤ 'f' then c.toNat - 'a'.toNat + 10
  else c.toNat - 'A'.toNat + 10

def isHexDigit (c : Char) : Bool :=
  isDigit c || ('a' ≤ c && c ≤ 'f') || ('A' ≤ c && c ≤ 'F')

/-- The number that a row of digits stands for. -/
def digitsValue (base : Nat) (digits : List Char) : Nat :=
  digits.foldl (fun n c => n * base + digitValue c) 0

theorem digitsValue_append_singleton (base : Nat) (digits : List Char) (c : Char) :
    digitsValue base (digits ++ [c]) = digitsValue base digits * base + digitValue c := by
  simp [digitsValue, List.foldl_append]

/-- The least and the greatest word. -/
def wordMin : Int := -9223372036854775808
def wordMax : Int := 9223372036854775807

/-- Whether a number fits a signed word of 64 bits. -/
def fitsWord (n : Int) : Bool :=
  wordMin ≤ n && n ≤ wordMax

/-- The word a row of digits stands for: there is none for no digits or for too great a number. -/
def readWord (base : Nat) (digits : List Char) : Option Int :=
  let n : Int := digitsValue base digits
  if digits.isEmpty || !fitsWord n then none else some n

/-- The decimal form of a number, with a sign only if it is negative. -/
def decimal (n : Int) : String :=
  if n < 0 then "-" ++ Nat.repr n.natAbs else Nat.repr n.natAbs

end Offside.Number
