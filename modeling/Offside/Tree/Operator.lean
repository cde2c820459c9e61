import Offside.Token.Basic

/-! Operators and how tightly they bind.

Binary operators have ten levels, from `or` to the products; prefix operators and casts bind tighter,
and what follows an operand (calls, indices, members, `++`, `--`) binds tightest. -/
namespace Offside

inductive BinaryOp where
  | add | sub | mul | div | mod
  | bitAnd | bitOr | bitXor | leftShift | rightShift
  | logicalAnd | logicalOr
  | equal | notEqual | less | greater | lessEqual | greaterEqual
  deriving DecidableEq, Repr

inductive Associativity where
  | left
  | right
  deriving DecidableEq, Repr

namespace BinaryOp

def all : List BinaryOp :=
  [add, sub, mul, div, mod, bitAnd, bitOr, bitXor, leftShift, rightShift, logicalAnd, logicalOr,
   equal, notEqual, less, greater, lessEqual, greaterEqual]

def isComparison : BinaryOp → Bool
  | equal | notEqual | less | greater | lessEqual | greaterEqual => true
  | _ => false

def isLogical : BinaryOp → Bool
  | logicalAnd | logicalOr => true
  | _ => false

def isBitwise : BinaryOp → Bool
  | bitAnd | bitOr | bitXor | leftShift | rightShift => true
  | _ => false

/-- The token that spells the operator. -/
def token : BinaryOp → TokenKind
  | add => .symbol .plus | sub => .symbol .minus | mul => .symbol .star | div => .symbol .slash
  | mod => .symbol .percent | bitAnd => .symbol .ampersand | bitOr => .symbol .pipe
  | bitXor => .symbol .caret | leftShift => .symbol .leftShift | rightShift => .symbol .rightShift
  | logicalAnd => .keyword .and_ | logicalOr => .keyword .or_
  | equal => .symbol .equalEqual | notEqual => .symbol .bangEqual | less => .symbol .less
  | greater => .symbol .greater | lessEqual => .symbol .lessEqual
  | greaterEqual => .symbol .greaterEqual

def text (op : BinaryOp) : String := op.token.text

/-- The operator that a token spells between two operands. -/
def ofToken : TokenKind → Option BinaryOp
  | .keyword .or_ => some logicalOr
  | .keyword .and_ => some logicalAnd
  | .symbol s =>
    match s with
    | .pipe => some bitOr | .caret => some bitXor | .ampersand => some bitAnd
    | .equalEqual => some equal | .bangEqual => some notEqual
    | .less => some less | .greater => some greater
    | .lessEqual => some lessEqual | .greaterEqual => some greaterEqual
    | .leftShift => some leftShift | .rightShift => some rightShift
    | .plus => some add | .minus => some sub
    | .star => some mul | .slash => some div | .percent => some mod
    | _ => none
  | _ => none

theorem ofToken_token (op : BinaryOp) : ofToken op.token = some op := by
  cases op <;> rfl

theorem token_of_ofToken {t : TokenKind} {op : BinaryOp} (h : ofToken t = some op) :
    op.token = t := by
  unfold ofToken at h
  repeat' split at h
  all_goals simp only [Option.some.injEq, reduceCtorEq] at h
  all_goals
    subst h
    rfl

/-- Greater levels bind tighter. -/
def level : BinaryOp → Nat
  | logicalOr => 1
  | logicalAnd => 2
  | bitOr => 3
  | bitXor => 4
  | bitAnd => 5
  | equal | notEqual => 6
  | less | greater | lessEqual | greaterEqual => 7
  | leftShift | rightShift => 8
  | add | sub => 9
  | mul | div | mod => 10

/-- The ten levels, from the loosest to the tightest. -/
example : (List.range 10).map (fun n => all.filter fun op => op.level = n + 1) =
    [[logicalOr], [logicalAnd], [bitOr], [bitXor], [bitAnd], [equal, notEqual],
     [less, greater, lessEqual, greaterEqual], [leftShift, rightShift], [add, sub], [mul, div, mod]] := by
  decide

/-- All binary operators group to the left. -/
def associativity (_ : BinaryOp) : Associativity := .left

/-- The level that the right operand's operators have to exceed. -/
def rightLevel (op : BinaryOp) : Nat :=
  match op.associativity with
  | .left => op.level
  | .right => op.level - 1

end BinaryOp

/-- The level of prefix operators and casts. -/
def prefixLevel : Nat := 11

/-- The level of what follows an operand. -/
def postfixLevel : Nat := 12

/-- The level of operands without operators. -/
def primaryLevel : Nat := 13

inductive UnaryOp where
  | plus | minus | logicalNot | bitNot | addressOf | dereference
  | preIncrement | preDecrement | postIncrement | postDecrement
  deriving DecidableEq, Repr

namespace UnaryOp

def all : List UnaryOp :=
  [plus, minus, logicalNot, bitNot, addressOf, dereference, preIncrement, preDecrement,
   postIncrement, postDecrement]

def isPostfix : UnaryOp → Bool
  | postIncrement | postDecrement => true
  | _ => false

/-- Operators that write their operand. -/
def mutates : UnaryOp → Bool
  | preIncrement | preDecrement | postIncrement | postDecrement => true
  | _ => false

/-- The operator as written next to its operand: `not` keeps a blank. -/
def text : UnaryOp → String
  | plus => "+" | minus => "-" | logicalNot => "not " | bitNot => "~" | addressOf => "&"
  | dereference => "*"
  | preIncrement | postIncrement => "++"
  | preDecrement | postDecrement => "--"

/-- The operator's name in messages. -/
def name : UnaryOp → String
  | logicalNot => "not"
  | op => op.text

/-- The operator that a token spells before an operand. -/
def ofToken : TokenKind → Option UnaryOp
  | .keyword .not_ => some logicalNot
  | .symbol s =>
    match s with
    | .plus => some plus | .minus => some minus | .tilde => some bitNot
    | .ampersand => some addressOf | .star => some dereference
    | .plusPlus => some preIncrement | .minusMinus => some preDecrement
    | _ => none
  | _ => none

end UnaryOp

/-- Tokens that go on with an operand already read. -/
def TokenKind.followsOperand : TokenKind → Bool
  | .symbol s =>
    match s with
    | .plusPlus | .minusMinus | .dot | .arrow | .leftBracket | .leftParen => true
    | _ => false
  | _ => false

end Offside
