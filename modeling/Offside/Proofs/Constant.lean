import Mathlib.Data.Int.Bitwise
import Offside.Constant

/-! Constant expressions as whole numbers.

`Expr.Evaluates` gives an expression its value over all whole numbers, where nothing overflows; `Expr.Within`
says that no number met on the way is too great for a word. Folding works in words of 64 bits. It gives
the value where the evaluation stays within words, and nothing where it does not, with one exception: a
left shift drops the bits that do not fit and goes on with the rest. So an expression has a value within
words exactly when it folds to that value and no shift in it drops bits (`Expr.evaluates_within_iff_fold`). -/
namespace Offside

variable {op : BinaryOp} {l n r v : Int}

open Number

/-! ### Words and their bits -/

theorem fitsWord_iff : fitsWord n ↔ -2 ^ 63 ≤ n ∧ n < 2 ^ 63 := by
  rw [fitsWord, Bool.and_eq_true, decide_eq_true_eq, decide_eq_true_eq, wordMin, wordMax]
  omega

theorem lt_word_iff_testBit {m : Nat} : m < 2 ^ 63 ↔ ∀ k, 63 ≤ k → m.testBit k = false := by
  refine ⟨fun h k hk => Nat.testBit_lt_two_pow (Nat.lt_of_lt_of_le h ?_), Nat.lt_pow_two_of_testBit m⟩
  exact Nat.pow_le_pow_right (by decide) hk

/-- From the sixty-third bit on a word repeats its sign. -/
theorem fitsWord_iff_testBit : fitsWord n ↔ ∃ sign, ∀ k, 63 ≤ k → n.testBit k = sign := by
  have hlast (m : Nat) : m.testBit (m + 63) = false := by
    refine Nat.testBit_lt_two_pow (Nat.lt_of_lt_of_le Nat.lt_two_pow_self ?_)
    exact Nat.pow_le_pow_right (by decide) (by omega)
  rw [fitsWord_iff]
  cases n with
  | ofNat m =>
    have hword : (-2 ^ 63 ≤ Int.ofNat m ∧ Int.ofNat m < 2 ^ 63) ↔ m < 2 ^ 63 := by
      rw [Int.ofNat_eq_natCast]
      omega
    rw [hword, lt_word_iff_testBit]
    refine ⟨fun h => ⟨false, h⟩, ?_⟩
    rintro ⟨sign, hbits⟩
    have hsign : sign = false := (hbits (m + 63) (by omega)).symm.trans (hlast m)
    exact hsign ▸ hbits
  | negSucc m =>
    have hword : (-2 ^ 63 ≤ Int.negSucc m ∧ Int.negSucc m < 2 ^ 63) ↔ m < 2 ^ 63 := by omega
    rw [hword, lt_word_iff_testBit]
    refine ⟨fun h => ⟨true, fun k hk => by simp [Int.testBit, h k hk]⟩, ?_⟩
    rintro ⟨sign, hbits⟩ k hk
    have hsign : sign = true := by
      rw [← hbits (m + 63) (by omega)]
      simp [Int.testBit, hlast]
    simpa [Int.testBit, hsign] using hbits k hk

theorem getLsbD_ofInt (w : Nat) (n : Int) (k : Nat) :
    (BitVec.ofInt w n).getLsbD k = (decide (k < w) && n.testBit k) := by
  cases n with
  | ofNat m => exact BitVec.getLsbD_ofNat w m k
  | negSucc m =>
    rw [BitVec.ofInt_negSucc_eq_not_ofNat, BitVec.getLsbD_not, BitVec.getLsbD_ofNat]
    by_cases hk : k < w <;> simp [Int.testBit, hk]

/-- A number that fits a word is what its word stands for. -/
theorem toInt_ofInt_word (h : fitsWord n) : (BitVec.ofInt 64 n).toInt = n := by
  obtain ⟨hlow, hhigh⟩ := fitsWord_iff.mp h
  exact BitVec.toInt_ofInt_eq_self (by decide) hlow hhigh

theorem fitsWord_toInt (b : BitVec 64) : fitsWord b.toInt := fitsWord_iff.mpr ⟨b.le_toInt, b.toInt_lt⟩

/-- An operation on words that works bit by bit is the same operation on all bits of the numbers. -/
theorem onBits_eq {f : BitVec 64 → BitVec 64 → BitVec 64} {g : Int → Int → Int} {b : Bool → Bool → Bool}
    (hf : ∀ x y k, k < 64 → (f x y).getLsbD k = b (x.getLsbD k) (y.getLsbD k))
    (hg : ∀ l r k, (g l r).testBit k = b (l.testBit k) (r.testBit k))
    (hl : fitsWord l) (hr : fitsWord r) :
    onBits f l r = g l r ∧ fitsWord (g l r) := by
  obtain ⟨signLeft, hleft⟩ := fitsWord_iff_testBit.mp hl
  obtain ⟨signRight, hright⟩ := fitsWord_iff_testBit.mp hr
  have hword : fitsWord (g l r) := by
    refine fitsWord_iff_testBit.mpr ⟨b signLeft signRight, fun k hk => ?_⟩
    rw [hg, hleft k hk, hright k hk]
  have hbits : f (BitVec.ofInt 64 l) (BitVec.ofInt 64 r) = BitVec.ofInt 64 (g l r) := by
    refine BitVec.eq_of_getLsbD_eq fun k hk => ?_
    rw [hf _ _ k hk, getLsbD_ofInt, getLsbD_ofInt, getLsbD_ofInt, hg]
    simp [hk]
  exact ⟨by rw [onBits, hbits, toInt_ofInt_word hword], hword⟩

/-- A shift to the left multiplies, in words. -/
theorem shiftLeft_ofInt (l : Int) (n : Nat) : (BitVec.ofInt 64 l).shiftLeft n = BitVec.ofInt 64 (l * 2 ^ n) := by
  have htwo : BitVec.twoPow 64 n = BitVec.ofInt 64 (2 ^ n) := by
    refine BitVec.eq_of_toNat_eq ?_
    rw [BitVec.toNat_twoPow, BitVec.toNat_ofInt]
    norm_cast
  rw [BitVec.ofInt_mul, ← htwo, ← BitVec.shiftLeft_eq_mul_twoPow]
  rfl

/-! ### Evaluation over all whole numbers -/

/-- The value of a binary operator, if it has one: quotients and remainders are cut towards zero, a shift
moves by less than the width of a word, and a comparison or connective is one or zero. -/
def BinaryOp.exact (op : BinaryOp) (l r : Int) : Option Int := match op with
  | .add => some (l + r)
  | .sub => some (l - r)
  | .mul => some (l * r)
  | .div => if r = 0 then none else some (l.tdiv r)
  | .mod => if r = 0 then none else some (l.tmod r)
  | .bitAnd => some (Int.land l r)
  | .bitOr => some (Int.lor l r)
  | .bitXor => some (Int.xor l r)
  | .leftShift => if 0 ≤ r ∧ r < 64 then some (l * 2 ^ r.toNat) else none
  | .rightShift => if 0 ≤ r ∧ r < 64 then some (l.fdiv (2 ^ r.toNat)) else none
  | .logicalAnd => some (if l ≠ 0 ∧ r ≠ 0 then 1 else 0)
  | .logicalOr => some (if l ≠ 0 ∨ r ≠ 0 then 1 else 0)
  | .equal => some (if l = r then 1 else 0)
  | .notEqual => some (if l ≠ r then 1 else 0)
  | .less => some (if l < r then 1 else 0)
  | .greater => some (if r < l then 1 else 0)
  | .lessEqual => some (if l ≤ r then 1 else 0)
  | .greaterEqual => some (if r ≤ l then 1 else 0)

def UnaryOp.exact (op : UnaryOp) (n : Int) : Option Int := match op with
  | .plus => some n
  | .minus => some (-n)
  | .bitNot => some (Int.lnot n)
  | .logicalNot => some (if n = 0 then 1 else 0)
  | _ => none

/-- The value of an expression of numerals, characters, names of known value and operators. -/
inductive Expr.Evaluates (constants : Dictionary Int) : Expr → Int → Prop where
  | int (m : ExprMark) (n : Int) : Evaluates constants (.int m n) n
  | char (m : ExprMark) (c : Char) : Evaluates constants (.char m c) c.toNat
  | name {name : String} {n : Int} (m : ExprMark) :
      constants.get? name = some n → Evaluates constants (.name m name) n
  | unary {op : UnaryOp} {e : Expr} {n v : Int} (m : ExprMark) :
      Evaluates constants e n → op.exact n = some v → Evaluates constants (.unary m op e) v
  | binary {op : BinaryOp} {left right : Expr} {l r v : Int} (m : ExprMark) :
      Evaluates constants left l → Evaluates constants right r → op.exact l r = some v →
      Evaluates constants (.binary m op left right) v

/-- The numbers met in working out an operator all fit a word: its value, and the quotient that a
remainder is found with. -/
def BinaryOp.Within (op : BinaryOp) (l r v : Int) : Prop :=
  fitsWord v = true ∧ (op = .mod → fitsWord (l.tdiv r) = true)

/-- No number met in evaluating an expression is too great for a word. -/
def Expr.Within (constants : Dictionary Int) : Expr → Prop
  | .unary _ op e => Within constants e ∧
      ∀ n v, Evaluates constants e n → op.exact n = some v → fitsWord v = true
  | .binary _ op left right => Within constants left ∧ Within constants right ∧
      ∀ l r v, Evaluates constants left l → Evaluates constants right r → op.exact l r = some v → op.Within l r v
  | _ => True

/-- Every numeral of an expression is a word, as numerals in a program are. -/
def Expr.InWords : Expr → Prop
  | .int _ n => fitsWord n = true
  | .unary _ _ e => InWords e
  | .binary _ _ left right => InWords left ∧ InWords right
  | _ => True

/-- No left shift in an expression moves bits out of a word. -/
def Expr.KeepsBits (constants : Dictionary Int) : Expr → Prop
  | .unary _ _ e => KeepsBits constants e
  | .binary _ op left right => KeepsBits constants left ∧ KeepsBits constants right ∧
      (op = .leftShift → ∀ l r, left.fold constants = some l → right.fold constants = some r →
        fitsWord (l * 2 ^ r.toNat) = true)
  | _ => True

theorem Expr.Evaluates.unique {constants : Dictionary Int} {e : Expr} {w : Int}
    (hv : Evaluates constants e v) (hw : Evaluates constants e w) : v = w := by
  induction hv generalizing w with
  | int | char =>
    cases hw
    rfl
  | name m h =>
    cases hw with
    | name _ h' => exact Option.some.inj (h.symm.trans h')
  | unary m _ hop ih =>
    cases hw with
    | unary _ he hop' =>
      rw [ih he] at hop
      exact Option.some.inj (hop.symm.trans hop')
  | binary m _ _ hop ihl ihr =>
    cases hw with
    | binary _ hl hr hop' =>
      rw [ihl hl, ihr hr] at hop
      exact Option.some.inj (hop.symm.trans hop')

/-! ### One operator -/

theorem fitsWord_ofTruth (b : Bool) : fitsWord (ofTruth b) := by
  cases b <;> rfl

theorem word?_eq_some_iff : word? n = some v ↔ n = v ∧ fitsWord v := by
  unfold word?
  by_cases h : fitsWord n
  · rw [if_pos h, Option.some.injEq]
    exact ⟨fun hv => ⟨hv, hv ▸ h⟩, And.left⟩
  · rw [if_neg h]
    refine ⟨fun hv => ?_, fun hv => absurd (hv.1 ▸ hv.2) h⟩
    cases hv

theorem lnot_eq (n : Int) : Int.lnot n = -n - 1 := by
  cases n with
  | ofNat m =>
    rw [Int.lnot, Int.ofNat_eq_natCast, Int.negSucc_eq]
    omega
  | negSucc m =>
    rw [Int.lnot, Int.negSucc_eq]
    omega

theorem ofTruth_decide (p : Prop) [Decidable p] : ofTruth (decide p) = if p then 1 else 0 := by
  by_cases h : p <;> simp [ofTruth, h]

/-- A unary operator on a word gives its value, if that is a word. -/
theorem UnaryOp.exact_iff_apply {op : UnaryOp} (hn : fitsWord n) :
    (op.exact n = some v ∧ fitsWord v) ↔ op.apply n = some v := by
  cases op with
  | plus =>
    simp only [UnaryOp.exact, UnaryOp.apply, Option.some.injEq, and_iff_left_iff_imp]
    rintro rfl
    exact hn
  | minus => simp only [UnaryOp.exact, UnaryOp.apply, Option.some.injEq, word?_eq_some_iff]
  | bitNot =>
    simp only [UnaryOp.exact, UnaryOp.apply, Option.some.injEq, lnot_eq, and_iff_left_iff_imp]
    rintro rfl
    have hbounds := fitsWord_iff.mp hn
    exact fitsWord_iff.mpr (by omega)
  | logicalNot =>
    have htruth : ofTruth (n == 0) = if n = 0 then 1 else 0 := ofTruth_decide (n = 0)
    simp only [UnaryOp.exact, UnaryOp.apply, Option.some.injEq, htruth, and_iff_left_iff_imp]
    rintro rfl
    rw [← htruth]
    exact fitsWord_ofTruth _
  | addressOf | dereference | preIncrement | preDecrement | postIncrement | postDecrement =>
    simp [UnaryOp.exact, UnaryOp.apply]

/-- The quotient of two words is a word, but for the least word by minus one. -/
theorem fitsWord_tdiv_iff (hl : fitsWord l = true) (hr : r ≠ 0) : fitsWord (l.tdiv r) ↔ ¬(l = wordMin ∧ r = -1) := by
  constructor
  · rintro hfits ⟨rfl, rfl⟩
    exact absurd hfits (by decide)
  · intro h
    have hbounds := fitsWord_iff.mp hl
    have habs : (l.tdiv r).natAbs = l.natAbs / r.natAbs := Int.natAbs_tdiv l r
    refine fitsWord_iff.mpr ?_
    by_cases hone : r.natAbs = 1
    · obtain rfl | rfl : r = 1 ∨ r = -1 := by omega
      · simpa using hbounds
      · have hmin : l ≠ wordMin := fun hmin => h ⟨hmin, rfl⟩
        rw [wordMin] at hmin
        rw [Int.tdiv_neg, Int.tdiv_one]
        omega
    · have hhalf : l.natAbs / r.natAbs ≤ l.natAbs / 2 := Nat.div_le_div_left (by omega) (by decide)
      omega

theorem fitsWord_tmod (hl : fitsWord l) : fitsWord (l.tmod r) := by
  have hbounds := fitsWord_iff.mp hl
  have habs : (l.tmod r).natAbs = l.natAbs % r.natAbs := Int.natAbs_tmod l r
  have hle : l.natAbs % r.natAbs ≤ l.natAbs := Nat.mod_le _ _
  have hsign : 0 ≤ l → 0 ≤ l.tmod r := fun h => Int.tmod_nonneg r h
  have hnegative : l ≤ 0 → 0 ≤ -l.tmod r := fun h => by
    rw [← Int.neg_tmod]
    exact Int.tmod_nonneg r (by omega)
  exact fitsWord_iff.mpr (by omega)

theorem shiftDistance?_eq_some_iff {n : Nat} : shiftDistance? r = some n ↔ (0 ≤ r ∧ r < 64) ∧ r.toNat = n := by
  unfold shiftDistance?
  by_cases h : 0 ≤ r ∧ r < 64 <;> simp [h]

theorem shiftDistance?_eq_none (h : ¬(0 ≤ r ∧ r < 64)) : shiftDistance? r = none := by
  unfold shiftDistance?
  simpa using h

theorem fitsWord_fdiv (hl : fitsWord l) (n : Nat) : fitsWord (l.fdiv (2 ^ n)) := by
  have hbounds := fitsWord_iff.mp hl
  have hpos : (0 : Int) < 2 ^ n := Int.pow_pos (by decide)
  rw [Int.fdiv_eq_ediv_of_nonneg l (Int.le_of_lt hpos), fitsWord_iff, Int.le_ediv_iff_mul_le hpos,
    Int.ediv_lt_iff_lt_mul hpos]
  constructor <;> omega

/-- An operator whose value is a word whenever its operands are, and that is worked out as it is meant. -/
def BinaryOp.isTame : BinaryOp → Bool
  | .add | .sub | .mul | .div | .mod | .leftShift => false
  | _ => true

/-- Where an operator always gives a word, folding gives its value. -/
theorem BinaryOp.tame_apply (h : op.isTame) (hl : fitsWord l) (hr : fitsWord r) :
    op.apply l r = op.exact l r ∧ ∀ v, op.exact l r = some v → fitsWord v := by
  have truth {p : Prop} [Decidable p] {v : Int} (hv : (some (if p then 1 else 0) : Option Int) = some v) :
      fitsWord v := by
    rw [← Option.some.inj hv, ← ofTruth_decide]
    exact fitsWord_ofTruth _
  cases op with
  | add | sub | mul | div | mod | leftShift => cases h
  | bitAnd =>
    obtain ⟨heq, hword⟩ := onBits_eq (fun _ _ _ _ => BitVec.getLsbD_and) Int.testBit_land hl hr
    exact ⟨congrArg some heq, fun v hv => Option.some.inj hv ▸ hword⟩
  | bitOr =>
    obtain ⟨heq, hword⟩ := onBits_eq (fun _ _ _ _ => BitVec.getLsbD_or) Int.testBit_lor hl hr
    exact ⟨congrArg some heq, fun v hv => Option.some.inj hv ▸ hword⟩
  | bitXor =>
    obtain ⟨heq, hword⟩ := onBits_eq (fun _ _ _ _ => BitVec.getLsbD_xor) Int.testBit_lxor hl hr
    exact ⟨congrArg some heq, fun v hv => Option.some.inj hv ▸ hword⟩
  | rightShift =>
    by_cases hdistance : 0 ≤ r ∧ r < 64
    · have hshift : l.shiftRight r.toNat = l.fdiv (2 ^ r.toNat) := by
        rw [Int.fdiv_eq_ediv_of_nonneg l (Int.le_of_lt (Int.pow_pos (by decide)))]
        exact Int.shiftRight_eq_div_pow l r.toNat
      have hsome : shiftDistance? r = some r.toNat := shiftDistance?_eq_some_iff.mpr ⟨hdistance, rfl⟩
      simp only [apply, exact, hsome, if_pos hdistance, Option.map_some, hshift, Option.some.injEq]
      exact ⟨trivial, fun v hv => hv ▸ fitsWord_fdiv hl _⟩
    · simp [apply, exact, shiftDistance?_eq_none hdistance, hdistance]
  | logicalAnd => exact ⟨by simp [apply, exact, ofTruth, bne], fun v hv => truth hv⟩
  | logicalOr => exact ⟨by simp [apply, exact, ofTruth, bne], fun v hv => truth hv⟩
  | equal => exact ⟨by simp [apply, exact, ofTruth], fun v hv => truth hv⟩
  | notEqual => exact ⟨by simp [apply, exact, ofTruth, bne], fun v hv => truth hv⟩
  | less | greater | lessEqual | greaterEqual =>
    exact ⟨by simp [apply, exact, ofTruth], fun v hv => truth hv⟩

/-- A binary operator on words gives its value, if all numbers met are words; a left shift also gives what
is left of a value that is none. -/
theorem BinaryOp.exact_iff_apply (hl : fitsWord l) (hr : fitsWord r) : (op.exact l r = some v ∧ op.Within l r v) ↔
      (op.apply l r = some v ∧ (op = .leftShift → fitsWord (l * 2 ^ r.toNat))) := by
  by_cases htame : op.isTame
  · obtain ⟨heq, hword⟩ := tame_apply htame hl hr
    have hmod : op ≠ .mod := fun hop => by simp [hop, isTame] at htame
    have hshift : op ≠ .leftShift := fun hop => by simp [hop, isTame] at htame
    rw [heq]
    exact ⟨fun h => ⟨h.1, fun hop => absurd hop hshift⟩, fun h => ⟨h.1, hword v h.1, fun hop => absurd hop hmod⟩⟩
  cases op with
  | add | sub | mul => simp [BinaryOp.exact, BinaryOp.apply, Within, word?_eq_some_iff]
  | div => by_cases h : r = 0 <;> simp [BinaryOp.exact, BinaryOp.apply, Within, word?_eq_some_iff, h]
  | mod =>
    by_cases h : r = 0
    · simp [BinaryOp.exact, BinaryOp.apply, h]
    · have hquotient := fitsWord_tdiv_iff hl h
      have hexact : mod.exact l r = some (l.tmod r) := if_neg h
      have happly : mod.apply l r = if l = wordMin ∧ r = -1 then none else some (l.tmod r) := by
        simp [BinaryOp.apply, h]
      rw [hexact, happly]
      by_cases hmin : l = wordMin ∧ r = -1
      · rw [if_pos hmin]
        refine ⟨fun hv => absurd hmin (hquotient.mp (hv.2.2 rfl)), fun hv => ?_⟩
        cases hv.1
      · rw [if_neg hmin]
        refine ⟨fun hv => ⟨hv.1, fun hop => by cases hop⟩, fun hv => ⟨hv.1, ?_, fun _ => hquotient.mpr hmin⟩⟩
        exact Option.some.inj hv.1 ▸ fitsWord_tmod hl
  | leftShift =>
    by_cases hdistance : 0 ≤ r ∧ r < 64
    · have hsome : shiftDistance? r = some r.toNat := shiftDistance?_eq_some_iff.mpr ⟨hdistance, rfl⟩
      simp only [BinaryOp.exact, BinaryOp.apply, Within, hsome, if_pos hdistance, Option.map_some,
        shiftLeft_ofInt, Option.some.injEq, reduceCtorEq, false_implies, and_true, true_implies]
      constructor
      · rintro ⟨rfl, hword⟩
        exact ⟨toInt_ofInt_word hword, hword⟩
      · rintro ⟨rfl, hword⟩
        rw [toInt_ofInt_word hword]
        exact ⟨rfl, hword⟩
    · simp [BinaryOp.apply, BinaryOp.exact, shiftDistance?_eq_none hdistance, hdistance]
  | _ => simp [isTame] at htame

theorem BinaryOp.fitsWord_apply (hl : fitsWord l) (hr : fitsWord r) (h : op.apply l r = some v) : fitsWord v := by
  by_cases hop : op = .leftShift
  · subst hop
    obtain ⟨n, _, rfl⟩ := Option.map_eq_some_iff.mp h
    exact fitsWord_toInt _
  · exact ((exact_iff_apply hl hr).mpr ⟨h, fun h => absurd h hop⟩).2.1

/-! ### Whole expressions -/

namespace Expr

/-- The value of an expression, met by way of words only, is what it folds to without dropping bits. -/
def FoldsExactly (constants : Dictionary Int) (e : Expr) : Prop := ∀ v, e.Evaluates constants v ∧ e.Within constants ↔
    e.fold constants = some v ∧ e.KeepsBits constants

variable {constants : Dictionary Int} {e left right : Expr}

/-- Without operators there is nothing to overflow. -/
theorem foldsExactly_operand (hwithin : e.Within constants) (hkeeps : e.KeepsBits constants)
    (h : ∀ v, e.Evaluates constants v ↔ e.fold constants = some v) : e.FoldsExactly constants :=
  fun v => and_congr (h v) (iff_of_true hwithin hkeeps)

theorem foldsExactly_unary (m : ExprMark) (op : UnaryOp) (ih : e.FoldsExactly constants)
    (hwords : ∀ n, e.fold constants = some n → fitsWord n) :
    (unary m op e).FoldsExactly constants := by
  intro v
  constructor
  · rintro ⟨hv, hwithin, hword⟩
    cases hv with
    | @unary _ _ n _ _ hn hop =>
      obtain ⟨hfold, hkeeps⟩ := (ih n).mp ⟨hn, hwithin⟩
      have happly := (UnaryOp.exact_iff_apply (hwords n hfold)).mp ⟨hop, hword n v hn hop⟩
      exact ⟨Option.bind_eq_some_iff.mpr ⟨n, hfold, happly⟩, hkeeps⟩
  · rintro ⟨hfold, hkeeps⟩
    obtain ⟨n, hn, happly⟩ := Option.bind_eq_some_iff.mp hfold
    obtain ⟨hvalue, hwithin⟩ := (ih n).mpr ⟨hn, hkeeps⟩
    obtain ⟨hop, hword⟩ := (UnaryOp.exact_iff_apply (hwords n hn)).mpr happly
    refine ⟨.unary m hvalue hop, hwithin, fun n' v' hn' hop' => ?_⟩
    rw [hn'.unique hvalue, hop] at hop'
    exact Option.some.inj hop' ▸ hword

theorem foldsExactly_binary (m : ExprMark) (op : BinaryOp) (ihl : left.FoldsExactly constants)
    (ihr : right.FoldsExactly constants)
    (hwordsl : ∀ n, left.fold constants = some n → fitsWord n)
    (hwordsr : ∀ n, right.fold constants = some n → fitsWord n) :
    (binary m op left right).FoldsExactly constants := by
  intro v
  constructor
  · rintro ⟨hv, hwithinl, hwithinr, hword⟩
    cases hv with
    | @binary _ _ _ l r _ _ hl hr hop =>
      obtain ⟨hfoldl, hkeepsl⟩ := (ihl l).mp ⟨hl, hwithinl⟩
      obtain ⟨hfoldr, hkeepsr⟩ := (ihr r).mp ⟨hr, hwithinr⟩
      obtain ⟨happly, hshift⟩ := (BinaryOp.exact_iff_apply (hwordsl l hfoldl) (hwordsr r hfoldr)).mp
        ⟨hop, hword l r v hl hr hop⟩
      refine ⟨?_, hkeepsl, hkeepsr, fun hleft l' r' hl' hr' => ?_⟩
      · exact Option.bind_eq_some_iff.mpr ⟨l, hfoldl, Option.bind_eq_some_iff.mpr ⟨r, hfoldr, happly⟩⟩
      · rw [hfoldl] at hl'
        rw [hfoldr] at hr'
        exact Option.some.inj hl' ▸ Option.some.inj hr' ▸ hshift hleft
  · rintro ⟨hfold, hkeepsl, hkeepsr, hshift⟩
    obtain ⟨l, hl, hfold⟩ := Option.bind_eq_some_iff.mp hfold
    obtain ⟨r, hr, happly⟩ := Option.bind_eq_some_iff.mp hfold
    obtain ⟨hvaluel, hwithinl⟩ := (ihl l).mpr ⟨hl, hkeepsl⟩
    obtain ⟨hvaluer, hwithinr⟩ := (ihr r).mpr ⟨hr, hkeepsr⟩
    obtain ⟨hop, hword⟩ := (BinaryOp.exact_iff_apply (hwordsl l hl) (hwordsr r hr)).mpr
      ⟨happly, fun hleft => hshift hleft l r hl hr⟩
    refine ⟨.binary m hvaluel hvaluer hop, hwithinl, hwithinr, fun l' r' v' hl' hr' hop' => ?_⟩
    rw [hl'.unique hvaluel, hr'.unique hvaluer, hop] at hop'
    rw [hl'.unique hvaluel, hr'.unique hvaluer, ← Option.some.inj hop']
    exact hword

section

variable (hconstants : ∀ name n, constants.get? name = some n → fitsWord n = true)
include hconstants

theorem fitsWord_fold {v : Int} : (e : Expr) → e.InWords → e.fold constants = some v → fitsWord v
  | .int _ _, he, h => by
    cases h
    exact he
  | .char _ c, _, h => by
    cases h
    have hc : c.toNat < 2 ^ 32 := c.val.toNat_lt
    exact fitsWord_iff.mpr (by omega)
  | .name _ n, _, h => hconstants n v h
  | .unary _ _ e, he, h => by
    obtain ⟨n, hn, hv⟩ := Option.bind_eq_some_iff.mp h
    exact ((UnaryOp.exact_iff_apply (fitsWord_fold e he hn)).mpr hv).2
  | .binary _ _ left right, he, h => by
    obtain ⟨l, hl, h⟩ := Option.bind_eq_some_iff.mp h
    obtain ⟨r, hr, hv⟩ := Option.bind_eq_some_iff.mp h
    exact BinaryOp.fitsWord_apply (fitsWord_fold left he.1 hl) (fitsWord_fold right he.2 hr) hv

theorem foldsExactly : (e : Expr) → e.InWords → e.FoldsExactly constants
  | .int m n, _ => by
    refine foldsExactly_operand trivial trivial fun v => ⟨fun h => ?_, fun h => ?_⟩
    · cases h
      rfl
    · cases h
      exact .int m n
  | .char m c, _ => by
    refine foldsExactly_operand trivial trivial fun v => ⟨fun h => ?_, fun h => ?_⟩
    · cases h
      rfl
    · cases h
      exact .char m c
  | .name m n, _ => by
    refine foldsExactly_operand trivial trivial fun v => ⟨fun h => ?_, .name m⟩
    cases h with
    | name _ h => exact h
  | .unary m op e, he =>
    foldsExactly_unary m op (foldsExactly e he) fun _ => fitsWord_fold hconstants e he
  | .binary m op left right, he =>
    foldsExactly_binary m op (foldsExactly left he.1) (foldsExactly right he.2)
      (fun _ => fitsWord_fold hconstants left he.1) fun _ => fitsWord_fold hconstants right he.2
  | .float _ _, _ | .string _ _, _ | .null _, _ | .array _ _, _ | .call _ _ _, _ | .index _ _ _, _
  | .member _ _ _ _, _ | .cast _ _ _, _ | .sizeof _ _, _ => by
    -- No other expression has a value, and none of them folds.
    refine foldsExactly_operand trivial trivial fun v => ⟨fun h => ?_, fun h => ?_⟩ <;> cases h

end

/-- **An expression of words has a value that is met by way of words only exactly when it folds to that
value and no left shift in it drops bits.** -/
theorem evaluates_within_iff_fold {constants : Dictionary Int}
    (hconstants : ∀ name n, constants.get? name = some n → fitsWord n = true) {e : Expr}
    (he : e.InWords) (v : Int) :
    (e.Evaluates constants v ∧ e.Within constants) ↔ (e.fold constants = some v ∧ e.KeepsBits constants) :=
  foldsExactly hconstants e he v

/-- `SIZE << 4 | 1`, where `SIZE` is one. -/
theorem evaluates_within_iff_fold_shifted : let constants : Dictionary Int := Dictionary.empty.insert "SIZE" 1
    let e : Expr := .binary default .bitOr
      (.binary default .leftShift (.name default "SIZE") (.int default 4)) (.int default 1)
    e.InWords ∧ e.fold constants = some 17 ∧ e.Evaluates constants 17 ∧ e.Within constants := by
  intro constants e
  have hconstants (name : String) (n : Int) (h : constants.get? name = some n) : fitsWord n = true := by
    rw [Dictionary.get?_insert] at h
    split at h
    · cases h
      rfl
    · cases h
  have hwords : e.InWords := ⟨⟨trivial, rfl⟩, rfl⟩
  have hkeeps : e.KeepsBits constants := by
    refine ⟨⟨trivial, trivial, fun _ l r hl hr => ?_⟩, trivial, fun h => by cases h⟩
    cases hl
    cases hr
    rfl
  have hfold : e.fold constants = some 17 := by decide
  exact ⟨hwords, hfold, (evaluates_within_iff_fold hconstants hwords 17).mpr ⟨hfold, hkeeps⟩⟩

/-- One shifted by sixty-three places is too great for a word, and yet it folds. -/
theorem one_shifted_out : let e : Expr := .binary default .leftShift (.int default 1) (.int default 63)
    e.fold .empty = some wordMin ∧ ∀ v, ¬(e.Evaluates .empty v ∧ e.Within .empty) := by
  intro e
  refine ⟨by decide, ?_⟩
  rintro v ⟨hv, -, -, hwords⟩
  have hword := (hwords 1 63 (2 ^ 63) (.int _ _) (.int _ _) rfl).1
  exact absurd hword (by decide)

end Expr

end Offside
