import Offside.Proofs.Types.Same
import Offside.Types.Arithmetic

/-! The order of operands does not matter.

Arithmetic types are ordered by strength: `char`, the enumerations, `int`, `long`, `uint`, `ulong`, `float`,
`double`. Of two enumerations neither is the stronger, and above both there is `int`. The dominant type of
two is their least upper bound in this order (`ValueType.combine_below`). So the result of a `Grouping` of
operands is the least upper bound of them all, however they are ordered and grouped, and operators that
treat their operands alike give the same type the other way round: `ValueType.operands_commute`. -/
namespace Offside

variable {a b c : ValueType}

/-- The place of an arithmetic scalar among the others. -/
def Scalar.strength : Scalar → Nat
  | char => 1
  | enum _ => 2
  | int => 3
  | long => 4
  | uint => 5
  | ulong => 6
  | float => 7
  | double => 8
  | _ => 0

namespace ValueType

def strength (t : ValueType) : Nat := (t.scalar?.map Scalar.strength).getD 0

/-- The type is the other one or weaker. -/
def Below (a b : ValueType) : Prop := a = b ∨ a.strength < b.strength

theorem Below.antisymm (h : Below a b) (h' : Below b a) : a = b := by
  obtain rfl | h := h
  · rfl
  obtain rfl | h' := h'
  · rfl
  omega

theorem scalar_of_isArithmetic (h : a.isArithmetic) : ∃ s, a = scalar s := by
  cases a with
  | scalar s => exact ⟨s, rfl⟩
  | pointer | array | struct | function => exact Bool.noConfusion h

variable (ha : a.isArithmetic)
include ha

/-- Only enumerations share a strength. -/
theorem strength_eq_two (hb : b.isArithmetic) (hne : a ≠ b)
    (h : a.strength = b.strength) : a.strength = 2 := by
  obtain ⟨x, rfl⟩ := scalar_of_isArithmetic ha
  obtain ⟨y, rfl⟩ := scalar_of_isArithmetic hb
  cases x <;> cases y <;> first
    | rfl
    | exact absurd rfl hne
    | exact Bool.noConfusion ha
    | exact Bool.noConfusion hb
    | simp [strength, scalar?, Scalar.strength] at h

/-- The stronger one wins, and `int` between two enumerations. -/
theorem combine_eq (hb : b.isArithmetic) :
    combine a b = if a.strength < b.strength then b else if b.strength < a.strength then a
      else if same a b then a else int := by
  obtain ⟨x, rfl⟩ := scalar_of_isArithmetic ha
  obtain ⟨y, rfl⟩ := scalar_of_isArithmetic hb
  cases x <;> cases y <;> first | rfl | exact Bool.noConfusion ha | exact Bool.noConfusion hb

theorem isArithmetic_combine (hb : b.isArithmetic) : (combine a b).isArithmetic := by
  rw [combine_eq ha hb]
  repeat' split
  all_goals first | assumption | rfl

/-- The dominant type is the least upper bound. -/
theorem combine_below (hb : b.isArithmetic) (hc : c.isArithmetic) :
    Below (combine a b) c ↔ Below a c ∧ Below b c := by
  rw [combine_eq ha hb]
  split
  · rename_i hlt
    refine ⟨fun h => ⟨.inr ?_, h⟩, And.right⟩
    obtain rfl | h := h <;> omega
  split
  · rename_i hlt
    refine ⟨fun h => ⟨h, .inr ?_⟩, And.left⟩
    obtain rfl | h := h <;> omega
  have hequal : a.strength = b.strength := by omega
  split
  · rename_i hsame
    obtain rfl : a = b := by
      obtain ⟨x, rfl⟩ := scalar_of_isArithmetic ha
      obtain ⟨y, rfl⟩ := scalar_of_isArithmetic hb
      exact congrArg scalar (eq_of_beq hsame)
    exact ⟨fun h => ⟨h, h⟩, And.left⟩
  · rename_i hsame
    have hne : a ≠ b := fun h => hsame (h ▸ same_refl a)
    have htwo := strength_eq_two ha hb hne hequal
    have hint : int.strength = 3 := rfl
    constructor
    · intro h
      have : 3 ≤ c.strength := by obtain rfl | h := h <;> omega
      exact ⟨.inr (by omega), .inr (by omega)⟩
    · rintro ⟨hac, hbc⟩
      have hstronger : 3 ≤ c.strength := by
        obtain rfl | hac := hac
        · obtain rfl | hbc := hbc
          · exact absurd rfl hne
          · omega
        · omega
      by_cases hc3 : int = c
      · exact .inl hc3
      · refine .inr (Nat.lt_of_le_of_ne hstronger fun h => ?_)
        have := strength_eq_two rfl hc hc3 h
        omega

theorem dominant_eq (hb : b.isArithmetic) : dominant a b = .ok (combine a b) := by
  have hvoid {t : ValueType} (h : t.isArithmetic) : t.isVoid = false := by
    obtain ⟨s, rfl⟩ := scalar_of_isArithmetic h
    cases s <;> first | rfl | exact Bool.noConfusion h
  simp [dominant, hvoid ha, hvoid hb, ha, hb]

end ValueType

/-- Operands of an arithmetic expression, combined two by two. -/
inductive Grouping where
  | operand (type : ValueType)
  | pair (left right : Grouping)

namespace Grouping

open ValueType

def operands : Grouping → List ValueType
  | operand t => [t]
  | pair l r => l.operands ++ r.operands

/-- The type that the whole expression has. -/
def result : Grouping → Except TypeFault ValueType
  | operand t => .ok t
  | pair l r => do dominant (← l.result) (← r.result)

/-- Arithmetic operands have a result, the least upper bound of them all. -/
theorem result_least : (g : Grouping) → (∀ t ∈ g.operands, t.isArithmetic) → ∃ r, g.result = .ok r ∧ r.isArithmetic ∧
      ∀ c : ValueType, c.isArithmetic → (Below r c ↔ ∀ t ∈ g.operands, Below t c)
  | operand t, h => ⟨t, rfl, h t List.mem_cons_self, fun c _ => by simp [operands]⟩
  | pair l r, h => by
    rw [operands, List.forall_mem_append] at h
    obtain ⟨a, hl, ha, hleast⟩ := l.result_least h.1
    obtain ⟨b, hr, hb, hright⟩ := r.result_least h.2
    refine ⟨combine a b, ?_, isArithmetic_combine ha hb, fun c hc => ?_⟩
    · rw [result, hl, hr]
      exact dominant_eq ha hb
    · rw [combine_below ha hb hc, hleast c hc, hright c hc, operands, List.forall_mem_append]

/-- Groupings of the same operands have the same result. -/
theorem result_eq {g h : Grouping} (harithmetic : ∀ t ∈ g.operands, t.isArithmetic)
    (hsame : ∀ t, t ∈ g.operands ↔ t ∈ h.operands) : ∃ r, g.result = .ok r ∧ h.result = .ok r := by
  obtain ⟨a, hg, ha, hleast⟩ := g.result_least harithmetic
  obtain ⟨b, hh, hb, hleast'⟩ := h.result_least fun t ht => harithmetic t ((hsame t).mpr ht)
  refine ⟨a, hg, hh.trans (congrArg _ ?_)⟩
  apply Below.antisymm
  · rw [hleast' a ha]
    exact fun t ht => (hleast a ha).mp (.inl rfl) t ((hsame t).mpr ht)
  · rw [hleast b hb]
    exact fun t ht => (hleast' b hb).mp (.inl rfl) t ((hsame t).mp ht)

end Grouping

namespace ValueType

theorem dominant_comm (ha : a.isArithmetic) (hb : b.isArithmetic) :
    ∃ r, dominant a b = .ok r ∧ dominant b a = .ok r :=
  Grouping.result_eq (g := .pair (.operand a) (.operand b)) (h := .pair (.operand b) (.operand a))
    (by simp [Grouping.operands, ha, hb]) (by simp [Grouping.operands, or_comm])

theorem arithmeticResult_refused {l r : ValueType}
    (h : (l.promote.isArithmetic && r.promote.isArithmetic) = false) : arithmeticResult l r =
      .error (if l.promote.isVoid || r.promote.isVoid then .void else .invalid) := by
  unfold arithmeticResult dominant
  cases l.promote.isVoid || r.promote.isVoid with
  | true => rfl
  | false =>
    cases hl : l.promote.isArithmetic with
    | false => rfl
    | true =>
      cases hr : r.promote.isArithmetic with
      | false => rfl
      | true => simp [hl, hr] at h

theorem arithmeticResult_comm (l r : ValueType) : arithmeticResult l r = arithmeticResult r l := by
  cases h : l.promote.isArithmetic && r.promote.isArithmetic with
  | false =>
    rw [arithmeticResult_refused h, arithmeticResult_refused (Bool.and_comm _ _ ▸ h), Bool.or_comm]
  | true =>
    rw [Bool.and_eq_true] at h
    obtain ⟨t, hlr, hrl⟩ := dominant_comm h.1 h.2
    rw [arithmeticResult, arithmeticResult, hlr, hrl]

/-- What is an address or becomes one is no number. -/
theorem isIntegerLike_of_isPointer_decay (h : a.decay.isPointer) : a.isIntegerLike = false := by
  cases a with
  | pointer | array => rfl
  | scalar | struct | function => exact Bool.noConfusion h

theorem sumResult_add_comm (l r : ValueType) : sumResult .add l r = sumResult .add r l := by
  have hl := isIntegerLike_of_isPointer_decay (a := l)
  have hr := isIntegerLike_of_isPointer_decay (a := r)
  have harithmetic := arithmeticResult_comm l r
  unfold sumResult
  cases hpl : l.decay.isPointer <;> cases hpr : r.decay.isPointer <;> simp_all

theorem comparable_comm (l r : ValueType) : comparable l r = comparable r l := by
  simp only [comparable, Bool.and_comm, Bool.or_comm]

/-- **Results do not depend on the order of operands.** Combining arithmetic types is commutative,
associative and idempotent, so all groupings of the same operands have one result; and an operator other
than a difference or a shift takes two operands, of whatever types, exactly if it takes them the other way
round, with the same type as its result. -/
theorem operands_commute :
    (∀ a b c : ValueType, a.isArithmetic → b.isArithmetic → c.isArithmetic →
      (∃ r, dominant a b = .ok r ∧ dominant b a = .ok r) ∧
      (∃ r, (do dominant (← dominant a b) c) = .ok r ∧ (do dominant a (← dominant b c)) = .ok r) ∧
      dominant a a = .ok a) ∧
    (∀ g h : Grouping, (∀ t ∈ g.operands, t.isArithmetic) → g.operands.Perm h.operands →
      ∃ r, g.result = .ok r ∧ h.result = .ok r) ∧
    ∀ (op : BinaryOp) (l r : ValueType), op ∉ [BinaryOp.sub, .leftShift, .rightShift] →
      binaryResult op l r = binaryResult op r l := by
  refine ⟨fun a b c ha hb hc => ⟨dominant_comm ha hb, ?_, ?_⟩, fun g h hg hperm => ?_, fun op l r hop => ?_⟩
  · exact Grouping.result_eq (g := .pair (.pair (.operand a) (.operand b)) (.operand c))
      (h := .pair (.operand a) (.pair (.operand b) (.operand c))) (by simp [Grouping.operands, ha, hb, hc])
      (by simp [Grouping.operands])
  · obtain ⟨r, hr, ha⟩ := Grouping.result_eq (g := .pair (.operand a) (.operand a)) (h := .operand a)
      (by simp [Grouping.operands, ha]) (by simp [Grouping.operands])
    exact hr.trans ha.symm
  · exact Grouping.result_eq hg fun t => hperm.mem_iff
  · have harithmetic := arithmeticResult_comm l r
    have hsum := sumResult_add_comm l r
    have hcomparable := comparable_comm l r
    cases op <;> simp_all [binaryResult, Bool.and_comm]

end ValueType

end Offside
