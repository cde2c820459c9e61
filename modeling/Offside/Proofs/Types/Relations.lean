import Offside.Proofs.Types.Same
import Offside.Types.Arithmetic
import Mathlib.Tactic.SplitIfs

/-! The relations between types know structs by name only.

What may be stored, converted and combined is decided without a look at the members of structs: leaving
them out changes no verdict (`ValueType.canAssign_nominal`, `canCast_nominal`, `binaryResult_nominal`). So
same types can stand for each other everywhere, and each of the relations is contained in the next wider
one: `ValueType.relations_respect_same`. -/
namespace Offside

namespace ValueType

variable {origin : ValueOrigin} {t u v : ValueType}

mutual

@[simp] theorem nominal_nominal : (t : ValueType) → t.nominal.nominal = t.nominal
  | scalar _ | struct _ _ => rfl
  | pointer t | array t _ => by simp only [nominal, nominal_nominal t]
  | function ps r => by simp only [nominal, nominalList_nominalList ps, nominal_nominal r]

theorem nominalList_nominalList : (l : List ValueType) → nominalList (nominalList l) = nominalList l
  | [] => rfl
  | t :: l => by simp only [nominalList, nominal_nominal t, nominalList_nominalList l]

end

/-! ### Parts that members have no say in -/

@[simp] theorem same_nominal (t u : ValueType) : same t.nominal u.nominal = same t u := by
  rw [Bool.eq_iff_iff, same_iff, same_iff, nominal_nominal, nominal_nominal]

@[simp] theorem scalar?_nominal (t : ValueType) : t.nominal.scalar? = t.scalar? := by cases t <;> rfl

@[simp] theorem isPointer_nominal (t : ValueType) : t.nominal.isPointer = t.isPointer := by cases t <;> rfl

@[simp] theorem isArray_nominal (t : ValueType) : t.nominal.isArray = t.isArray := by cases t <;> rfl

@[simp] theorem isFunction_nominal (t : ValueType) : t.nominal.isFunction = t.isFunction := by
  cases t <;> rfl

@[simp] theorem isVoid_nominal (t : ValueType) : t.nominal.isVoid = t.isVoid := by simp [isVoid]

@[simp] theorem isVoidPointer_nominal (t : ValueType) : t.nominal.isVoidPointer = t.isVoidPointer := by
  cases t <;> simp [nominal, isVoidPointer, namedStruct]

@[simp] theorem isIntegral_nominal (t : ValueType) : t.nominal.isIntegral = t.isIntegral := by
  simp [isIntegral, integralRank]

@[simp] theorem isFloating_nominal (t : ValueType) : t.nominal.isFloating = t.isFloating := by
  simp [isFloating]

@[simp] theorem isEnum_nominal (t : ValueType) : t.nominal.isEnum = t.isEnum := by simp [isEnum]

@[simp] theorem isIntegerLike_nominal (t : ValueType) : t.nominal.isIntegerLike = t.isIntegerLike := by
  simp [isIntegerLike]

@[simp] theorem isPointerLike_nominal (t : ValueType) : t.nominal.isPointerLike = t.isPointerLike := by
  simp [isPointerLike, isNull]

@[simp] theorem isArithmetic_nominal (t : ValueType) : t.nominal.isArithmetic = t.isArithmetic := by
  simp [isArithmetic]

@[simp] theorem decay_nominal (t : ValueType) : t.nominal.decay = t.decay.nominal := by cases t <;> rfl

@[simp] theorem promote_nominal (t : ValueType) : t.nominal.promote = t.promote.nominal := by
  unfold promote
  rw [isEnum_nominal]
  split <;> rfl

/-! ### Storing, converting and combining -/

@[simp] theorem matchesOnAssign_nominal (t v : ValueType) :
    matchesOnAssign t.nominal v.nominal = matchesOnAssign t v := by
  simp [matchesOnAssign, isNull]

/-- The rule for pairs of types in which no array is filled and nothing becomes a pointer. -/
theorem canAssign_plain (harrays : (t.isArray && v.isArray) = false)
    (hdecays : (t.isPointer && (v.isArray || v.isFunction)) = false) : canAssign origin t v =
      (matchesOnAssign t v || (t.isIntegral && v.isIntegral) || (t.isFloating && v.isFloating)) := by
  cases t <;> cases v <;> first | rfl | exact Bool.noConfusion harrays | exact Bool.noConfusion hdecays

theorem canAssign_nominal (origin : ValueOrigin) (t v : ValueType) :
    canAssign origin t.nominal v.nominal = canAssign origin t v := by
  fun_induction canAssign origin t v with
  | case1 t m v n ih =>
    rw [← ih, ← matchesOnAssign_nominal (array t m)]
    rfl
  | case2 t v n =>
    rw [← matchesOnAssign_nominal (pointer t), ← matchesOnAssign_nominal t v, ← isVoid_nominal]
    rfl
  | case3 t ps r =>
    rw [← matchesOnAssign_nominal (pointer t), ← same_nominal t]
    rfl
  | case4 t v harrays hdecays hcalls =>
    rw [canAssign_plain]
    · simp
    · cases t <;> cases v <;> first | rfl | exact (harrays _ _ _ _ rfl rfl).elim
    · cases t <;> cases v <;>
        first | rfl | exact (hdecays _ _ _ rfl rfl).elim | exact (hcalls _ _ _ rfl rfl).elim

theorem canCast_nominal (t u : ValueType) : canCast t.nominal u.nominal = canCast t u := by
  simp [canCast]

theorem nominal_of_isArithmetic (h : t.isArithmetic) : t.nominal = t := by
  cases t <;> first | rfl | exact Bool.noConfusion h

theorem combine_nominal (ht : t.nominal = t) (hu : u.nominal = u) : (combine t u).nominal = combine t u := by
  unfold combine
  split_ifs <;> first | rfl | exact ht | exact hu

theorem arithmeticResult_nominal (t u : ValueType) :
    arithmeticResult t.nominal u.nominal = (arithmeticResult t u).map nominal := by
  unfold arithmeticResult dominant
  simp only [promote_nominal, isVoid_nominal, isArithmetic_nominal]
  split_ifs with _ ht hu
  · rfl
  · rfl
  · rfl
  · simp only [Bool.not_eq_true, Bool.not_eq_false'] at ht hu
    have ht := nominal_of_isArithmetic ht
    have hu := nominal_of_isArithmetic hu
    rw [ht, hu, Except.map, combine_nominal ht hu]

@[simp] theorem isTruthy_nominal (t : ValueType) : t.nominal.isTruthy = t.isTruthy := by
  simp [isTruthy, isNull]

@[simp] theorem comparable_nominal (t u : ValueType) : comparable t.nominal u.nominal = comparable t u := by
  simp [comparable]

theorem binaryResult_nominal (op : BinaryOp) (t u : ValueType) :
    binaryResult op t.nominal u.nominal = (binaryResult op t u).map nominal := by
  have harithmetic := arithmeticResult_nominal t u
  cases op <;> simp only [binaryResult, sumResult, isTruthy_nominal, comparable_nominal, isIntegerLike_nominal,
    decay_nominal, isPointer_nominal, same_nominal, promote_nominal, harithmetic] <;> split_ifs <;> rfl

/-! ### Same types stand for each other -/

/-- The same fault, or results of the same type. -/
def sameResult : Except OperandFault ValueType → Except OperandFault ValueType → Bool
  | .ok t, .ok u => same t u
  | .error a, .error b => a == b
  | _, _ => false

theorem sameResult_of_nominal {a b : Except OperandFault ValueType} (h : a.map nominal = b.map nominal) :
    sameResult a b := by
  cases a with
  | error a => cases b <;> simp_all [Except.map, sameResult]
  | ok t => cases b <;> simp_all [Except.map, sameResult, same_iff]

theorem canAssign_of_matchesOnAssign (h : matchesOnAssign t v) : canAssign origin t v := by
  unfold canAssign
  split <;> simp [h]

theorem canCast_of_matchesOnAssign (h : matchesOnAssign t v) : canCast v t := by
  simp only [matchesOnAssign, Bool.or_eq_true, Bool.and_eq_true] at h
  obtain (h | ⟨ht, hv⟩) | ⟨⟨ht, hv⟩, _⟩ := h
  · simp [canCast, same_comm v t, h]
  · simp [canCast, ht, isPointerLike, hv]
  · simp [canCast, ht, isPointerLike, hv]

/-- What may be stored without a cast may be stored with one. -/
theorem canCast_of_canAssign (h : canAssign .value t v) : canCast v t := by
  by_cases hmatches : matchesOnAssign t v
  · exact canCast_of_matchesOnAssign hmatches
  unfold canAssign at h
  split at h
  · simp [hmatches] at h
  · rfl
  · rfl
  · simp only [hmatches, Bool.false_or, Bool.or_eq_true, Bool.and_eq_true] at h
    obtain ⟨ht, hv⟩ | ⟨ht, hv⟩ := h <;> simp [canCast, isArithmetic, ht, hv]

/-- **Types that are the same are treated alike.** Sameness is an equivalence. Whether one type matches,
takes or converts to another, and what an operator makes of two, stays as it is when types are replaced by
the same ones, whatever members their structs carry. And of the relations each contains the one before:
sameness, matching, storing from any origin, and, from storing a value, conversion. -/
theorem relations_respect_same : Equivalence (fun t u : ValueType => same t u = true) ∧
    (∀ t t' v v' : ValueType, same t t' → same v v' → matchesOnAssign t v = matchesOnAssign t' v' ∧
      (∀ origin, canAssign origin t v = canAssign origin t' v') ∧
      canCast t v = canCast t' v' ∧
      ∀ op, sameResult (binaryResult op t v) (binaryResult op t' v')) ∧
    ∀ t v : ValueType, (same t v → matchesOnAssign t v) ∧
      (matchesOnAssign t v → ∀ origin, canAssign origin t v) ∧ (canAssign .value t v → canCast v t) := by
  refine ⟨⟨same_refl, fun h => same_comm _ _ ▸ h, same_trans⟩, fun t t' v v' ht hv => ?_, fun t v => ?_⟩
  · have ht := same_iff.mp ht
    have hv := same_iff.mp hv
    refine ⟨?_, fun origin => ?_, ?_, fun op => sameResult_of_nominal ?_⟩
    · rw [← matchesOnAssign_nominal, ht, hv, matchesOnAssign_nominal]
    · rw [← canAssign_nominal, ht, hv, canAssign_nominal]
    · rw [← canCast_nominal, ht, hv, canCast_nominal]
    · rw [← binaryResult_nominal, ht, hv, binaryResult_nominal]
  · refine ⟨fun h => ?_, fun h origin => canAssign_of_matchesOnAssign h, canCast_of_canAssign⟩
    simp [matchesOnAssign, h]

end ValueType

end Offside
