import Mathlib.Algebra.GroupWithZero.Nat
import Offside.Grammar.Statement
import Offside.Proofs.Grammar.WellFormed

/-! How much there is to read.

The fuel that a reader starts with is a multiple of the tokens that are left, ends of file apart, of which
there are as many as are asked for (`Cursor.left_lt_depthBound`). What cuts the tokens of a text short is a
fault of the text (`TokenStream.ofText_fault`). -/
namespace Offside

variable {failure : Failure}

/-- Whether a failure is a fault of a text: of its characters, its layout or its grammar. -/
def Failure.ofText : Failure → Bool
  | lexical _ _ | layout _ _ | grammar _ _ => true
  | _ => false

/-- How much a token counts as progress. -/
def TokenKind.weight : TokenKind → Nat
  | .endOfFile => 0
  | _ => 1

theorem TokenKind.weight_eq_one {kind : TokenKind} (h : kind ≠ .endOfFile) : kind.weight = 1 := by
  cases kind <;> simp_all [weight]

theorem TokenKind.weight_le (kind : TokenKind) : kind.weight ≤ 1 := by
  cases kind <;> simp [weight]

/-! ### What cuts a stream short -/

namespace Scanner

theorem next_error {s after : Scanner} (h : s.next = (.error failure, after)) : failure.ofText = true := by
  unfold next take at h
  cases ho : (front s.skipTrivia.rest).outcome with
  | ok kind => simp [ho] at h
  | error e =>
    simp only [ho, Prod.mk.injEq, Except.error.injEq] at h
    rw [← h.1]
    rfl

end Scanner

theorem Indentation.push_failure {s : Indentation} {m : MarkedToken}
    (h : (s.push m).failure = some failure) : failure.ofText = true := by
  simp only [push] at h
  split at h
  · cases h
  · cases h
  · split at h
    · split at h <;> cases h
      rfl
    · repeat' split at h
      all_goals cases h <;> rfl

theorem TokenStream.collect_failure (fuel : Nat) (scanner : Scanner) (layout : Layout)
    (h : (collect fuel scanner layout).2 = some failure) :
    failure.ofText = true := by
  induction fuel generalizing scanner layout with
  | zero => cases h
  | succ fuel ih =>
    rw [collect_succ] at h
    cases hnext : scanner.next with
    | mk outcome after =>
    rw [hnext] at h
    cases outcome with
    | error e =>
      cases h
      exact Scanner.next_error hnext
    | ok t =>
      simp only at h
      cases hpush : (layout.push t).2.1.failure with
      | some e =>
        rw [hpush] at h
        cases h
        exact Indentation.push_failure hpush
      | none =>
        rw [hpush] at h
        simp only at h
        split at h
        · cases h
        · exact ih _ _ h

theorem TokenStream.ofText_fault {file text : String}
    (h : (TokenStream.ofText file text).failure = some failure) : failure.ofText = true :=
  collect_failure ((Scanner.ofText file text).rest.length + 1) (Scanner.ofText file text) {} h

namespace Cursor

/-- How many tokens are left. -/
def left (c : Cursor) : Nat := (c.tokens.map fun t => t.kind.weight).sum

theorem left_le_length (c : Cursor) : c.left ≤ c.tokens.length := by
  unfold left
  induction c.tokens with
  | nil => exact Nat.le_refl 0
  | cons t rest ih =>
    have := t.kind.weight_le
    simp only [List.map_cons, List.sum_cons, List.length_cons]
    omega

/-- The fuel that reading starts with, against the tokens that are left. -/
theorem left_lt_depthBound (c : Cursor) : 4 * c.left + 4 ≤ c.depthBound := by
  have := c.left_le_length
  unfold depthBound
  omega

end Cursor

end Offside
