import Offside.Grammar.Statement
import Offside.Proofs.Grammar.Cursor
import Offside.Proofs.Tree.WellFormed

/-! Parts of readers.

One call of the reader of operands is written out. What the entry point is filled in with is plain, and has
the same shape wherever it is written. -/
namespace Offside

namespace Parse

/-- One call of `primary`. The equation that comes with the definition cannot be used where a statement
about every character is decided by going through them, as is tried for its last alternative. -/
theorem primary_step (fuel : Nat) :
    primary (fuel + 1) = (do
      let t ← advance
      match t.kind with
      | .int value => finish t.start (.int · value)
      | .float value => finish t.start (.float · value)
      | .char value => finish t.start (.char · value)
      | .string value => finish t.start (.string · value)
      | .keyword .null_ => finish t.start .null
      | .identifier name => finish t.start (.name · name)
      | .symbol .leftParen =>
        let inner ← tighter fuel 0
        expectSymbol .rightParen "parenthesized expression"
        return inner
      | .symbol .leftBracket =>
        let items ← expressions fuel .rightBracket
        expectSymbol .rightBracket "array literal"
        finish t.start (.array · items)
      | .keyword .sizeof_ =>
        expectSymbol .leftParen "sizeof"
        let target ← plainType fuel
        expectSymbol .rightParen "sizeof"
        finish t.start (.sizeof · target)
      | _ => unexpected .expression t) := rfl

end Parse

namespace EntryPoint

theorem countType_plain (s : Span) : (countType s).Plain := ⟨rfl, show IsName "int" by decide⟩

theorem textsType_plain (s : Span) : (textsType s).Plain := ⟨rfl, rfl, rfl, show IsName "char" by decide⟩

/-- Shapes do not depend on where a type is written. -/
theorem sameShape_countType (t : TypeExpr) (s s' : Span) :
    t.sameShape (countType s) = t.sameShape (countType s') := by
  cases t <;> rfl

theorem sameShape_textsType (t : TypeExpr) (s s' : Span) :
    t.sameShape (textsType s) = t.sameShape (textsType s') := by
  unfold textsType
  cases t with
  | pointer _ t =>
    simp only [TypeExpr.sameShape]
    cases t with
    | pointer _ t =>
      simp only [TypeExpr.sameShape]
      cases t <;> rfl
    | _ => rfl
  | _ => rfl

end EntryPoint

namespace Parse

theorem outcome_ok {α : Type} {p : Parse α} {c : Cursor} {a : α} (h : p.outcome c = .ok a) :
    ∃ c', p.run c = .ok a c' := by
  unfold outcome at h
  split at h
  · rename_i hp
    cases h
    exact ⟨_, hp⟩
  · cases h

end Parse

end Offside
