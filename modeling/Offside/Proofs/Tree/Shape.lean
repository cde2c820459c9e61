import Offside.Proofs.Tree.Spelling
import Offside.Tree.Equal

/-! Types of one shape.

Two written types have one shape exactly if they are equal without notes and all their array sizes are
plain, numerals or names (`TypeExpr.sameShape_iff`). So having one shape is symmetric and transitive, and
a type with a size such as `N + 1` does not even have the shape of itself. -/
namespace Offside

namespace TypeExpr

/-- Whether the expression is a numeral or a name. -/
def isPlainSize : Expr → Bool
  | .int _ _ | .name _ _ => true
  | _ => false

mutual

/-- Whether all array sizes in the type are plain. -/
def plain : TypeExpr → Bool
  | name _ _ | vararg _ => true
  | pointer _ t => plain t
  | array _ t size => isPlainSize size && plain t
  | function _ params returns => plainList params && plain returns

def plainList : List TypeExpr → Bool
  | [] => true
  | t :: rest => plain t && plainList rest

end

theorem sameSize_iff {a b : Expr} : sameSize a b ↔ isPlainSize a ∧ a.blur .bare = b.blur .bare := by
  cases a <;> cases b <;> simp [sameSize, isPlainSize, Expr.blur]

mutual

theorem sameShape_iff_bare : {a b : TypeExpr} → sameShape a b ↔ a.plain ∧ a.blur .bare = b.blur .bare
  | name _ _, b | vararg _, b => by cases b <;> simp [sameShape, plain, blur]
  | pointer _ t, b => by
    cases b with
    | pointer _ u => simp [sameShape, plain, blur, sameShape_iff_bare (a := t)]
    | _ => simp [sameShape, blur]
  | array _ t m, b => by
    cases b with
    | array _ u n =>
      simp only [sameShape, plain, blur, Bool.and_eq_true, sameSize_iff, sameShape_iff_bare (a := t),
        array.injEq, Blur.bare_span, true_and]
      grind
    | _ => simp [sameShape, blur]
  | function _ ps r, b => by
    cases b with
    | function _ qs q =>
      simp only [sameShape, plain, blur, Bool.and_eq_true, sameShape_iff_bare (a := r),
        sameShapes_iff_bare (l := ps), function.injEq, Blur.bare_span, true_and]
      exact and_and_and_comm
    | _ => simp [sameShape, blur]

theorem sameShapes_iff_bare : {l m : List TypeExpr} → sameShapes l m ↔
    plainList l ∧ blurList .bare l = blurList .bare m
  | [], m => by cases m <;> simp [sameShapes, plainList, blurList]
  | t :: l, m => by
    cases m with
    | nil => simp [sameShapes, blurList]
    | cons u m =>
      simp only [sameShapes, plainList, blurList, Bool.and_eq_true, sameShape_iff_bare (a := t),
        sameShapes_iff_bare (l := l), List.cons.injEq]
      exact and_and_and_comm

end

mutual

theorem plain_blur (b : Blur) : (t : TypeExpr) → (t.blur b).plain = t.plain
  | name _ _ | vararg _ => rfl
  | pointer _ t => plain_blur b t
  | array _ t size => by
    rw [blur, plain, plain, plain_blur b t]
    cases size <;> rfl
  | function _ params returns => by rw [blur, plain, plain, plainList_blur b params, plain_blur b returns]

theorem plainList_blur (b : Blur) : (l : List TypeExpr) → plainList (blurList b l) = plainList l
  | [] => rfl
  | t :: l => by rw [blurList, plainList, plainList, plain_blur b t, plainList_blur b l]

end

/-- **One shape means equal without notes, for plain sizes.** Two written types have one shape exactly if
their array sizes are all plain and nothing but notes tells them apart. So this is symmetric and
transitive, and it is reflexive for the types with plain sizes only. -/
theorem sameShape_iff (a b : TypeExpr) :
    (sameShape a b ↔ a.plain ∧ a.blur .bare = b.blur .bare) ∧ sameShape a b = sameShape b a ∧
      (∀ c, sameShape a b → sameShape b c → sameShape a c) ∧ sameShape a a = a.plain := by
  refine ⟨sameShape_iff_bare, ?_, fun c hab hbc => ?_, ?_⟩
  · rw [Bool.eq_iff_iff, sameShape_iff_bare, sameShape_iff_bare, ← plain_blur .bare a, ← plain_blur .bare b]
    exact ⟨fun h => ⟨h.2 ▸ h.1, h.2.symm⟩, fun h => ⟨h.2 ▸ h.1, h.2.symm⟩⟩
  · rw [sameShape_iff_bare] at hab hbc ⊢
    exact ⟨hab.1, hab.2.trans hbc.2⟩
  · rw [Bool.eq_iff_iff, sameShape_iff_bare, and_iff_left rfl]

/-- With a sum for its size, a type does not have the shape of itself. -/
theorem sameShape_sum_size : ∃ t : TypeExpr, t.print = "char[N + 1]" ∧ sameShape t t = false :=
  ⟨.array default (.name default "char") (.binary default .add (.name default "N") (.int default 1)), by decide, rfl⟩

end TypeExpr

end Offside
