import Offside.Types.Basic

/-! Sameness of types is equality of what they say by name.

`ValueType.nominal` leaves out the members of structs, and two types are the same exactly if nothing else
tells them apart (`ValueType.same_iff`). So sameness is an equivalence, and what does not look at members
cannot tell same types apart. -/
namespace Offside

namespace ValueType

variable {t u v : ValueType}

mutual

/-- The type with its structs known by name only. -/
def nominal : ValueType → ValueType
  | scalar s => scalar s
  | pointer t => pointer (nominal t)
  | array t n => array (nominal t) n
  | struct name _ => namedStruct name
  | function params returns => function (nominalList params) (nominal returns)

def nominalList : List ValueType → List ValueType
  | [] => []
  | t :: rest => nominal t :: nominalList rest

end

mutual

theorem same_iff : {t u : ValueType} → same t u ↔ t.nominal = u.nominal
  | scalar _, u | struct _ _, u => by cases u <;> simp [same, nominal, namedStruct]
  | pointer t, u => by
    cases u with
    | pointer u => simp [same, nominal, same_iff (t := t)]
    | _ => simp [same, nominal, namedStruct]
  | array t _, u => by
    cases u with
    | array u _ => simp [same, nominal, same_iff (t := t), and_comm]
    | _ => simp [same, nominal, namedStruct]
  | function ps r, u => by
    cases u with
    | function qs q => simp [same, nominal, same_iff (t := r), sameList_iff (l := ps)]
    | _ => simp [same, nominal, namedStruct]

theorem sameList_iff : {l m : List ValueType} → sameList l m ↔ nominalList l = nominalList m
  | [], m => by cases m <;> simp [sameList, nominalList]
  | t :: l, m => by
    cases m with
    | nil => simp [sameList, nominalList]
    | cons u m => simp [sameList, nominalList, same_iff (t := t), sameList_iff (l := l)]

end

theorem same_refl (t : ValueType) : same t t = true := same_iff.mpr rfl

theorem same_comm (t u : ValueType) : same t u = same u t := by
  rw [Bool.eq_iff_iff, same_iff, same_iff, eq_comm]

theorem same_trans (h : same t u) (h' : same u v) : same t v := same_iff.mpr ((same_iff.mp h).trans (same_iff.mp h'))

end ValueType

end Offside
