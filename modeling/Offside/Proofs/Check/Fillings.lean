import Offside.Proofs.Check.Repeated

/-! Which arrays end up where.

A value that is stored fills a place of a type (`Filling`), and if it is a list of items each item fills a
place of its own: one of the element type where the list fills an array, and one of the list's own element
type where the list becomes a pointer (`Expr.fillings`). A filling suits its place (`Filling.suits`) if an
array meets a pointer, an array of the same type, or, when it is written there as a literal, an array that
is large enough.

Values are compared with places as a whole: whether the sizes of two array types may differ is decided by
the form of the outermost expression and holds for all arrays inside. So an item that is no literal can be
taken for an array of another size, as long as a list is written around it (`Filling.isStretched`). This is
the only way around array types: what is accepted suits its place except where such an item is
(`Check.accepted_suits_iff`). -/
namespace Offside

variable {m n : ArraySize} {e : Expr} {es : List Expr} {a place t u w : ValueType}

/-- A value, and the type of the place that it fills. -/
structure Filling where
  place : ValueType
  value : Expr

/-- Whether an array of one size has room for the items of another; without constants, only its own do. -/
def ArraySize.holds (m n : ArraySize) : Bool :=
  m == n || match m, n with
    | .fixed capacity, .fixed length => length ≤ capacity
    | .symbolic _, .fixed _ => true
    | _, .symbolic _ => false

namespace Filling

/-- Arrays meet pointers, arrays of the same type, or, as literals, arrays that are large enough. -/
def suits (f : Filling) : Bool := match f.value.type?, f.place with
  | some (.array w n), .array u m =>
    ValueType.same (.array u m) (.array w n) || (f.value.fillsArray && m.holds n)
  | some (.array _ _), place => place.isPointer
  | _, _ => true

/-- An array that is no literal, where an array of another type is wanted. -/
def isStretched (f : Filling) : Bool := match f.value.type?, f.place with
  | some (.array w n), .array u m =>
    !f.value.fillsArray && !ValueType.same (.array u m) (.array w n)
  | _, _ => false

end Filling

/-- The type of the places for the items of a list, given the list's own type and what it is stored as. -/
def ValueType.itemPlace (own : Option ValueType) : ValueType → Option ValueType
  | .array u _ => some u
  | .pointer _ => own.bind ValueType.pointee
  | _ => none

mutual

/-- What fills the places inside a value that is stored as a type: the items of lists, at every depth. -/
def Expr.fillings (place : ValueType) : Expr → List Filling
  | .array m items =>
    match place.itemPlace m.type with
    | some u => Expr.fillingsOf u items
    | none => []
  | _ => []

def Expr.fillingsOf (place : ValueType) : List Expr → List Filling
  | [] => []
  | e :: rest => ⟨place, e⟩ :: e.fillings place ++ Expr.fillingsOf place rest

end

/-! ### What the rule for assignments says of arrays -/

namespace ValueType

variable {origin : ValueOrigin}

theorem matchesOnAssign_array : matchesOnAssign t (.array w n) = same t (.array w n) := by
  simp [matchesOnAssign, isNull, isPointer, scalar?]

/-- An array is taken as a pointer, or as an array: of its own type, or of another size if it is a
literal. -/
theorem canAssign_array (h : canAssign origin t (.array w n)) :
    t.isPointer ∨ ∃ u m, t = .array u m ∧ (same (.array u m) (.array w n) ∨
      (origin = .literal ∧ sizeFits m n ∧ canAssign origin u w)) := by
  cases t with
  | pointer p => exact .inl rfl
  | array u m =>
    rw [canAssign, matchesOnAssign_array, Bool.or_eq_true, Bool.and_eq_true, Bool.and_eq_true,
      beq_iff_eq, and_assoc] at h
    exact .inr ⟨u, m, rfl, h⟩
  | scalar s | struct name members | function params returns =>
    simp [canAssign, matchesOnAssign_array, same, isIntegral, isFloating, integralRank, scalar?] at h

/-- What can be stored at all can be stored as a literal. -/
theorem canAssign_literal {v : ValueType} (h : canAssign origin t v) : canAssign .literal t v := by
  cases origin with
  | literal => exact h
  | value =>
    unfold canAssign at h ⊢
    split at h
    · exact canAssign_of_matches _ (by simpa using h)
    all_goals exact h

theorem isPointer_of_canAssign {p : ValueType} (h : canAssign origin t (.pointer p)) : t.isPointer := by
  cases t with
  | pointer q => rfl
  | array u m | scalar s | struct name members | function params returns =>
    simp [canAssign, matchesOnAssign, same, isPointer, isIntegral, isFloating, integralRank, scalar?] at h

end ValueType

/-! ### Types that are filled by types -/

theorem ArraySize.holds_self (m : ArraySize) : m.holds m := by simp [holds]

/-- A literal stays within what is within a larger array. -/
theorem ArraySize.holds_of_sizeFits {length : Nat} (hm : m.holds n)
    (hn : ValueType.sizeFits n (.fixed length)) : m.holds (.fixed length) := by
  cases m with
  | symbolic text => rfl
  | fixed capacity =>
    cases n with
    | symbolic text => simp [holds] at hm
    | fixed c =>
      simp only [holds, ValueType.sizeFits, Bool.or_eq_true, beq_iff_eq, fixed.injEq, decide_eq_true_eq] at hm hn ⊢
      omega

/-- The arrays of a type, down to the first that is no array, can be filled by those of another. Once one
of them is a pointer nothing is said of what is behind it. -/
def ValueType.Meets : ValueType → ValueType → Prop
  | .array u m, .array w n => m.holds n ∧ Meets u w
  | u, .array _ _ => u.isPointer
  | u, .pointer _ => u.isPointer
  | _, _ => True

namespace ValueType

theorem Meets.of_isPointer (h : u.isPointer) : u.Meets t := by
  cases u with
  | pointer p => cases t <;> simp [Meets, isPointer]
  | _ => cases h

theorem Meets.isPointer {u w : ValueType} {n : ArraySize} (h : u.Meets (.array w n))
    (hu : u.isArray = false) : u.isPointer := by
  cases u with
  | array => cases hu
  | scalar | pointer | struct | function => exact h

theorem Meets.isPointer_of_pointer {p : ValueType} (h : u.Meets (.pointer p)) : u.isPointer := by
  cases u <;> exact h

theorem Meets.of_same : {u t : ValueType} → same u t → u.Meets t
  | .array u m, .array w n, h => by
    rw [same, Bool.and_eq_true, beq_iff_eq] at h
    exact ⟨h.1 ▸ m.holds_self, Meets.of_same h.2⟩
  | .pointer _, _, _ => .of_isPointer rfl
  | .scalar _, t, h | .struct _ _, t, h | .function _ _, t, h => by
    cases t <;> trivial
  | .array _ _, .scalar _, _ | .array _ _, .struct _ _, _ | .array _ _, .function _ _, _ => trivial
  | .array _ _, .pointer _, h => by simp [same] at h

theorem Meets.refl (t : ValueType) : t.Meets t := .of_same (same_refl t)

end ValueType

namespace Filling

variable {f : Filling}

/-- An array that is not stretched has the type of its place, unless it is a literal. -/
theorem same_of_not_isStretched (htype : e.type? = some (.array w n)) (hvalue : e.fillsArray = false)
    (h : (Filling.mk (.array u m) e).isStretched = false) :
    ValueType.same (.array u m) (.array w n) := by
  simpa [isStretched, htype, hvalue] using h

/-- Where the type of a place can be filled by that of a value, the value suits unless it is stretched. -/
theorem suits_of_meets (htype : f.value.type? = some a)
    (hmeets : f.place.Meets a) (h : f.isStretched = false) : f.suits := by
  obtain ⟨place, e⟩ := f
  cases a with
  | array w n =>
    cases place with
    | array u m =>
      cases hvalue : e.fillsArray with
      | true => simp [suits, htype, hvalue, hmeets.1]
      | false => simp [suits, htype, same_of_not_isStretched htype hvalue h]
    | scalar | pointer | struct | function => simpa only [suits, htype] using hmeets.isPointer rfl
  | scalar | pointer | struct | function => simp only [suits, htype]

theorem suits_of_isPointer (h : f.place.isPointer) : f.suits := by
  unfold suits
  split
  · rename_i hplace
    rw [hplace] at h
    cases h
  · exact h
  · rfl

theorem not_isStretched_of_suits (h : f.suits) : f.isStretched = false := by
  unfold isStretched
  split
  · rename_i w n u m htype hplace
    rw [suits, htype, hplace] at h
    simp only [Bool.or_eq_true, Bool.and_eq_true] at h
    rcases h with h | h
    · simp [h]
    · simp [h.1]
  · rfl

end Filling

/-- None of the fillings is stretched. -/
def Unstretched (fs : List Filling) : Prop := ∀ f ∈ fs, f.isStretched = false

theorem Expr.mem_fillingsOf (he : e ∈ es) :
    ∀ f ∈ (⟨place, e⟩ :: e.fillings place : List Filling), f ∈ Expr.fillingsOf place es := by
  induction es with
  | nil => cases he
  | cons first rest ih =>
    intro f hf
    rw [Expr.fillingsOf]
    rcases List.mem_cons.mp he with rfl | he
    · exact List.mem_append_left _ hf
    · exact List.mem_append_right _ (ih he f hf)

/-- A list that fills a place has items for places of one type, which its own element type fills. -/
theorem ValueType.Meets.items {place t : ValueType} {n : ArraySize} (h : place.Meets (.array t n))
    {m : ExprMark} (htype : m.type = some (.array t n)) (items : List Expr) :
    ∃ u, u.Meets t ∧ (Expr.array m items).fillings place = Expr.fillingsOf u items := by
  cases place with
  | array u k => exact ⟨u, h.2, by simp [Expr.fillings, itemPlace]⟩
  | pointer p => exact ⟨t, .refl t, by simp [Expr.fillings, itemPlace, htype, pointee]⟩
  | scalar s | struct name members | function params returns => cases h.isPointer rfl

/-- Where an array is stored as a type that fills a place, the place is a pointer, or both are arrays. -/
theorem ValueType.Meets.array_cases (h : place.Meets t) (hfits : canAssign .literal t (.array w n)) :
    place.isPointer ∨ ∃ v k u m, place = .array v k ∧ k.holds m ∧ v.Meets u ∧
      sizeFits m n ∧ canAssign .literal u w := by
  rcases canAssign_array hfits with hpointer | ⟨u, m, rfl, hsizes⟩
  · cases t with
    | pointer p => exact .inl h.isPointer_of_pointer
    | scalar | array | struct | function => cases hpointer
  · cases place with
    | scalar | pointer | struct | function => exact .inl (h.isPointer rfl)
    | array v k =>
      refine .inr ⟨v, k, u, m, rfl, h.1, h.2, ?_⟩
      rcases hsizes with hsame | ⟨_, hsize, helement⟩
      · rw [same, Bool.and_eq_true, beq_iff_eq] at hsame
        refine ⟨?_, canAssign_of_matches _ (by simp [matchesOnAssign, hsame.2])⟩
        rw [hsame.1]
        cases n <;> simp [sizeFits]
      · exact ⟨hsize, helement⟩

/-- An expression that is no literal for an array, and what it fills without being stretched. -/
theorem Expr.HasType.meets_of_value (he : e.HasType a) (hvalue : e.fillsArray = false) (hmeets : place.Meets t)
    (hfits : ValueType.canAssign .literal t a)
    (h : (Filling.mk place e).isStretched = false) : place.Meets a := by
  cases a with
  | array w n =>
    rcases hmeets.array_cases hfits with hpointer | ⟨v, k, u, m, rfl, _⟩
    · exact .of_isPointer hpointer
    · exact .of_same (Filling.same_of_not_isStretched he.type? hvalue h)
  | pointer p =>
    have hpointer := ValueType.isPointer_of_canAssign hfits
    cases t with
    | pointer q => exact .of_isPointer hmeets.isPointer_of_pointer
    | scalar | array | struct | function => cases hpointer
  | scalar | struct | function => cases place <;> trivial

/-- What can be stored as a type fills every place that the type fills, if nothing is stretched: sizes are
compared step by step then, with those of literals. -/
theorem Expr.HasType.meets (e : Expr) {place t a : ValueType} (he : e.HasType a) (hmeets : place.Meets t)
    (hfits : ValueType.canAssign .literal t a) (hun : Unstretched (⟨place, e⟩ :: e.fillings place)) :
    place.Meets a := by
  cases e with
  | array m items =>
    cases he with
    | @array _ first rest _ _ hfirst hrest ha =>
    subst ha
    rcases hmeets.array_cases hfits with hpointer | ⟨v, k, u, c, rfl, hk, hv, hsize, helement⟩
    · exact .of_isPointer hpointer
    refine ⟨ArraySize.holds_of_sizeFits hk hsize, ?_⟩
    refine Expr.HasType.meets first hfirst hv helement fun f hf => ?_
    exact hun f (List.mem_cons_of_mem _ (Expr.mem_fillingsOf List.mem_cons_self f hf))
  | string m text =>
    cases he
    rcases hmeets.array_cases hfits with hpointer | ⟨v, k, u, c, rfl, hk, hv, hsize, helement⟩
    · exact .of_isPointer hpointer
    refine ⟨ArraySize.holds_of_sizeFits hk hsize, ?_⟩
    cases v <;> trivial
  | _ => exact he.meets_of_value rfl hmeets hfits (hun _ List.mem_cons_self)

theorem Expr.Fill.forall (h : Expr.Fill t es) :
    ∀ e ∈ es, ∃ a, e.HasType a ∧ ValueType.canAssign e.origin t a := by
  induction es with
  | nil => exact List.forall_mem_nil _
  | cons first rest ih =>
    cases h with
    | cons hfirst hfits hrest => exact List.forall_mem_cons.mpr ⟨⟨_, hfirst, hfits⟩, ih hrest⟩

/-- All items of a list, the first among them, can be stored as its element type. -/
theorem Expr.HasType.items {m : ExprMark} {items : List Expr} {a : ValueType}
    (h : (Expr.array m items).HasType a) : ∃ t, m.type = some (.array t (.fixed items.length)) ∧
      a = .array t (.fixed items.length) ∧
      ∀ e ∈ items, ∃ b, e.HasType b ∧ ValueType.canAssign e.origin t b := by
  cases h with
  | array hfirst hrest ha =>
    rename_i t
    subst ha
    refine ⟨t, rfl, rfl, List.forall_mem_cons.mpr ⟨⟨t, hfirst, ?_⟩, hrest.forall⟩⟩
    exact ValueType.canAssign_of_matches _ (Check.matchesOnAssign_refl t)

/-- Literals for arrays have a length. -/
theorem Expr.HasType.length_of_fillsArray
    (he : e.HasType (.array w n)) (h : e.fillsArray) : ∃ length, n = .fixed length := by
  cases e with
  | string m text =>
    cases he
    exact ⟨_, rfl⟩
  | array m items =>
    obtain ⟨t, _, htype, _⟩ := he.items
    cases htype
    exact ⟨_, rfl⟩
  | int | float | char | null | name | binary | unary | call | index | member | cast | sizeof => cases h

mutual

/-- Inside a value whose type fills its place everything suits, if nothing is stretched. -/
theorem Expr.HasType.fillings_suit (e : Expr) {place a : ValueType} (he : e.HasType a)
    (hmeets : place.Meets a) (hun : Unstretched (e.fillings place)) : ∀ f ∈ e.fillings place, f.suits := by
  cases e with
  | array m items =>
    obtain ⟨t, htype, rfl, hitems⟩ := he.items
    obtain ⟨u, hu, heq⟩ := hmeets.items htype items
    rw [heq] at hun ⊢
    refine Expr.fillingsOf_suit items (fun e he => ?_) hun
    obtain ⟨a, ha, hfits⟩ := hitems e he
    refine ⟨a, ha, Expr.HasType.meets e ha hu (ValueType.canAssign_literal hfits) fun f hf => ?_⟩
    exact hun f (Expr.mem_fillingsOf he f hf)
  | _ => exact List.forall_mem_nil _

theorem Expr.fillingsOf_suit : (es : List Expr) → ∀ {place : ValueType},
    (∀ e ∈ es, ∃ a, e.HasType a ∧ place.Meets a) → Unstretched (Expr.fillingsOf place es) →
    ∀ f ∈ Expr.fillingsOf place es, f.suits
  | [], _, _, _ => List.forall_mem_nil _
  | e :: rest, place, hes, hun => by
    obtain ⟨⟨a, ha, hmeets⟩, hrest⟩ := List.forall_mem_cons.mp hes
    obtain ⟨hhead, hun'⟩ := List.forall_mem_append.mp hun
    obtain ⟨he, hinside⟩ := List.forall_mem_cons.mp hhead
    refine List.forall_mem_append.mpr ⟨List.forall_mem_cons.mpr ⟨?_, ?_⟩, ?_⟩
    · exact Filling.suits_of_meets ha.type? hmeets he
    · exact Expr.HasType.fillings_suit e ha hmeets hinside
    · exact Expr.fillingsOf_suit rest hrest hun'

end

/-- A value as a whole suits its place: sizes may differ for literals only, and these have a length. -/
theorem Expr.HasType.suits (he : e.HasType a) (hfits : ValueType.canAssign e.origin place a) :
    (Filling.mk place e).suits := by
  cases a with
  | array w n =>
    rcases ValueType.canAssign_array hfits with hpointer | ⟨u, m, rfl, hsame | ⟨horigin, hsize, _⟩⟩
    · exact Filling.suits_of_isPointer hpointer
    · simp [Filling.suits, he.type?, hsame]
    · have hliteral : e.fillsArray := by
        by_contra hvalue
        simp [Expr.origin, hvalue] at horigin
      obtain ⟨length, rfl⟩ := he.length_of_fillsArray hliteral
      simp [Filling.suits, he.type?, hliteral, ArraySize.holds_of_sizeFits m.holds_self hsize]
  | scalar | pointer | struct | function => simp only [Filling.suits, he.type?]

namespace Check

/-- **Literals are the way around array types, and so are the lists around them.** Take a value that has
been checked and can be stored at a place. As a whole it suits the place. Its items suit theirs, at every
depth, exactly if none of them is an array that is no literal and stands where an array of another type is
wanted. -/
theorem accepted_suits_iff (sources : Sources) (value : Expr) (place : ValueType) (s s' : CheckState)
    (r : Expr × ValueType) (h : (typed sources value).run s = .ok r s')
    (haccepted : ValueType.canAssign value.origin place r.2) :
    (Filling.mk place r.1).suits ∧
      ((∀ f ∈ r.1.fillings place, f.suits) ↔ ∀ f ∈ r.1.fillings place, f.isStretched = false) := by
  obtain ⟨hsame, htype⟩ := typed_sound sources value s r s' trivial h
  rw [← Expr.origin_of_blur hsame] at haccepted
  have hsuits := htype.suits haccepted
  refine ⟨hsuits, fun hall f hf => Filling.not_isStretched_of_suits (hall f hf), fun hun => ?_⟩
  have hmeets : place.Meets r.2 := by
    refine Expr.HasType.meets r.1 htype (.refl _) (ValueType.canAssign_literal haccepted) ?_
    exact List.forall_mem_cons.mpr ⟨Filling.not_isStretched_of_suits hsuits, hun⟩
  exact Expr.HasType.fillings_suit r.1 htype hmeets hun

/-- A list of two texts, the second of which is shorter, where there is room for longer ones. -/
theorem accepted_suits_iff_texts : let value := Expr.array default [.string default "ab", .string default "c"]
    let place := ValueType.array (.array (.scalar .char) (.fixed 4)) (.fixed 2)
    ∃ r s, (typed (sources {}) value).run {} = .ok r s ∧ (Filling.mk place r.1).suits ∧
      ((∀ f ∈ r.1.fillings place, f.suits) ↔ ∀ f ∈ r.1.fillings place, f.isStretched = false) := by
  intro value place
  exact ⟨_, _, rfl, accepted_suits_iff (sources {}) value place {} _ _ rfl rfl⟩

end Check

/-- What fills the places inside the value that a variable starts with. -/
def Stmt.fillings : Stmt → List Filling
  | .declare _ ⟨_, _, some value, some place⟩ => value.fillings place
  | _ => []

/-- A variable of two items is taken for an array of three once brackets are written around it. -/
theorem CheckedUnit.accepted_stretched : ∃ m u,
    Module.ofText "t.cu" "x: int[2]\ny: int[3][1] = [x]\n" = .ok m ∧ ofModule {} m none = .ok u ∧
      ∃ s ∈ u.module.body, ∃ f ∈ s.fillings, f.suits = false := by
  have hany : ((ofText {} "t.cu" "x: int[2]\ny: int[3][1] = [x]\n").toOption.any fun u =>
      u.module.body.any fun s => s.fillings.any fun f => !f.suits) = true := by
    decide +kernel
  obtain ⟨u, hu, hany⟩ := exists_ok_of_any hany
  obtain ⟨m, hm, hu⟩ := ofText_ok hu
  exact ⟨m, u, hm, hu, by simpa using hany⟩

end Offside
