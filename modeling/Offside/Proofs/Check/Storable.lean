import Offside.Proofs.Check.Passage
import Offside.Proofs.Check.Upheld

/-! Variables that can be stored.

Nothing can be stored in a variable of type `void`, nor in one of the type of `NULL`. Declarations refuse
these types, each in its own way, and written arrays refuse `void` items. What is left: a definition gives
its name the type of any value, a parameter may be written `void`, and a list of items takes the type of
its first. In every scope of every state that a check visits, variables are storable but for that, and so
are the items of all arrays inside their types (`Check.Visited.variables_storable`). -/
namespace Offside

variable {type : ValueType} {items : ValueType → Prop}

namespace ValueType

/-- Neither `void` nor the type of `NULL`. -/
def isStorable (t : ValueType) : Bool := !(t.isVoid || t.isNull)

/-- A type that another is built from. -/
inductive Occurs (part : ValueType) : ValueType → Prop where
  | whole : Occurs part part
  | target {t : ValueType} : Occurs part t → Occurs part (.pointer t)
  | element {t : ValueType} (size : ArraySize) : Occurs part t → Occurs part (.array t size)
  | member {s : String} {members : List (String × ValueType)} {m : String × ValueType} :
      m ∈ members → Occurs part m.2 → Occurs part (.struct s members)
  | param {params : List ValueType} {p : ValueType} (returns : ValueType) : p ∈ params →
      Occurs part p → Occurs part (.function params returns)
  | result (params : List ValueType) {returns : ValueType} : Occurs part returns →
      Occurs part (.function params returns)

/-- Arrays inside the type have the given items, and no parameter has the type of `NULL`. -/
structure Regular (items : ValueType → Prop) (t : ValueType) : Prop where
  arrays : ∀ element size, Occurs (.array element size) t → items element
  params : ∀ params returns, Occurs (.function params returns) t → ∀ p ∈ params, p.isNull = false

namespace Regular

variable {items : ValueType → Prop} {t : ValueType}

theorem scalar (s : Scalar) : Regular items (.scalar s) := ⟨nofun, nofun⟩

theorem namedStruct (name : String) : Regular items (.namedStruct name) := by
  refine ⟨fun element size h => ?_, fun params returns h => ?_⟩
  · cases h with
    | member hm => cases hm
  · cases h with
    | member hm => cases hm

theorem pointer (h : Regular items t) : Regular items (.pointer t) := by
  refine ⟨fun element size harray => ?_, fun params returns hfunction => ?_⟩
  · cases harray with
    | target harray => exact h.arrays element size harray
  · cases hfunction with
    | target hfunction => exact h.params params returns hfunction

theorem array (h : Regular items t) (ht : items t) (size : ArraySize) : Regular items (.array t size) := by
  refine ⟨fun element size harray => ?_, fun params returns hfunction => ?_⟩
  · cases harray with
    | whole => exact ht
    | element _ harray => exact h.arrays element size harray
  · cases hfunction with
    | element _ hfunction => exact h.params params returns hfunction

theorem struct {name : String} {members : List (String × ValueType)}
    (h : ∀ m ∈ members, Regular items m.2) : Regular items (.struct name members) := by
  refine ⟨fun element size harray => ?_, fun params returns hfunction => ?_⟩
  · cases harray with
    | member hm harray => exact (h _ hm).arrays element size harray
  · cases hfunction with
    | member hm hfunction => exact (h _ hm).params params returns hfunction

theorem function {params : List ValueType} {returns : ValueType}
    (hparams : ∀ p ∈ params, Regular items p ∧ p.isNull = false) (hreturns : Regular items returns) :
    Regular items (.function params returns) := by
  refine ⟨fun element size harray => ?_, fun ps r hfunction => ?_⟩
  · cases harray with
    | param _ hp harray => exact (hparams _ hp).1.arrays element size harray
    | result _ harray => exact hreturns.arrays element size harray
  · cases hfunction with
    | whole => exact fun p hp => (hparams p hp).2
    | param _ hp hfunction => exact (hparams _ hp).1.params ps r hfunction
    | result _ hfunction => exact hreturns.params ps r hfunction

/-- What a regular type is built from is regular. -/
theorem part {part : ValueType} (h : Regular items t)
    (hpart : ∀ x, Occurs x part → Occurs x t) : Regular items part :=
  ⟨fun element size harray => h.arrays element size (hpart _ harray),
    fun params returns hfunction => h.params params returns (hpart _ hfunction)⟩

end Regular

end ValueType

open ValueType (Occurs Regular)

/-! ### Frames -/

/-- What can be written is regular, and is not the type of `NULL`. -/
theorem TypeTable.Forms.regular (hitems : ∀ t, t.isStorable → items t)
    {t : TypeTable} (ht : t.Bases fun type => Regular items type ∧ type.isNull = false)
    {behindPointer : Bool} (h : t.Forms behindPointer type) :
    Regular items type ∧ type.isNull = false := by
  induction h with
  | @scalar _ s hs =>
    have hall : ∀ s ∈ Scalar.vararg :: Scalar.builtin, (ValueType.scalar s).isNull = false := by decide
    exact ⟨.scalar s, hall s hs⟩
  | named hleads => exact ht.leads hleads
  | forward name => exact ⟨.namedStruct name, rfl⟩
  | pointer _ ih => exact ⟨ih.1.pointer, rfl⟩
  | array size _ hvoid ih =>
    refine ⟨ih.1.array (hitems _ ?_) size, rfl⟩
    rw [ValueType.isStorable, hvoid, ih.2]
    rfl
  | function _ _ ihparams ihreturns => exact ⟨.function ihparams ihreturns.1, rfl⟩

/-- The types that a declaration may give: definitions take them all, and parameters take `void`. -/
def Origin.admits (type : ValueType) : Origin → Bool
  | constant _ => true
  | parameter | announced _ => !type.isNull
  | _ => type.isStorable

theorem Origin.constant_of_null {origin : Origin} (h : origin.admits type)
    (hnull : type.isNull) : ∃ value, origin = .constant value := by
  cases origin with
  | constant value => exact ⟨value, rfl⟩
  | _ => simp [admits, ValueType.isStorable, hnull] at h

theorem Origin.constant_or_parameter_of_void {origin : Origin} (h : origin.admits type) (hvoid : type.isVoid) :
    (∃ value, origin = .constant value) ∨ origin = .parameter ∨ ∃ head, origin = .announced head := by
  cases origin with
  | constant value => exact .inl ⟨value, rfl⟩
  | parameter => exact .inr (.inl rfl)
  | announced head => exact .inr (.inr ⟨head, rfl⟩)
  | _ => simp [admits, ValueType.isStorable, hvoid] at h

theorem TypeTable.regular_warrants (hitems : ∀ t, t.isStorable → items t) :
    TypeTable.Warrants (fun _ type => Regular items type ∧ type.isNull = false)
      fun _ origin type => Regular items type ∧ origin.admits type where
  spread _ h := h
  spreadGiven _ h := h
  enum _ := ⟨.scalar _, rfl⟩
  struct _ hmembers := ⟨.struct fun m hm => (hmembers m hm).1, rfl⟩
  forms htable hforms := hforms.regular hitems htable
  declaration h hvoid := ⟨h.1, by simp [Origin.admits, ValueType.isStorable, hvoid, h.2]⟩
  function h := ⟨h.1, rfl⟩
  member _ h := ⟨h.1, rfl⟩
  parameter h := ⟨h.1, by simp [Origin.admits, h.2]⟩
  announced h hmem := by
    refine ⟨h.1.part fun x hx => .param _ hmem hx, ?_⟩
    simp [Origin.admits, h.1.params _ _ .whole _ hmem]

/-- The types in the table and those of variables are regular, and each is one that its declaration may
give. -/
abbrev Frame.Storing (items : ValueType → Prop) (f : Frame) : Prop :=
  f.Warranted (fun _ type => Regular items type ∧ type.isNull = false)
    fun _ origin type => Regular items type ∧ origin.admits type = true

/-- What values make of regular types. -/
theorem Frame.Storing.closed {f : Frame} (hitems : ∀ t, t.isStorable → items t) (h : f.Storing items) :
    f.scope.Closed (fun _ => True) items (Regular items) where
  scalar {a} _ := .scalar a
  text value := (Regular.scalar .char).array (hitems _ rfl) _
  lookup hlookup := by
    obtain ⟨_, _, hregular, _⟩ := h.bears.origin hlookup
    exact hregular
  written hforms := (hforms.regular hitems h.table).1
  pointer ht := ht.pointer
  element ht := ht.part fun x hx => .element _ hx
  array size ht hlisted := ht.array hlisted size
  member ht hm := ht.part fun x hx => .member hm hx
  result ht := ht.part fun x hx => .result _ hx
  behind ht _ := ht.part fun x hx => .target hx
  memberBehind ht hm _ := ht.part fun x hx => .target (.member hm hx)
  resultBehind ht _ := ht.part fun x hx => .target (.result _ hx)

/-! ### Values on record -/

/-- A value on record, or one that a function's type was inferred from, lists items of the type. -/
def Chronicle.Lists (c : Chronicle) (type : ValueType) : Prop :=
  ∃ e ∈ c.values ++ c.results, ∃ p ∈ e :: e.inside, p.listed? = some type

theorem Chronicle.records_lists (c : Chronicle) :
    c.Records (Expr.Throughout (Expr.Meets (fun _ => True) fun t => t.isStorable ∨ c.Lists t))
      (Expr.Throughout (Expr.Meets (fun _ => True) fun t => t.isStorable ∨ c.Lists t)) := by
  have hlists : ∀ e ∈ c.values ++ c.results,
      e.Throughout (Expr.Meets (fun _ => True) fun t => t.isStorable ∨ c.Lists t) :=
    fun e he p hp => ⟨fun _ _ => trivial, fun type htype => .inr ⟨e, he, p, hp, htype⟩⟩
  exact List.forall_mem_append.mp hlists

namespace Check

theorem storing_start (items : ValueType → Prop) : Frame.Storing items ⟨{}, .start⟩ := by
  refine ⟨TypeTable.bases_builtin fun s hs => ⟨.scalar s, ?_⟩, fun name => .none⟩
  have hall : ∀ s ∈ Scalar.builtin, (ValueType.scalar s).isNull = false := by decide
  exact hall s hs

theorem storing_upholds (items : ValueType → Prop) (hitems : ∀ t, t.isStorable → items t) :
    Upholds (Expr.Throughout (Expr.Meets (fun _ => True) items))
      (Expr.Throughout (Expr.Meets (fun _ => True) items)) (Regular items) (Frame.Storing items) where
  step hf hstep := hf.step (TypeTable.regular_warrants hitems) hstep
  absorb hf hg := hf.absorb (TypeTable.regular_warrants hitems) hg
  value _ hf hvalue hmeets hkind := by
    refine hf.declare fun _ => ⟨hvalue.closed (hf.closed hitems) hmeets, ?_⟩
    simp only [Bool.or_eq_false_iff] at hkind
    simp [Origin.admits, ValueType.isStorable, hkind]
  define _ hf hvalue hmeets := hf.declare fun _ => ⟨hvalue.closed (hf.closed hitems) hmeets, rfl⟩
  result hf hvalue hmeets := (hf.closed hitems).decay (hvalue.closed (hf.closed hitems) hmeets)
  noResult := .scalar _
  struct hf hknown hmembers := hf.struct (TypeTable.regular_warrants hitems) hknown fun m hm => (hmembers m hm).1
  params hf htakes := hf.params (TypeTable.regular_warrants hitems) htakes
  inferred _ hf hg _ htypes hreturns :=
    hg.declare fun _ => ⟨.function (fun p hp => (htypes p hp).regular hitems hf.table) hreturns, rfl⟩

/-- Wherever a check stands and however it got there, only a definition gives a variable the type of
`NULL`, only a definition or a parameter gives it `void`, and an array inside the type of a variable has
storable items, unless a value on record lists items of that very type. -/
theorem Visited.variables_storable {config : Config} {s : CheckState} (h : Visited config s) :
    (∃ c, Passed config ⟨s, c⟩) ∧ ∀ c, Passed config ⟨s, c⟩ → Stage.Each (fun f =>
      ∀ name type, f.scope.lookup name = some type → ∃ origin, f.history.origin? name = some origin ∧
        (type.isNull = true → ∃ value, origin = .constant value) ∧
        (type.isVoid = true → (∃ value, origin = .constant value) ∨ origin = .parameter ∨
          ∃ head, origin = .announced head) ∧
        ∀ element size, Occurs (.array element size) type → element.isStorable = true ∨ c.Lists element) ⟨s, c⟩ := by
  refine ⟨h.passed.2, fun c hpassed => ?_⟩
  have hupholds := storing_upholds (fun t => t.isStorable = true ∨ c.Lists t) fun _ => .inl
  have hupheld := hupholds.passed (storing_start _) hpassed c.records_lists
  refine hupheld.each.imp fun f hf name type hlookup => ?_
  obtain ⟨origin, horigin, hregular, hadmits⟩ := hf.bears.origin hlookup
  exact ⟨origin, horigin, Origin.constant_of_null hadmits, Origin.constant_or_parameter_of_void hadmits,
    hregular.arrays⟩

/-- An array of what a function without a result gives. -/
theorem Visited.variables_storable_void_items : ∃ s element size, Visited {} s ∧
      s.environment.global.lookup "x" = some (.array element size) ∧ element.isVoid = true ∧
      (∃ c, Passed {} ⟨s, c⟩) ∧ ∀ c, Passed {} ⟨s, c⟩ → c.Lists element := by
  have hunit : ((CheckedUnit.ofText {} "t.cu" "def g(n: int) -> void:\n    pass\nx = [g(1)]\n").toOption.any fun u =>
        (u.globals.lookup "x").any fun type => type.same (.array .void (.fixed 1))) = true := by
    decide +kernel
  obtain ⟨u, hu, htest⟩ := exists_ok_of_any hunit
  obtain ⟨s, hs, hglobal⟩ := Visited.ofText hu
  obtain ⟨type, hlookup, htype⟩ := (Option.any_eq_true _ _).mp htest
  cases type with
  | array element size =>
    have hvoid : element.isVoid = true := by
      cases element with
      | scalar a =>
        rw [ValueType.same, Bool.and_eq_true] at htype
        exact htype.2
      | pointer | array | struct | function => simp [ValueType.same, ValueType.void] at htype
    rw [← hglobal] at hlookup
    obtain ⟨hpassed, hstorable⟩ := hs.variables_storable
    refine ⟨s, element, size, hs, hlookup, hvoid, hpassed, fun c hc => ?_⟩
    obtain ⟨_, _, _, _, harrays⟩ := (hstorable c hc).global "x" _ hlookup
    rcases harrays element size .whole with hitem | hlists
    · simp [ValueType.isStorable, hvoid] at hitem
    · exact hlists
  | scalar | pointer | struct | function => simp [ValueType.same] at htype

/-- `NULL` is refused as the value of a new variable, but not inside the array that is its value. -/
theorem null_listed : (∃ u, CheckedUnit.ofText {} "t.cu" "x = [NULL]\n" = .ok u ∧
      (u.globals.lookup "x").any (·.same (.array (.scalar .null) (.fixed 1))) = true) ∧
    (CheckedUnit.ofText {} "t.cu" "x = NULL\n").toOption.isNone = true := by
  have h : ((CheckedUnit.ofText {} "t.cu" "x = [NULL]\n").toOption.any fun u =>
      (u.globals.lookup "x").any (·.same (.array (.scalar .null) (.fixed 1)))) = true := by
    decide +kernel
  exact ⟨exists_ok_of_any h, by decide +kernel⟩

end Check

end Offside
