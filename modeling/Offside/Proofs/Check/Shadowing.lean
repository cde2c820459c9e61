import Offside.Proofs.Check.Passage
import Offside.Proofs.Check.Upheld

/-! Values of names and what hides them.

Variables and the values of names are kept apart: a definition or a member of an enumeration sets both, a
declaration of any other kind gives its name a type and leaves its value. So a name that such a
declaration hides keeps its value from further out, and so does a name whose own definition has no value,
once a header has been read. A value that is not the one of the visible declaration has outlived its own
(`History.Outlived`). In every scope of every state that a check visits, names fold to what their visible
declarations set, except those that have been outlived (`Check.Visited.constants_shown_iff`). -/
namespace Offside

namespace History

variable {name : String} {h : History}

/-- The value that was set last, by whatever declaration of the name. -/
def value? (name : String) : History → Option Int
  | start => none
  | declared n origin _ before =>
    if n = name then origin.sets.getD (before.value? name) else before.value? name
  | taken global before => (before.value? name).or (global.value? name)

/-- The value that the visible declaration has set, or one that repeats it. -/
def shown? (name : String) : History → Option Int
  | start => none
  | declared n origin fresh before =>
    if n = name then origin.sets.getD (if fresh then none else before.shown? name)
    else before.shown? name
  | taken global before => if (before.origin? name).isSome then before.shown? name else global.shown? name

/-- A name has a value that its visible declaration did not set. -/
inductive Outlived (name : String) : History → Prop where
  /-- A declaration that sets no value hides one that did. -/
  | hidden {origin : Origin} {before : History} : origin.sets = none →
      (before.value? name).isSome = true → Outlived name (.declared name origin true before)
  | repeated {origin : Origin} {before : History} : origin.sets = none → Outlived name before →
      Outlived name (.declared name origin false before)
  | elsewhere {n : String} {before : History} (origin : Origin) (fresh : Bool) : n ≠ name →
      Outlived name before → Outlived name (.declared n origin fresh before)
  /-- The name is declared without a value, and takes the value that it has globally. -/
  | restored {global before : History} : (before.origin? name).isSome = true →
      before.value? name = none → (global.value? name).isSome = true →
      Outlived name (.taken global before)
  | kept {before : History} (global : History) : Outlived name before → Outlived name (.taken global before)
  | adopted {global before : History} : before.origin? name = none → Outlived name global →
      Outlived name (.taken global before)

/-- What has a value has been declared. -/
theorem origin_of_value (hvalue : (h.value? name).isSome = true) : (h.origin? name).isSome = true := by
  induction h with
  | start => cases hvalue
  | declared n origin fresh before ih =>
    unfold value? at hvalue
    unfold origin?
    by_cases hname : n = name
    · rw [if_pos hname]
      cases fresh <;> simp
    · rw [if_neg hname] at hvalue ⊢
      exact ih hvalue
  | taken global before ihglobal ih =>
    simp only [value?, Option.isSome_or, Bool.or_eq_true] at hvalue
    simp only [origin?, Option.isSome_or, Bool.or_eq_true]
    exact hvalue.imp ih ihglobal

theorem value_eq_none (hfree : h.origin? name = none) : h.value? name = none := by
  cases hvalue : h.value? name with
  | none => rfl
  | some value =>
    have horigin := origin_of_value (Option.isSome_iff_exists.mpr ⟨value, hvalue⟩)
    rw [hfree] at horigin
    cases horigin

/-- What the visible declaration has set is still the value of the name. -/
theorem value_of_shown {value : Int} (hshown : h.shown? name = some value) : h.value? name = some value := by
  induction h with
  | start => cases hshown
  | declared n origin fresh before ih =>
    unfold shown? at hshown
    unfold value?
    by_cases hname : n = name
    · rw [if_pos hname] at hshown ⊢
      cases hsets : origin.sets with
      | some set =>
        rw [hsets] at hshown
        exact hshown
      | none =>
        rw [hsets] at hshown
        cases fresh with
        | true => cases hshown
        | false => exact ih hshown
    · rw [if_neg hname] at hshown ⊢
      exact ih hshown
  | taken global before ihglobal ih =>
    unfold shown? at hshown
    unfold value?
    split at hshown
    · rw [ih hshown]
      rfl
    · rename_i hfree
      rw [value_eq_none (by simpa using hfree), ihglobal hshown]
      rfl

theorem shown_eq_none (hvalue : h.value? name = none) : h.shown? name = none := by
  cases hshown : h.shown? name with
  | none => rfl
  | some value =>
    rw [value_of_shown hshown] at hvalue
    cases hvalue

/-- A value that has been outlived is not the one that the visible declaration has set. -/
theorem Outlived.differs (hout : h.Outlived name) :
    (h.value? name).isSome = true ∧ h.value? name ≠ h.shown? name := by
  induction hout with
  | hidden hsets hvalue =>
    simp only [value?, shown?, hsets, if_true, Option.getD_none]
    exact ⟨hvalue, fun heq => by rw [heq] at hvalue; cases hvalue⟩
  | repeated hsets _ ih =>
    simp only [value?, shown?, hsets, if_true, Option.getD_none]
    exact ih
  | elsewhere origin fresh hname _ ih =>
    simp only [value?, shown?, if_neg hname]
    exact ih
  | restored horigin hvalue hglobal =>
    simp only [value?, shown?, horigin, hvalue, if_true, Option.none_or, shown_eq_none hvalue]
    exact ⟨hglobal, fun heq => by rw [heq] at hglobal; cases hglobal⟩
  | @kept before global _ ih =>
    obtain ⟨value, hvalue⟩ := Option.isSome_iff_exists.mp ih.1
    simp only [value?, shown?, origin_of_value ih.1, if_true, hvalue, Option.some_or]
    exact ⟨rfl, hvalue ▸ ih.2⟩
  | adopted hfree _ ih =>
    simp only [value?, shown?, hfree, value_eq_none hfree, Option.none_or]
    exact ih

/-- All other values are those that the visible declarations have set. -/
theorem value_eq_shown {h : History} (hout : ¬ h.Outlived name) : h.value? name = h.shown? name := by
  induction h with
  | start => rfl
  | declared n origin fresh before ih =>
    unfold value? shown?
    by_cases hname : n = name
    · rw [if_pos hname, if_pos hname]
      subst hname
      cases hsets : origin.sets with
      | some set => rfl
      | none =>
        cases fresh with
        | true =>
          cases hvalue : before.value? n with
          | none => rfl
          | some value => exact absurd (.hidden hsets (by rw [hvalue]; rfl)) hout
        | false => exact ih fun hbefore => hout (.repeated hsets hbefore)
    · rw [if_neg hname, if_neg hname]
      exact ih fun hbefore => hout (.elsewhere origin fresh hname hbefore)
  | taken global before ihglobal ih =>
    unfold value? shown?
    cases horigin : before.origin? name with
    | none =>
      rw [value_eq_none horigin]
      exact ihglobal fun hglobal => hout (.adopted horigin hglobal)
    | some origin =>
      have hbefore := ih fun hbefore => hout (.kept global hbefore)
      have hbound : (before.origin? name).isSome = true := by rw [horigin]; rfl
      cases hvalue : before.value? name with
      | some value =>
        rw [← hbefore, hvalue]
        rfl
      | none =>
        cases hglobal : global.value? name with
        | none => exact (shown_eq_none hvalue).symm
        | some value => exact absurd (.restored hbound hvalue (by rw [hglobal]; rfl)) hout

theorem value_eq_shown_iff (h : History) (name : String) : h.value? name = h.shown? name ↔ ¬ h.Outlived name :=
  ⟨fun heq hout => hout.differs.2 heq, value_eq_shown⟩

end History

/-! ### Frames -/

/-- Names fold to the values that were set last, and what has been declared has a type. -/
structure Frame.Folding (f : Frame) : Prop where
  constants : ∀ name, f.scope.constants.get? name = f.history.value? name
  bears : f.Bears fun _ _ => True

namespace Frame.Folding

variable {f g : Frame}

variable (h : f.Folding)
include h

theorem declare (name : String) (type : ValueType) (origin : Origin) : (f.declare name type origin).Folding := by
  refine ⟨fun other => ?_, h.bears.declare fun _ => trivial⟩
  have hset (fresh : Bool) : (origin.constants name f.scope.constants).get? other =
      History.value? other (.declared name origin fresh f.history) := by
    rw [Origin.get?_constants, h.constants]
    rfl
  obtain hd | ⟨hd, _⟩ | ⟨hd, _⟩ := f.declare_cases name type origin
  · rw [hd]
    exact h.constants other
  · rw [hd]
    exact hset false
  · rw [hd]
    exact hset true

theorem step {phase : Phase} (hstep : f.Step phase g) : g.Folding := by
  cases hstep with
  | noted | struct | synonym | typedef | enum => exact ⟨h.constants, h.bears⟩
  | declaration | function | known | member => exact h.declare _ _ _

theorem absorb (hg : g.Folding) : (f.absorb g).Folding := by
  refine ⟨fun name => ?_, h.bears.absorb hg.bears⟩
  show (f.scope.constants.absorb g.scope.constants).get? name = _
  rw [Dictionary.get?_absorb, h.constants, hg.constants]
  rfl

theorem params (head : Origin) {params : List Param} {types : List ValueType}
    (hlength : List.Forall₂ (fun _ _ => True) params types) :
    (f.child.bindParams head params types).Folding := by
  have hchild : f.child.Folding := ⟨h.constants, h.bears⟩
  exact Frame.bindParams_keeps (φ := fun _ _ => True) hchild hlength fun g name type origin hg _ =>
    hg.declare name type origin

end Frame.Folding

namespace Check

theorem folding_upholds : Upholds (fun _ => True) (fun _ => True) (fun _ => True) Frame.Folding where
  step hf hstep := hf.step hstep
  absorb hf hg := hf.absorb hg
  value _ hf _ _ _ := hf.declare _ _ _
  define _ hf _ _ := hf.declare _ _ _
  result _ _ _ := trivial
  noResult := trivial
  struct hf _ _ := ⟨hf.constants, hf.bears⟩
  params hf htakes := hf.params _ (htakes.imp fun _ _ _ => trivial)
  inferred _ _ hg _ _ _ := hg.declare _ _ _

/-- Wherever a check stands and however it got there, a name folds to what its visible declaration has
set, and to nothing if that has set nothing, exactly unless its value has been outlived; and what folds
has a type. -/
theorem Visited.constants_shown_iff {config : Config} {s : CheckState} (h : Visited config s) :
    (∃ c, Passed config ⟨s, c⟩) ∧ ∀ c, Passed config ⟨s, c⟩ → Stage.Each (fun f => ∀ name,
      (f.scope.constants.get? name = f.history.shown? name ↔ ¬ f.history.Outlived name) ∧
      ∀ value, f.scope.constants.get? name = some value → (f.scope.lookup name).isSome = true)
      ⟨s, c⟩ := by
  refine ⟨h.passed.2, fun c hpassed => ?_⟩
  have hstart : Frame.Folding ⟨{}, .start⟩ := ⟨fun _ => rfl, fun _ => .none⟩
  have hupheld := folding_upholds.passed hstart hpassed ⟨fun _ _ => trivial, fun _ _ => trivial⟩
  refine hupheld.each.imp fun f hf name => ⟨?_, fun value hvalue => ?_⟩
  · rw [hf.constants]
    exact f.history.value_eq_shown_iff name
  · rw [hf.constants] at hvalue
    exact hf.bears.lookup (History.origin_of_value (Option.isSome_iff_exists.mpr ⟨value, hvalue⟩))

/-- The beginning of the body of a function with a parameter `N`, behind a definition of `N`. -/
def hidingParameter : Check Unit := do
  let _ ← statement (sourcesTo {} 0) (.define default "N" (some (.int default 2)))
  let head : FunctionHead :=
    ⟨"f", [⟨.named "N" (some (.name default "int")), default, none⟩], some (.name default "int"), none⟩
  let (types, returns) ← openDefinition (sourcesTo {} 0) head default
  modify fun t =>
    { t with function := some { name := head.name, returns }, environment := t.environment.enter }
  modifyScope (bindParams head.params types)

theorem hidingParameter_visited {s : CheckState} {a : Unit} (h : hidingParameter.run {} = .ok a s) :
    Visited {} s := by
  obtain ⟨_, s1, hdefine, h⟩ := run_bind_ok.mp h
  obtain ⟨⟨types, returns⟩, s2, hopen, h⟩ := run_bind_ok.mp h
  obtain ⟨_, s3, henter, h⟩ := run_bind_ok.mp h
  cases henter
  have hformed : (Stmt.define default "N" (some (.int default 2))).WellFormed := by
    refine ⟨by decide, ?_⟩
    rintro _ ⟨⟩
    exact ⟨rfl, by decide, by decide⟩
  exact ((Visited.start none).behind 0 hformed hdefine).body 0 hopen h

/-- The parameter has a value, which is either its own or has been outlived. -/
theorem Visited.constants_shown_iff_parameter :
    ∃ s, Visited {} s ∧ s.scope.isLocal "N" = true ∧ s.scope.constants.get? "N" = some 2 ∧
      (∃ c, Passed {} ⟨s, c⟩) ∧ ∀ c, Passed {} ⟨s, c⟩ → ((Stage.frame ⟨s, c⟩).history.shown? "N" = some 2 ↔
          ¬ (Stage.frame ⟨s, c⟩).history.Outlived "N") := by
  have htest : (match hidingParameter.run {} with
      | .ok _ s => s.scope.isLocal "N" && s.scope.constants.get? "N" == some 2
      | .error _ _ => false) = true := by
    decide +kernel
  cases hrun : hidingParameter.run {} with
  | error failure s =>
    rw [hrun] at htest
    cases htest
  | ok a s =>
    rw [hrun] at htest
    simp only [Bool.and_eq_true, beq_iff_eq] at htest
    have hs := hidingParameter_visited hrun
    obtain ⟨hpassed, hshown⟩ := hs.constants_shown_iff
    refine ⟨s, hs, htest.1, htest.2, hpassed, fun c hc => ?_⟩
    have hframe := ((hshown c hc).frame "N").1
    rw [show (Stage.frame ⟨s, c⟩).scope.constants.get? "N" = some 2 from htest.2] at hframe
    rw [← hframe]
    exact eq_comm

end Check

end Offside
