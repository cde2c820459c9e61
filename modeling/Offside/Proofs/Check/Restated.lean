import Offside.Proofs.Check.Abreast
import Offside.Proofs.Check.LeftOut
import Offside.Proofs.Check.Transparency
import Offside.Proofs.Check.TypingSound

/-! A program with its types written out is checked like the program itself.

Beside the check of a program goes that of the program with the types written out that the first check
finds. Types that are left out have to be standard, so that they mean the same where they are written.
Functions that leave out the type of their results are the difficult case: written out, they are known in
their own bodies, so they must not be named there, nor declared by a header that is read there. -/
namespace Offside

open List

namespace Check

variable {k : Pairing} {sources : Sources} {s s' t : CheckState}

/-! ### Types that are written out -/

theorem resolveName_builtin (hfounded : s.scope.types.Founded) {scalar : Scalar}
    (hscalar : scalar ∈ Scalar.builtin) (l : Location) (behindPointer : Bool) :
    (resolveName sources scalar.name l behindPointer).run s = .ok (.scalar scalar) s := by
  have hknown : s.scope.types.contains scalar.name := by
    rw [TypeTable.contains, Dictionary.contains,
      show s.scope.types.entries.get? scalar.name = _ from hfounded scalar hscalar]
    rfl
  refine run_bind_ok.mpr ⟨(), s, needType_known hknown, run_bind_ok.mpr ⟨s.scope, s, rfl, ?_⟩⟩
  dsimp only
  rw [if_pos hknown, hfounded.resolve hscalar]
  rfl

mutual

/-- A standard type that is written out is worked out to itself, and no header is read. -/
theorem resolveWith_spell (hfounded : s.scope.types.Founded) :
    (type : ValueType) → type.isStandard → (behindPointer : Bool) → (written : TypeExpr) →
      written.blur .bare = type.spell.blur .bare →
      (resolveWith sources behindPointer written).run s = .ok type s
  | .scalar scalar, hstandard, behindPointer, written, h => by
    have hscalar : scalar ∈ Scalar.builtin := by simpa [ValueType.isStandard] using hstandard
    have hspell : (ValueType.scalar scalar).spell = .name default scalar.name := by
      cases scalar with
      | vararg => cases hstandard
      | _ => rfl
    rw [hspell] at h
    cases written with
    | name _ n =>
      obtain ⟨_, rfl⟩ := TypeExpr.name.inj h
      exact resolveName_builtin hfounded hscalar _ behindPointer
    | _ => cases h
  | .pointer target, hstandard, _, written, h => by
    cases written with
    | pointer _ written =>
      have htarget : written.blur .bare = target.spell.blur .bare := (TypeExpr.pointer.inj h).2
      exact run_bind_ok.mpr ⟨target, s, resolveWith_spell hfounded target hstandard true written htarget, rfl⟩
    | _ => cases h
  | .array element (.fixed n), hstandard, behindPointer, written, h => by
    simp only [ValueType.isStandard, Bool.and_eq_true] at hstandard
    cases written with
    | array _ written size =>
      obtain ⟨_, helement, hsize⟩ := TypeExpr.array.inj h
      have hfold : size.fold s.scope.constants = some (n : Int) := by
        rw [← size.fold_blur .bare, hsize]
        rfl
      refine run_bind_ok.mpr
        ⟨element, s, resolveWith_spell hfounded element hstandard.1.1 behindPointer written helement, ?_⟩
      refine run_bind_ok.mpr ⟨(), s, ?_, run_bind_ok.mpr ⟨.fixed n, s, ?_, rfl⟩⟩
      · rw [require, if_pos hstandard.1.2]
        rfl
      · refine run_bind_ok.mpr ⟨s.scope, s, rfl, ?_⟩
        rw [hfold]
        rfl
    | _ => cases h
  | .function params returns, hstandard, _, written, h => by
    simp only [ValueType.isStandard, Bool.and_eq_true] at hstandard
    cases written with
    | function _ params' returns' =>
      obtain ⟨_, hparams, hreturns⟩ := TypeExpr.function.inj h
      refine run_bind_ok.mpr ⟨params, s, resolveEach_spell hfounded params hstandard.1 params' hparams, ?_⟩
      exact run_bind_ok.mpr ⟨returns, s, resolveWith_spell hfounded returns hstandard.2 false returns' hreturns, rfl⟩
    | _ => cases h
  | .array _ (.symbolic _), hstandard, _, _, _ | .struct _ _, hstandard, _, _, _ => by cases hstandard

theorem resolveEach_spell (hfounded : s.scope.types.Founded) :
    (types : List ValueType) → ValueType.areStandard types → (written : List TypeExpr) →
      TypeExpr.blurList .bare written = TypeExpr.blurList .bare (ValueType.spellEach types) →
      (resolveEach sources written).run s = .ok types s
  | [], _, written, h => by
    cases written with
    | nil => rfl
    | cons => cases h
  | type :: rest, hstandard, written, h => by
    simp only [ValueType.areStandard, Bool.and_eq_true, Bool.or_eq_true] at hstandard
    cases written with
    | nil => cases h
    | cons first more =>
      obtain ⟨hfirst, hmore⟩ := List.cons.inj h
      refine run_bind_ok.mpr ⟨type, s, ?_, run_bind_ok.mpr
        ⟨rest, s, resolveEach_spell hfounded rest hstandard.2 more hmore, rfl⟩⟩
      rcases hstandard.1 with hdots | htype
      · obtain rfl : type = .vararg := by
          cases type with
          | scalar scalar =>
            obtain rfl : scalar = .vararg := by simpa [ValueType.isVararg, ValueType.scalar?] using hdots
            rfl
          | _ => cases hdots
        cases first with
        | vararg _ => rfl
        | _ => cases hfirst
      · exact resolveWith_spell hfounded type htype false first hfirst

end

end Check

/-! ### Heads of functions -/

/-- The head with the types that were found for its parameters and its results. -/
def FunctionHead.noted (head : FunctionHead) (types : List ValueType) (returns : ValueType) : FunctionHead :=
  { head with params := Check.withTypes head.params types, signature := some (.function types returns) }

/-- The second parameter is the first with its type written out. -/
structure Param.RestatedAs (p : Param) (type : ValueType) (p' : Param) : Prop where
  kind : p'.kind.blur .bare = (p.kind.spell (some type)).blur .bare
  standard : ∀ n, p.kind = .named n none → type.isStandard = true

namespace Param.RestatedAs

variable {p p' : Param} {type : ValueType}

theorem name? (h : p.RestatedAs type p') : p'.name? = p.name? := by
  have hkind := h.kind
  unfold Param.name?
  cases hp : p.kind <;> cases hp' : p'.kind <;> rw [hp, hp'] at hkind
  · rw [(ParamKind.named.inj hkind).1]
  · cases hkind
  · cases hkind

/-- It leaves nothing out. -/
theorem declared (h : p.RestatedAs type p') (n : String) : p'.kind ≠ .named n none := by
  intro hp'
  have hkind := h.kind
  rw [hp'] at hkind
  cases hp : p.kind with
  | vararg =>
    rw [hp] at hkind
    cases hkind
  | named m declared =>
    rw [hp] at hkind
    cases declared <;> cases hkind

end Param.RestatedAs

/-- Parameters with their types written out, one by one. -/
inductive Param.AllRestated : List Param → List ValueType → List Param → Prop where
  | nil : AllRestated [] [] []
  | cons {p p' : Param} {type : ValueType} {params params' : List Param} {types : List ValueType} :
      p.RestatedAs type p' → AllRestated params types params' →
      AllRestated (p :: params) (type :: types) (p' :: params')

namespace Param.AllRestated

variable {params params' : List Param} {types : List ValueType}

theorem names (h : AllRestated params types params') : params'.map Param.name? = params.map Param.name? := by
  induction h with
  | nil => rfl
  | cons hp _ ih => rw [map_cons, map_cons, ih, hp.name?]

theorem length (h : AllRestated params types params') : params'.length = params.length := by
  simpa using congrArg List.length h.names

theorem ofBlur (hlen : types.length = params.length)
    (hstandard : ∀ p ∈ Check.withTypes params types, p.Meets .standard)
    (h : params'.map (·.blur .bare) = ((Check.withTypes params types).map Param.spell).map (·.blur .bare)) :
    AllRestated params types params' := by
  induction params generalizing types params' with
  | nil =>
    obtain rfl := length_eq_zero_iff.mp hlen
    obtain rfl : params' = [] := by simpa [Check.withTypes] using h
    exact .nil
  | cons p rest ih =>
    cases types with
    | nil => cases hlen
    | cons type types =>
      cases params' with
      | nil => simp [Check.withTypes] at h
      | cons p' rest' =>
        simp only [Check.withTypes, zipWith_cons_cons, map_cons] at h hstandard
        obtain ⟨hp, hrest⟩ := forall_mem_cons.mp hstandard
        refine .cons ⟨congrArg Param.kind (cons.inj h).1, fun n hn => hp n hn type rfl⟩ ?_
        exact ih (Nat.succ.inj hlen) hrest (cons.inj h).2

/-- Once more nothing is left to be written out. -/
theorem spell (h : AllRestated params types params') :
    ((Check.withTypes params' types).map Param.spell).map (·.blur .bare) =
      params'.map (·.blur .bare) := by
  induction h with
  | nil => rfl
  | @cons p p' type params params' types hp _ ih =>
    have hfirst : ({ p' with type := some type } : Param).spell = { p' with type := some type } :=
      Param.spell_of_declared hp.declared
    simp only [Check.withTypes] at ih
    simp only [Check.withTypes, zipWith_cons_cons, map_cons, ih, hfirst]
    rfl

end Param.AllRestated

/-- The second head is the first with its types written out. -/
structure FunctionHead.RestatedAs (head : FunctionHead) (types : List ValueType) (returns : ValueType)
    (head' : FunctionHead) : Prop where
  name : head'.name = head.name
  params : Param.AllRestated head.params types head'.params
  returns : ∃ written, head'.returns = some written ∧
    ((∃ declared, head.returns = some declared ∧ written.blur .bare = declared.blur .bare) ∨
      (head.returns = none ∧ returns.isStandard = true ∧ written.blur .bare = returns.spell.blur .bare))

namespace FunctionHead.RestatedAs

variable {head head' : FunctionHead} {types : List ValueType} {returns : ValueType}

theorem ofBlur (hlen : types.length = head.params.length) (hstandard : (head.noted types returns).Meets .standard)
    (h : head'.blur .bare = (head.noted types returns).spell.blur .bare) :
    head.RestatedAs types returns head' := by
  have hname : (head'.blur .bare).name = _ := congrArg FunctionHead.name h
  have hparams : (head'.blur .bare).params = _ := congrArg FunctionHead.params h
  refine ⟨hname, .ofBlur hlen hstandard.2.1 hparams, ?_⟩
  have hreturns : head'.returns.map (·.blur .bare) =
      (head.returns.or (some returns.spell)).map (·.blur .bare) := congrArg FunctionHead.returns h
  cases hwritten : head.returns with
  | some declared =>
    rw [hwritten] at hreturns
    obtain ⟨written, hhead', hblur⟩ := Option.map_eq_some_iff.mp hreturns
    exact ⟨written, hhead', .inl ⟨declared, rfl, hblur⟩⟩
  | none =>
    rw [hwritten] at hreturns
    obtain ⟨written, hhead', hblur⟩ := Option.map_eq_some_iff.mp hreturns
    exact ⟨written, hhead', .inr ⟨rfl, hstandard.2.2 hwritten returns rfl, hblur⟩⟩

/-- Once more nothing is left to be written out. -/
theorem spell (h : head.RestatedAs types returns head') :
    (head'.noted types returns).spell.blur .bare = head'.blur .bare := by
  obtain ⟨written, hwritten, _⟩ := h.returns
  simp only [noted, FunctionHead.spell, FunctionHead.blur, h.params.spell, hwritten]
  rfl

end FunctionHead.RestatedAs

namespace Check

variable {k : Pairing} {sources : Sources} {s s' t : CheckState} {head : FunctionHead}
    {params params' : List Param} {types : List ValueType} {function : String}

theorem checkParams_congr {function' : String} {seen : List String}
    (h : params'.map Param.name? = params.map Param.name?) :
    Follows k (checkParams function seen params) (checkParams function' seen params') fun _ _ => True := by
  induction params generalizing seen params' with
  | nil =>
    obtain rfl : params' = [] := by simpa using h
    exact .pure trivial
  | cons p rest ih =>
    cases params' with
    | nil => simp at h
    | cons p' rest' =>
      obtain ⟨hp, hrest⟩ := cons.inj h
      have hempty : rest'.isEmpty = rest.isEmpty := by
        have hlength := congrArg length hrest
        simp only [length_map] at hlength
        rw [Bool.eq_iff_iff, isEmpty_iff_length_eq_zero, isEmpty_iff_length_eq_zero, hlength]
      unfold Param.name? at hp
      unfold checkParams
      cases hkind : p.kind with
      | vararg =>
        rw [hkind] at hp
        cases hkind' : p'.kind with
        | named => rw [hkind'] at hp; cases hp
        | vararg =>
          dsimp only
          rw [hempty]
          exact (Follows.require id).bind fun _ _ _ => .require id
      | named n declared =>
        rw [hkind] at hp
        cases hkind' : p'.kind with
        | vararg => rw [hkind'] at hp; cases hp
        | named n' declared' =>
          rw [hkind'] at hp
          obtain rfl : n' = n := Option.some.inj hp
          exact (Follows.require id).bind fun _ _ _ => ih hrest

variable (hS : LoadsAbreast k sources)
include hS

/-- The type of a parameter, left out or written out. -/
theorem paramType_restated (hst : s.Abreast k t) {p p' : Param}
    {type : ValueType} (hp : p.RestatedAs type p') {announced : Option ValueType}
    (h : (paramType sources function announced p).run s = .ok type s') (function' : String)
    (announced' : Option ValueType) :
    ∃ t', (paramType sources function' announced' p').run t = .ok type t' ∧ s'.Abreast k t' := by
  have hkind := hp.kind
  unfold paramType at h ⊢
  cases hpk : p.kind with
  | vararg =>
    rw [hpk] at h hkind
    cases h
    cases hpk' : p'.kind with
    | named => rw [hpk'] at hkind; cases hkind
    | vararg => exact ⟨t, rfl, hst⟩
  | named n declared =>
    rw [hpk] at h hkind
    cases hpk' : p'.kind with
    | vararg => rw [hpk'] at hkind; cases hkind
    | named n' declared' =>
      rw [hpk'] at hkind
      obtain ⟨_, hdeclared⟩ := ParamKind.named.inj hkind
      cases declared with
      | some written =>
        obtain ⟨written', rfl, hblur⟩ := Option.map_eq_some_iff.mp hdeclared
        obtain ⟨_, t', hrun, hst', rfl⟩ := Follows.resolve hS hblur s t hst type s' h
        exact ⟨t', hrun, hst'⟩
      | none =>
        obtain ⟨written', rfl, hblur⟩ := Option.map_eq_some_iff.mp hdeclared
        cases announced with
        | none => cases h
        | some found =>
          cases h
          have hfounded : t.scope.types.Founded := hst.scope.types ▸ hst.scope.founded
          exact ⟨t, resolveWith_spell hfounded type (hp.standard n hpk) false written' hblur, hst⟩

theorem paramTypes_restated (hst : s.Abreast k t)
    (hparams : Param.AllRestated params types params')
    (h : (paramTypes sources function params).run s = .ok types s')
    (function' : String) :
    ∃ t', (paramTypes sources function' params').run t = .ok types t' ∧ s'.Abreast k t' := by
  induction hparams generalizing s t with
  | nil =>
    cases h
    exact ⟨t, rfl, hst⟩
  | cons hp _ ih =>
    obtain ⟨first, s1, hfirst, hrest⟩ := run_bind_ok.mp h
    obtain ⟨more, s2, hmore, hdone⟩ := run_bind_ok.mp hrest
    cases hdone
    obtain ⟨t1, hfirst', hst1⟩ := paramType_restated hS hst hp hfirst function' none
    obtain ⟨t2, hmore', hst2⟩ := ih hst1 hmore
    exact ⟨t2, run_bind_ok.mpr ⟨_, t1, hfirst', run_bind_ok.mpr ⟨_, t2, hmore', rfl⟩⟩, hst2⟩

theorem matchParams_restated (hst : s.Abreast k t)
    (hparams : Param.AllRestated params types params') {announced : List ValueType}
    (h : (matchParams sources function params announced).run s = .ok types s') (function' : String) :
    ∃ t', (matchParams sources function' params' announced).run t = .ok types t' ∧ s'.Abreast k t' := by
  induction hparams generalizing s t announced with
  | nil =>
    cases h
    exact ⟨t, rfl, hst⟩
  | cons hp _ ih =>
    cases announced with
    | nil => cases h
    | cons type others =>
      obtain ⟨first, s1, hfirst, hrest⟩ := run_bind_ok.mp h
      obtain ⟨_, s2, hsame, hrest⟩ := run_bind_ok.mp hrest
      obtain ⟨more, s3, hmore, hdone⟩ := run_bind_ok.mp hrest
      cases hdone
      obtain ⟨hkept, rfl⟩ := require_ok hsame
      obtain ⟨t1, hfirst', hst1⟩ := paramType_restated hS hst hp hfirst function' (some type)
      obtain ⟨t2, hmore', hst2⟩ := ih hst1 hmore
      refine ⟨t2, run_bind_ok.mpr ⟨_, t1, hfirst', run_bind_ok.mpr ⟨(), t1, ?_, ?_⟩⟩, hst2⟩
      · rw [require, if_pos hkept]
        rfl
      · exact run_bind_ok.mpr ⟨_, t2, hmore', rfl⟩

/-- The type of results, left out or written out. `default` stands in where the first check knows none. -/
theorem resolveOption_restated (hst : s.Abreast k t)
    {head' : FunctionHead} {returns default : ValueType} (hhead : head.RestatedAs types returns head')
    {found : Option ValueType} (h : (resolveOption sources head.returns).run s = .ok found s')
    (hreturns : found.getD default = returns) :
    ∃ t', (resolveOption sources head'.returns).run t = .ok (some returns) t' ∧ s'.Abreast k t' := by
  obtain ⟨written, hwritten, ⟨declared, hdeclared, hblur⟩ | ⟨hnone, hstandard, hblur⟩⟩ := hhead.returns
  · rw [hdeclared] at h
    obtain ⟨type, s1, hresolve, hdone⟩ := run_bind_ok.mp h
    cases hdone
    obtain ⟨_, t', hresolve', hst', rfl⟩ := Follows.resolve hS hblur s t hst _ _ hresolve
    rw [hwritten, ← hreturns]
    exact ⟨t', run_bind_ok.mpr ⟨_, t', hresolve', rfl⟩, hst'⟩
  · rw [hnone] at h
    cases h
    have hfounded : t.scope.types.Founded := hst.scope.types ▸ hst.scope.founded
    rw [hwritten]
    have hresolve : (resolve sources written).run t = .ok returns t :=
      resolveWith_spell hfounded returns hstandard false written hblur
    exact ⟨t, run_bind_ok.mpr ⟨_, t, hresolve, rfl⟩, hst⟩

/-- **An announcement with its types written out** makes the same name known. -/
theorem announce_restated (hst : s.Abreast k t) {found : FunctionHead}
    {l : Location} (hname : k.Shares head.name) (h : (announce sources head l).run s = .ok found s') :
    ∃ types returns, found = head.noted types returns ∧ types.length = head.params.length ∧
      ∀ head' l', head.RestatedAs types returns head' →
        ∃ t', (announce sources head' l').run t = .ok (head'.noted types returns) t' ∧ s'.Abreast k t' := by
  obtain ⟨_, s1, hcheck, h1⟩ := run_bind_ok.mp h
  obtain ⟨types, s2, htypes, h2⟩ := run_bind_ok.mp h1
  obtain ⟨result, s3, hresult, h3⟩ := run_bind_ok.mp h2
  obtain ⟨_, _, hscope, h4⟩ := run_bind_ok.mp h3
  cases hscope
  have hlen := paramTypes_yields sources head.name head.params s1 types s2 trivial htypes
  have hsettled : found = head.noted types (result.getD .int) ∧
      s' = s3.setScope (s3.scope.bind head.name (.function types (result.getD .int))).2 ∧
      ∀ previous, (s3.scope.bind head.name (.function types (result.getD .int))).1 ≠ .conflict previous := by
    dsimp only at h4
    generalize s3.scope.bind head.name (.function types (result.getD .int)) = bound at h4 ⊢
    obtain ⟨fate, scope⟩ := bound
    cases fate with
    | new | repeated =>
      cases h4
      exact ⟨rfl, rfl, by simp⟩
    | conflict previous =>
      dsimp only at h4
      split at h4 <;> cases h4
  obtain ⟨rfl, rfl, hfate⟩ := hsettled
  refine ⟨types, result.getD .int, rfl, hlen, fun head' l' hhead => ?_⟩
  have hchecks : Follows k (checkParams head.name [] head.params) (checkParams head'.name [] head'.params) _ :=
    checkParams_congr hhead.params.names
  obtain ⟨_, t1, hcheck', hst1, _⟩ := hchecks s t hst _ _ hcheck
  obtain ⟨t2, htypes', hst2⟩ := paramTypes_restated hS hst1 hhead.params htypes head'.name
  obtain ⟨t3, hresult', hst3⟩ := resolveOption_restated hS hst2 hhead hresult rfl
  obtain ⟨hsame, hbound⟩ := hst3.scope.bind hname (.function types (result.getD .int))
  refine ⟨t3.setScope (t3.scope.bind head.name (.function types (result.getD .int))).2, ?_,
    hst3.setScope hbound (.bind hname _ _) (.bind hname _ _)⟩
  refine run_bind_ok.mpr ⟨_, t1, hcheck', run_bind_ok.mpr ⟨_, t2, htypes', run_bind_ok.mpr
    ⟨_, t3, hresult', run_bind_ok.mpr ⟨t3.scope, t3, rfl, ?_⟩⟩⟩⟩
  rw [hhead.name]
  dsimp only [Option.getD_some]
  rw [← hsame] at hfate
  generalize t3.scope.bind head.name (.function types (result.getD .int)) = bound at hfate ⊢
  obtain ⟨fate, scope⟩ := bound
  cases fate with
  | new | repeated =>
    rw [← hhead.name]
    rfl
  | conflict previous => exact absurd rfl (hfate previous)

/-- The types of a definition, left out or written out. `returns` is what the definition is found to give
in the end. -/
theorem definitionTypes_restated (hst : s.Abreast k t)
    {head' : FunctionHead} {result : Option ValueType} {returns : ValueType}
    {l : Location} (hname : k.Shares head.name) (hhead : head.RestatedAs types returns head')
    (h : (definitionTypes sources head l).run s = .ok (types, result) s')
    (hreturns : result.getD returns = returns) (l' : Location) :
    ∃ t', (definitionTypes sources head' l').run t = .ok (types, some returns) t' ∧ s'.Abreast k t' := by
  obtain ⟨_, _, hscope, h1⟩ := run_bind_ok.mp h
  cases hscope
  have hlookup : t.scope.lookup head'.name = s.scope.lookup head.name := by
    rw [hhead.name]
    exact hst.scope.lookup _ hname
  split at h1
  · rename_i hnone
    obtain ⟨_, s1, htypes, h2⟩ := run_bind_ok.mp h1
    obtain ⟨_, s2, hresult, h3⟩ := run_bind_ok.mp h2
    cases h3
    obtain ⟨t1, htypes', hst1⟩ := paramTypes_restated hS hst hhead.params htypes head'.name
    obtain ⟨t2, hresult', hst2⟩ := resolveOption_restated hS hst1 hhead hresult hreturns
    refine ⟨t2, run_bind_ok.mpr ⟨t.scope, t, rfl, ?_⟩, hst2⟩
    rw [hlookup, hnone]
    exact run_bind_ok.mpr ⟨_, t1, htypes', run_bind_ok.mpr ⟨_, t2, hresult', rfl⟩⟩
  · rename_i announced announcedReturns hknown
    obtain ⟨_, s1, hlength, h2⟩ := run_bind_ok.mp h1
    obtain ⟨harity, rfl⟩ := require_ok hlength
    obtain ⟨found, s2, htypes, h3⟩ := run_bind_ok.mp h2
    -- what is left to do behind the parameters, if the result resolves to the same type
    have hrest : ∀ written, head'.returns = some written → found = types → ∀ t2 t3 : CheckState,
        (matchParams sources head'.name head'.params announced).run t = .ok types t2 →
        (resolve sources written).run t2 = .ok returns t3 → ValueType.same returns announcedReturns →
        (definitionTypes sources head' l').run t = .ok (types, some returns) t3 := by
      intro written hwritten _ t2 t3 htypes' hresult' hsame
      refine run_bind_ok.mpr ⟨t.scope, t, rfl, ?_⟩
      rw [hlookup, hknown]
      refine run_bind_ok.mpr ⟨(), t, ?_, run_bind_ok.mpr ⟨types, t2, htypes', ?_⟩⟩
      · rw [hhead.params.length, require, if_pos harity]
        rfl
      · rw [hwritten]
        refine run_bind_ok.mpr ⟨returns, t3, hresult', run_bind_ok.mpr ⟨(), t3, ?_, rfl⟩⟩
        rw [require, if_pos hsame]
        rfl
    obtain ⟨written, hwritten, ⟨declared, hdeclared, hblur⟩ | ⟨hnone, hstandard, hblur⟩⟩ := hhead.returns
    · rw [hdeclared] at h3
      obtain ⟨type, s3, hresult, h4⟩ := run_bind_ok.mp h3
      obtain ⟨_, s4, hagree, h5⟩ := run_bind_ok.mp h4
      obtain ⟨hsame, rfl⟩ := require_ok hagree
      cases h5
      obtain rfl : type = returns := hreturns
      obtain ⟨t2, htypes', hst2⟩ := matchParams_restated hS hst hhead.params htypes head'.name
      obtain ⟨_, t3, hresult', hst3, rfl⟩ := Follows.resolve hS hblur _ t2 hst2 _ _ hresult
      exact ⟨t3, hrest written hwritten rfl t2 t3 htypes' hresult' hsame, hst3⟩
    · rw [hnone] at h3
      cases h3
      obtain rfl : announcedReturns = returns := hreturns
      obtain ⟨t2, htypes', hst2⟩ := matchParams_restated hS hst hhead.params htypes head'.name
      have hfounded : t2.scope.types.Founded := hst2.scope.types ▸ hst2.scope.founded
      exact ⟨t2, hrest written hwritten rfl t2 t2 htypes'
        (resolveWith_spell hfounded _ hstandard false written hblur) (ValueType.same_refl _), hst2⟩
  · cases h1

end Check

end Offside
