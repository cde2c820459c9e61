import Offside.Proofs.Check.Repeated

/-! Checking a program that was checked.

Functions are where the pairing of the two checks changes. A function that leaves out the type of its
results is not known to the first check before its body is done. The second check knows it from the head
on, so the body must not speak of it (`Demand.apart`), nor may a header that is read in it. Behind the
function the two checks know the same again. -/
namespace Offside

open List

variable {k : Pairing} {checked line : Stmt}

/-! ### The function ahead -/

/-- What is asked of the body of a function that leaves out the type of its results: it neither names nor
declares the function, and no result is an array of `void`. -/
def Demand.apart (function : String) : Demand where
  name := (· ≠ function)
  value e := function ∉ e.names
  result e := ∀ type ∈ e.type?, type.isVoidArray = false

section

variable (function : String)

instance : DecidablePred (Demand.apart function).leftOut := fun _ => isTrue trivial

instance : DecidablePred (Demand.apart function).name := fun n =>
  inferInstanceAs (Decidable (n ≠ function))

instance : DecidablePred (Demand.apart function).value := fun e =>
  inferInstanceAs (Decidable (function ∉ e.names))

instance : DecidablePred (Demand.apart function).result := fun e =>
  inferInstanceAs (Decidable (∀ type ∈ e.type?, type.isVoidArray = false))

end

/-- Behind its head a function is ahead, unless its `result` is known to the first check. -/
def Pairing.behindHead (name : String) (signature : ValueType) (result : Option ValueType) : Pairing where
  ahead := if result.isNone then some (name, signature) else none

theorem Pairing.shares_empty (name : String) : ({} : Pairing).Shares name := by
  simp [Pairing.Shares]

namespace Scope

variable {k : Pairing} {a b : Scope} {name : String}

theorem bind_of_unbound (h : a.lookup name = none) (type : ValueType) :
    a.bind name type = (.new, a.setVariable name type) := by
  unfold bind
  rw [h]
  split <;> rfl

/-- A name that is bound in both scopes, shared or not. -/
theorem Abreast.bindAny (h : a.Abreast k b) (name : String) (type : ValueType) :
    (a.bind name type).2.Abreast k (b.bind name type).2 := by
  by_cases hname : k.Shares name
  · exact (h.bind hname type).2
  · -- Shared names are others, so that it does not matter what becomes of this one.
    have hother : ∀ other, k.Shares other → name ≠ other := by
      rintro other hshares rfl
      exact hname hshares
    obtain ha | ha := a.bind_cases name type <;> obtain hb | hb := b.bind_cases name type <;> rw [ha, hb]
    · exact h
    · exact { h with
        lookup := fun other hs => (lookup_setVariable_ne b type (hother other hs)).trans (h.lookup other hs)
        isLocal := fun other hs => (isLocal_setVariable_ne b type (hother other hs)).trans (h.isLocal other hs) }
    · exact { h with
        lookup := fun other hs => (h.lookup other hs).trans (lookup_setVariable_ne a type (hother other hs)).symm
        isLocal := fun other hs =>
          (h.isLocal other hs).trans (isLocal_setVariable_ne a type (hother other hs)).symm }
    · exact h.setVariable name type

end Scope

namespace CheckState.Abreast

variable {k : Pairing} {s s' t t' : CheckState}

/-- A change of the scope of a function. -/
theorem setLocal (h : s.Abreast k t) (hlocals : s.environment.locals ≠ []) {a b : Scope}
    (hab : a.Abreast k b) : (s.setScope a).Abreast k (t.setScope b) := by
  obtain ⟨⟨slocals, sglobal⟩, _, _, _, _, _, _, sfunction, _, _⟩ := s
  obtain ⟨⟨tlocals, tglobal⟩, _, _, _, _, _, _, tfunction, _, _⟩ := t
  obtain ⟨hglobal, hscopes, hahead, hinside, hreturns, hothers⟩ := h
  cases hscopes with
  | nil => exact absurd rfl hlocals
  | cons hfirst hrest =>
    refine ⟨hglobal, .cons hab hrest, hahead, hinside, hreturns, ?_⟩
    simpa [CheckState.setScope, Environment.setCurrent] using hothers

/-- Into the body of a function. -/
theorem enterFunction (h : s.Abreast k t) (f : FunctionContext) {f' : FunctionContext} {returns : ValueType}
    (hreturns : f'.returns = some returns) :
    Abreast { k with returns := some returns }
      { s with function := some f, environment := s.environment.enter }
      { t with function := some f', environment := t.environment.enter } := by
  have hscope := h.scope
  obtain ⟨e, g, rfl⟩ := h.exists_eq
  have hglobal : s.environment.global.Abreast k e.global := h.global
  have hlocals : List.Forall₂ (Scope.Abreast k) s.environment.locals e.locals := h.locals
  exact
    { global := hglobal.repair { k with returns := some returns } rfl
      locals := .cons (hscope.child.repair { k with returns := some returns } rfl)
        (hlocals.imp fun _ _ hab => hab.repair { k with returns := some returns } rfl)
      ahead := h.ahead
      inside := rfl
      returns := congrArg some hreturns
      others := rfl }

/-- Out of the body again. -/
theorem leaveFunction (h : s.Abreast k t) (k' : Pairing) (hk : k'.ahead = k.ahead) (hnone : k'.returns = none) :
    Abreast k' { s with function := none, environment := s.environment.exit }
      { t with function := none, environment := t.environment.exit } := by
  obtain ⟨e, g, rfl⟩ := h.exists_eq
  have hglobal : s.environment.global.Abreast k e.global := h.global
  have hlocals : List.Forall₂ (Scope.Abreast k) s.environment.locals e.locals := h.locals
  exact
    { global := hglobal.repair k' hk
      locals := (forall₂_drop 1 hlocals).imp fun _ _ hab => hab.repair k' hk
      ahead := hk ▸ h.ahead
      inside := rfl
      returns := by rw [hnone]; rfl
      others := rfl }

/-- The second check learns of a function first. -/
theorem getAhead (h : s.Abreast {} t) (hlocals : s.environment.locals = []) {name : String}
    (hnone : s.environment.global.lookup name = none) (type : ValueType) :
    Abreast { ahead := some (name, type) } s (t.setScope (t.scope.bind name type).2) := by
  obtain ⟨⟨slocals, sglobal⟩, _, _, _, _, _, _, sfunction, _, _⟩ := s
  obtain ⟨⟨tlocals, tglobal⟩, _, _, _, _, _, _, tfunction, _, _⟩ := t
  obtain ⟨hglobal, hscopes, _, hinside, hreturns, hothers⟩ := h
  obtain rfl : slocals = [] := hlocals
  obtain rfl : tlocals = [] := forall₂_nil_left_iff.mp hscopes
  have hglobal : sglobal.Abreast {} tglobal := hglobal
  have hnone' : tglobal.lookup name = none := (hglobal.lookup name (Pairing.shares_empty name)).trans hnone
  have hother : ∀ other, Pairing.Shares { ahead := some (name, type) } other → name ≠ other :=
    fun other hs => hs (name, type) rfl
  simp only [CheckState.setScope, CheckState.scope, Environment.current, Environment.setCurrent, headD_nil,
    Scope.bind_of_unbound hnone']
  refine ⟨?_, .nil, ?_, hinside, hreturns, ?_⟩
  · exact { hglobal with
      lookup := fun other hs =>
        (Scope.lookup_setVariable_ne _ type (hother other hs)).trans (hglobal.lookup other (Pairing.shares_empty other))
      isLocal := fun other hs =>
        (Scope.isLocal_setVariable_ne _ type (hother other hs)).trans (hglobal.isLocal other (Pairing.shares_empty other)) }
  · rintro f ⟨⟩
    refine ⟨hnone, ?_, ?_⟩
    · exact (Scope.lookup_setVariable _ _ _ _).trans (if_pos rfl)
    · simp [Scope.isLocal, Scope.setVariable, NameSet.contains_insert]
  · simpa using hothers

/-- The first check learns of it too. -/
theorem catchUp {name : String} {type : ValueType} (h : Abreast { ahead := some (name, type) } s t)
    (hlocals : s.environment.locals = []) :
    Abreast {} (s.setScope (s.scope.bind name type).2) t := by
  obtain ⟨⟨slocals, sglobal⟩, _, _, _, _, _, _, sfunction, _, _⟩ := s
  obtain ⟨⟨tlocals, tglobal⟩, _, _, _, _, _, _, tfunction, _, _⟩ := t
  obtain ⟨hglobal, hscopes, hahead, hinside, hreturns, hothers⟩ := h
  obtain rfl : slocals = [] := hlocals
  obtain rfl : tlocals = [] := forall₂_nil_left_iff.mp hscopes
  have hglobal : sglobal.Abreast { ahead := some (name, type) } tglobal := hglobal
  obtain ⟨hnone, hknown, hlocal⟩ := hahead (name, type) rfl
  have hnone : sglobal.lookup name = none := hnone
  have hshares : ∀ other, name ≠ other → Pairing.Shares { ahead := some (name, type) } other := by
    rintro other hne f ⟨⟩
    exact hne
  simp only [CheckState.setScope, CheckState.scope, Environment.current, Environment.setCurrent, headD_nil,
    Scope.bind_of_unbound hnone]
  refine ⟨?_, .nil, by simp, hinside, hreturns, ?_⟩
  · refine { hglobal with lookup := fun other _ => ?_, isLocal := fun other _ => ?_ }
    · by_cases hname : name = other
      · subst hname
        exact hknown.trans ((Scope.lookup_setVariable _ _ _ _).trans (if_pos rfl)).symm
      · exact (hglobal.lookup other (hshares other hname)).trans
          (Scope.lookup_setVariable_ne _ type hname).symm
    · by_cases hname : name = other
      · subst hname
        refine hlocal.trans ?_
        simp [Scope.isLocal, Scope.setVariable, NameSet.contains_insert]
      · exact (hglobal.isLocal other (hshares other hname)).trans
          (Scope.isLocal_setVariable_ne _ type hname).symm
  · simpa using hothers

end CheckState.Abreast

/-! ### Heads -/

/-- The function is noted as defined. -/
def CheckState.noteDefined (s : CheckState) (name : String) : CheckState :=
  s.setScope { s.scope with definedFunctions := s.scope.definedFunctions.insert name }

theorem CheckState.lookup_noteDefined (s : CheckState) (name other : String) :
    (s.noteDefined name).environment.global.lookup other = s.environment.global.lookup other := by
  obtain ⟨⟨locals, global⟩⟩ := s
  cases locals <;> rfl

theorem CheckState.Abreast.noteDefined {s t : CheckState} (h : s.Abreast k t) (name : String) :
    (s.noteDefined name).Abreast k (t.noteDefined name) := by
  refine h.setScope ?_ (.refl k _) (.refl k _)
  exact { h.scope with defined := by rw [h.scope.defined] }

namespace Check

variable {config : Config} {depth : Nat} {s s' t : CheckState} {head head' : FunctionHead}
    {l : Location} {params params' : List Param} {body : List Stmt} {result : Option ValueType}
    {name : String}
  {types : List ValueType}

theorem abreast_self (hfounded : s.environment.global.types.Founded) (hlocals : s.environment.locals = [])
    (hfunction : s.function = none) : s.Abreast {} s where
  global := ⟨fun _ _ => rfl, fun _ _ => rfl, rfl, rfl, rfl, rfl, hfounded⟩
  locals := by rw [hlocals]; exact .nil
  ahead := by simp
  inside := rfl
  returns := by rw [hfunction]; rfl
  others := rfl

/-- A name that no header declares stays unknown while the types of a head are worked out. -/
theorem paramTypes_unbound (hparams : Param.AllRestated params types params')
    (hst : s.Abreast {} t) (hlocals : s.environment.locals = [])
    (hclear : Header.ofVariable? config.headers name = none)
    (hnone : s.environment.global.lookup name = none) {function : String}
    (h : (paramTypes (sourcesTo config depth) function params).run s = .ok types s') :
    s'.environment.global.lookup name = none := by
  have hahead : Pairing.ahead { ahead := some (name, .int) } = some (name, .int) := rfl
  have hS : LoadsAbreast { ahead := some (name, .int) } (sourcesTo config depth) := by
    refine loads_abreast config depth _ ?_
    rintro f ⟨⟩
    exact hclear
  obtain ⟨_, _, hst'⟩ := paramTypes_restated hS (hst.getAhead hlocals hnone .int) hparams h function
  exact (hst'.ahead (name, .int) rfl).1

theorem checkParams_state {function : String} {seen : List String} {a : Unit}
    (h : (checkParams function seen params).run s = .ok a s') : s' = s := by
  have hstill : Chains (Always Eq) := .ofOrder (fun _ => rfl) Eq.trans
  exact ((hstill.checkParams function seen params fun _ _ => .any).ok h).symm

/-- A definition whose results are to be inferred. -/
theorem definitionTypes_inferred {sources : Sources}
    (h : (definitionTypes sources head l).run s = .ok (types, none) s') :
    s.scope.lookup head.name = none ∧ head.returns = none ∧
      (paramTypes sources head.name head.params).run s = .ok types s' := by
  cases hlookup : s.scope.lookup head.name with
  | some previous =>
    obtain ⟨r, hr, _⟩ := definitionTypes_known hlookup h
    cases hr
  | none =>
    obtain ⟨_, _, hscope, h1⟩ := run_bind_ok.mp h
    cases hscope
    rw [hlookup] at h1
    obtain ⟨types', s1, htypes, h2⟩ := run_bind_ok.mp h1
    obtain ⟨found, s2, hresult, h3⟩ := run_bind_ok.mp h2
    cases h3
    cases hreturns : head.returns with
    | none =>
      rw [hreturns] at hresult
      cases hresult
      exact ⟨rfl, rfl, htypes⟩
    | some written =>
      rw [hreturns] at hresult
      obtain ⟨type, s3, _, hdone⟩ := run_bind_ok.mp hresult
      cases hdone

/-- **The head of a definition with its types written out.** -/
theorem openDefinition_restated (hs : OnGlobal s) (hst : s.Abreast {} t) {returns : ValueType}
    (hhead : head.RestatedAs types returns head')
    (h : (openDefinition (sourcesTo config depth) head l).run s = .ok (types, result) s')
    (hreturns : result.getD returns = returns)
    (hclear : result = none → Header.ofVariable? config.headers head.name = none) (l' : Location) :
    ∃ t', (openDefinition (sourcesTo config depth) head' l').run t = .ok (types, some returns) t' ∧
      s'.Abreast (.behindHead head.name (.function types returns) result) t' := by
  have hS : LoadsAbreast {} (sourcesTo config depth) := loads_abreast config depth {} (by simp)
  have hs' : OnGlobal s' :=
    hs.grows ((((grows_tolerates config).respects depth).openDefinition head l .any trivial).ok h)
  obtain ⟨_, _, hget, h1⟩ := run_bind_ok.mp h
  cases hget
  obtain ⟨_, s1, hrequire, h2⟩ := run_bind_ok.mp h1
  obtain ⟨htop, rfl⟩ := require_ok hrequire
  obtain ⟨_, s2, hparams, h3⟩ := run_bind_ok.mp h2
  obtain rfl := checkParams_state hparams
  obtain ⟨_, _, hscope, h4⟩ := run_bind_ok.mp h3
  cases hscope
  obtain ⟨_, s3, hrequire, h5⟩ := run_bind_ok.mp h4
  obtain ⟨hnew, rfl⟩ := require_ok hrequire
  obtain ⟨⟨types', result'⟩, s0, hdefinition, h6⟩ := run_bind_ok.mp h5
  obtain ⟨_, s4, hdefined, h7⟩ := run_bind_ok.mp h6
  obtain rfl : s4 = s0.noteDefined head.name := (EStateM.Result.ok.inj hdefined).2.symm
  -- What the second check does with a head that says everything.
  have hopen : ∀ t0, (definitionTypes (sourcesTo config depth) head' l').run t = .ok (types, some returns) t0 →
      (openDefinition (sourcesTo config depth) head' l').run t = .ok (types, some returns)
        ((t0.noteDefined head.name).setScope
          ((t0.noteDefined head.name).scope.bind head.name (.function types returns)).2) := by
    intro t0 hdefinition'
    have hchecks : Follows {} (checkParams head.name [] head.params) (checkParams head'.name [] head'.params) _ :=
      checkParams_congr hhead.params.names
    obtain ⟨_, t1, hparams', _, _⟩ := hchecks _ t hst _ _ hparams
    obtain rfl := checkParams_state hparams'
    refine run_bind_ok.mpr ⟨t1, t1, rfl, run_bind_ok.mpr ⟨(), t1, ?_, run_bind_ok.mpr ⟨_, t1, hparams', ?_⟩⟩⟩
    · rw [hst.atTopLevel, htop]
      rfl
    refine run_bind_ok.mpr ⟨t1.scope, t1, rfl, run_bind_ok.mpr ⟨(), t1, ?_, ?_⟩⟩
    · rw [hst.scope.defined, hhead.name, require, if_pos hnew]
      rfl
    refine run_bind_ok.mpr ⟨_, t0, hdefinition', ?_⟩
    rw [hhead.name]
    rfl
  cases result' with
  | some known =>
    obtain ⟨_, s5, hbind, h8⟩ := run_bind_ok.mp h7
    obtain rfl : s5 = (s0.noteDefined head.name).setScope
      ((s0.noteDefined head.name).scope.bind head.name (.function types' known)).2 :=
        (EStateM.Result.ok.inj hbind).2.symm
    cases h8
    obtain rfl : known = returns := hreturns
    obtain ⟨t0, hdefinition', hst0⟩ :=
      definitionTypes_restated hS hst (Pairing.shares_empty _) hhead hdefinition rfl l'
    have hnoted := hst0.noteDefined head.name
    refine ⟨_, hopen t0 hdefinition', ?_⟩
    exact hnoted.setScope (hnoted.scope.bind (Pairing.shares_empty _) _).2 (.bind (Pairing.shares_empty _) _ _)
      (.bind (Pairing.shares_empty _) _ _)
  | none =>
    cases h7
    obtain ⟨hlookup, _, htypes⟩ := definitionTypes_inferred hdefinition
    obtain ⟨t0, hdefinition', hst0⟩ :=
      definitionTypes_restated hS hst (Pairing.shares_empty _) hhead hdefinition rfl l'
    refine ⟨_, hopen t0 hdefinition', (hst0.noteDefined head.name).getAhead hs'.locals ?_ _⟩
    have hunbound : s0.environment.global.lookup head.name = none :=
      paramTypes_unbound hhead.params hst hs.locals (hclear rfl) (hs.scope ▸ hlookup) htypes
    rw [CheckState.lookup_noteDefined, hunbound]

/-! ### Bodies -/

theorem bindParams_abreast (hparams : Param.AllRestated params types params') {a b : Scope} (h : a.Abreast k b) :
    (bindParams params types a).Abreast k (bindParams params' types b) := by
  induction hparams generalizing a b with
  | nil => exact h
  | @cons p p' type params params' types hp _ ih =>
    have hname := hp.name?
    unfold Param.name? at hname
    unfold bindParams
    cases hkind : p.kind with
    | vararg =>
      rw [hkind] at hname
      cases hkind' : p'.kind with
      | named => rw [hkind'] at hname; cases hname
      | vararg => exact ih h
    | named n declared =>
      rw [hkind] at hname
      cases hkind' : p'.kind with
      | vararg => rw [hkind'] at hname; cases hname
      | named n' declared' =>
        rw [hkind'] at hname
        obtain rfl : n' = n := Option.some.inj hname
        exact ih (h.bindAny n' type)

/-- **The body of a function, once more.** -/
theorem body_repeats (hs : s.Ready) (hst : s.Abreast k t)
    (hclear : ∀ f ∈ k.ahead, Header.ofVariable? config.headers f.1 = none) (hk : k.returns = none)
    (hparams : Param.AllRestated params types params')
    {f f' : FunctionContext} {rule : ResultRule} (hf' : f'.returns = some rule.type)
    {checked lines : List Stmt} {inferred : Option ValueType}
    (h : (inFunction f do
      modifyScope (bindParams params types)
      let body ← statements (sourcesTo config depth) body
      return (body, (← get).function.bind (·.inferred))).run s = .ok (checked, inferred) s')
    (htyped : Stmt.AllTyped rule checked)
    (hmeets : Stmt.AllMeet (Pairing.demand { k with returns := some rule.type } rule) checked)
    (hlines : Stmt.blurList .bare lines = Stmt.blurList .bare (Stmt.spellList checked)) :
    ∃ again inferred' t', (inFunction f' do
      modifyScope (bindParams params' types)
      let body ← statements (sourcesTo config depth) lines
      return (body, (← get).function.bind (·.inferred))).run t = .ok (again, inferred') t' ∧
      s'.Abreast k t' ∧
      Stmt.blurList .bare (Stmt.spellList again) = Stmt.blurList .bare (Stmt.spellList checked) := by
  obtain ⟨s1, hpart, rfl⟩ := during_ok h
  obtain ⟨_, s2, hbind, h1⟩ := run_bind_ok.mp hpart
  obtain ⟨checked', s3, hbody, h2⟩ := run_bind_ok.mp h1
  cases h2
  have hinside : CheckState.Ready { s with function := some f, environment := s.environment.enter } :=
    ⟨hs.furnished.congr rfl rfl, hs.visible.enter f⟩
  have hends {T : Course} (hT : Respects T (sourcesTo config depth)) :
      Ends T (modifyScope (bindParams params types)) := hT.bindParams params types
  have hs2 : s2.Ready := ready_after hends hinside hbind
  have hnested : s2.atTopLevel = false := atTopLevel_after hends hbind
  have hst1 := hst.enterFunction f hf'
  have hst2 := hst1.setLocal (cons_ne_nil _ _) (bindParams_abreast hparams hst1.scope)
  obtain rfl := (EStateM.Result.ok.inj hbind).2
  have hS : LoadsAbreast { k with returns := some rule.type } (sourcesTo config depth) :=
    loads_abreast config depth _ hclear
  have hreturns : ∀ type ∈ Pairing.returns { k with returns := some rule.type }, type = rule.type := by
    rintro type ⟨⟩
    rfl
  obtain ⟨again, t3, hrun, hst3, hagain⟩ :=
    statements_repeat hS hreturns body hs2 hnested hst2 hbody htyped hmeets hlines
  exact ⟨again, _, _, during_run (run_bind_ok.mpr ⟨(), _, rfl, run_bind_ok.mpr ⟨again, t3, hrun, rfl⟩⟩),
    hst3.leaveFunction k rfl hk, hagain⟩

/-! ### Definitions -/

theorem closeDefinition_cases {inferred : Option ValueType} {found : FunctionHead}
    (h : (closeDefinition head types result inferred l).run s = .ok found s') :
    found = head.noted types (resultRule result inferred).type ∧
      ((∃ known, result = some known ∧ s' = s) ∨ (result = none ∧
        (declare head.name (.function types (resultRule result inferred).type) l).run s = .ok () s')) := by
  unfold closeDefinition at h
  cases result with
  | some known =>
    cases h
    exact ⟨rfl, .inl ⟨known, rfl, rfl⟩⟩
  | none =>
    obtain ⟨_, s1, hdeclare, hdone⟩ := run_bind_ok.mp h
    cases hdone
    exact ⟨rfl, .inr ⟨rfl, hdeclare⟩⟩

theorem declare_state {type : ValueType} {a : Unit}
    (h : (declare name type l).run s = .ok a s') : s' = s.setScope (s.scope.bind name type).2 := by
  rw [declare_run] at h
  cases hbind : (s.scope.bind name type).1 with
  | new | repeated =>
    rw [hbind] at h
    cases h
    rfl
  | conflict previous =>
    rw [hbind] at h
    cases h

/-- What is asked of a body, if its function is ahead there. -/
theorem suffice_behindHead {signature : ValueType}
    {rule : ResultRule} (hrule : ∀ known, result = some known → rule = .declared known)
    (hstandard : Stmt.AllMeet .standard body) (hapart : result = none → Stmt.AllMeet (.apart name) body) :
    Stmt.AllMeet (Pairing.demand
      { Pairing.behindHead name signature result with returns := some rule.type } rule) body := by
  cases result with
  | none =>
    refine Stmt.AllMeet.combine ⟨?_, ?_, ?_, ?_⟩ body hstandard (hapart rfl)
    · exact fun _ h _ => h
    · rintro n _ hn f ⟨⟩
      exact fun h => hn h.symm
    · rintro e _ he n hn f ⟨⟩ rfl
      exact he hn
    · exact fun e _ he _ _ => he
  | some known =>
    refine Stmt.AllMeet.combine ⟨?_, ?_, ?_, ?_⟩ body hstandard hstandard
    · exact fun _ h _ => h
    · rintro n _ _ f ⟨⟩
    · rintro e _ _ n _ f ⟨⟩
    · rintro e _ _ first hfirst
      rw [hrule known rfl] at hfirst
      cases hfirst

/-- **A definition, once more.** -/
theorem function_repeats (hs : Between s) (hready : s.Ready) (hst : s.Abreast {} t) {m : Mark}
    (h : (statement (sourcesTo config depth) (.function m head body)).run s = .ok checked s')
    (hstandard : checked.Meets .standard)
    (hinfer : ∀ mark found lines, checked = .function mark found lines → found.returns = none →
      s.environment.global.lookup found.name = none →
      Header.ofVariable? config.headers found.name = none ∧ Stmt.AllMeet
    (.apart found.name) lines) (hline : line.blur .bare = checked.spell.blur .bare) :
    Repeats {} (sourcesTo config depth) checked s' line t := by
  have hS := (situated_tolerates config).respects depth
  have hs' : Between s' := hs.statement h
  rw [statement] at h
  obtain ⟨⟨types, result⟩, s1, hopen, h1⟩ := run_bind_ok.mp h
  obtain ⟨⟨checked, inferred⟩, s2, hinside, h2⟩ := run_bind_ok.mp h1
  obtain ⟨found, s3, hclose, h3⟩ := run_bind_ok.mp h2
  cases h3
  have hlen := (openDefinition_yields _ head _ s _ s1 trivial hopen).1
  have htyped : Stmt.AllTyped (resultRule result inferred) checked :=
    body_wellTyped hS head.params types (statements_wellTyped hS body) hinside
  obtain ⟨rfl, hclosed⟩ := closeDefinition_cases hclose
  -- A function whose results are inferred is not known before, so that it may be spoken of nowhere.
  have hinferred : result = none → Header.ofVariable? config.headers head.name = none ∧
      Stmt.AllMeet (.apart head.name) checked := by
    rintro rfl
    obtain ⟨s0, _, hdefinition, _⟩ := openDefinition_ok hopen
    obtain ⟨hlookup, hreturns, _⟩ := definitionTypes_inferred hdefinition
    rw [hs.scope] at hlookup
    exact hinfer m (head.noted types _) checked rfl hreturns hlookup
  cases line with
  | function m' head' body' =>
    obtain ⟨_, hhead', hbody'⟩ := Stmt.function.inj hline
    have hrestated : head.RestatedAs types (resultRule result inferred).type head' := .ofBlur hlen hstandard.1 hhead'
    have hreturns : result.getD (resultRule result inferred).type = (resultRule result inferred).type := by
      cases result <;> rfl
    obtain ⟨t1, hopen', hst1⟩ := openDefinition_restated hs.toOnGlobal hst hrestated hopen hreturns
      (fun hnone => (hinferred hnone).1) m'.span.start
    have hready1 : s1.Ready := ready_after (fun hT => hT.openDefinition head m.span.start .any trivial) hready hopen
    have hclear : ∀ f ∈ (Pairing.behindHead head.name (.function types (resultRule result inferred).type)
        result).ahead, Header.ofVariable? config.headers f.1 = none := by
      cases result with
      | some known => simp [Pairing.behindHead]
      | none =>
        rintro f ⟨⟩
        exact (hinferred rfl).1
    have hrule : ∀ known, result = some known → resultRule result inferred = .declared known := by
      rintro known rfl
      rfl
    have hcontext : FunctionContext.returns ⟨head'.name, some (resultRule result inferred).type, none⟩ =
        some (resultRule result inferred).type := rfl
    obtain ⟨again, inferred', t2, hinside', hst2, hagain⟩ := body_repeats hready1 hst1 hclear rfl hrestated.params
      hcontext hinside htyped (suffice_behindHead hrule hstandard.2 fun hnone => (hinferred hnone).2) hbody'
    refine ⟨.function m' (head'.noted types (resultRule result inferred).type) again, t2, ?_, ?_, ?_⟩
    · rw [statement]
      exact run_bind_ok.mpr ⟨_, t1, hopen', run_bind_ok.mpr ⟨_, t2, hinside', run_bind_ok.mpr ⟨_, t2, rfl, rfl⟩⟩⟩
    · obtain ⟨known, rfl, rfl⟩ | ⟨rfl, hdeclare⟩ := hclosed
      · exact hst2
      · obtain rfl := declare_state hdeclare
        refine hst2.catchUp ?_
        have hlength := Environment.length_locals_setCurrent s2.environment
          (s2.scope.bind head.name (.function types (resultRule none inferred).type)).2
        rw [← length_eq_zero_iff, ← hlength]
        exact length_eq_zero_iff.mpr hs'.locals
    · simp only [Stmt.spell, Stmt.blur, hagain, hrestated.spell]
      rw [hhead']
      rfl
  | _ => cases hline

/-! ### Programs -/

theorem head_bound (hs : Between s) (h : (statement (sourcesTo config depth) line).run s = .ok checked s') :
    ∀ head ∈ checked.head?, (s'.environment.global.lookup head.name).isSome := by
  have hR : Respects (Always Grows) (sourcesTo config depth) := (grows_tolerates config).respects depth
  have hs' : Between s' := hs.statement h
  have hsome : checked.head?.isSome = line.head?.isSome := statement_head? _ line s checked s' trivial h
  intro head hhead
  rw [hhead] at hsome
  rw [← hs'.scope]
  cases line with
  | announce m announced =>
    obtain ⟨found, s1, hannounce, hdone⟩ := run_bind_ok.mp h
    cases hdone
    cases hhead
    have hname := congrArg FunctionHead.name (announce_yields _ announced _ s head _ trivial hannounce).1
    exact (show head.name = announced.name from hname) ▸ announce_binds hannounce
  | function m defined body =>
    obtain ⟨found, lines, rfl, hagrees, hdisagrees⟩ := function_ok hR hs.toOnGlobal h
    cases hhead
    by_cases hovertaken : Overtaken (sourcesTo config depth) s defined m.span.start
    · obtain ⟨_, type, _, htype, _⟩ := hdisagrees hovertaken
      rw [htype]
      rfl
    · obtain ⟨_, type, _, htype, _⟩ := hagrees hovertaken
      rw [htype]
      rfl
  | _ => cases hsome

end Check

/-- A function that leaves out the type of its results is known above, or no header declares it and its
body does not speak of it. -/
def Stmt.InfersApart (config : Config) (known : List String) : Stmt → Prop
  | .function _ head body => head.returns = none → head.name ∈ known ∨
      (Header.ofVariable? config.headers head.name = none ∧ Stmt.AllMeet (.apart head.name) body)
  | _ => True

/-- Statements, below functions whose names are `known`. -/
def Stmt.AllInferApart (config : Config) : (known : List String) → List Stmt → Prop
  | _, [] => True
  | known, s :: rest => s.InfersApart config known ∧
      Stmt.AllInferApart config ((s.head?.map FunctionHead.name).toList ++ known) rest

instance (config : Config) (known : List String) : (s : Stmt) → Decidable (s.InfersApart config known)
  | .function _ head body => inferInstanceAs (Decidable (head.returns = none → head.name ∈ known ∨
      (Header.ofVariable? config.headers head.name = none ∧ Stmt.AllMeet (.apart head.name) body)))
  | .expr _ _ | .declare _ _ | .assign _ _ _ | .announce _ _ | .result _ _ | .ifElse _ _ _ _
  | .whileLoop _ _ _ _ | .doLoop _ _ _ | .switch _ _ _ _ | .enum _ _ _ | .define _ _ _ | .leave _ | .pass _
  | .struct _ _ _ | .typedef _ _ _ | .includeFile _ _ | .ifndef _ _ | .endif _ => isTrue trivial

instance Stmt.decidableAllInferApart (config : Config) : (known : List String) → (ss : List Stmt) →
    Decidable (Stmt.AllInferApart config known ss)
  | _, [] => isTrue trivial
  | known, s :: rest =>
    have := Stmt.decidableAllInferApart config ((s.head?.map FunctionHead.name).toList ++ known) rest
    inferInstanceAs (Decidable (s.InfersApart config known ∧
      Stmt.AllInferApart config ((s.head?.map FunctionHead.name).toList ++ known) rest))

namespace Check

variable {config : Config} {depth : Nat} {s s' t : CheckState}

/-- A statement of a program, once more. -/
theorem outer_repeats {known : List String} (hs : Between s)
    (hready : s.Ready) (hdirectory : s.directory = none) (hst : s.Abreast {} t)
    (hknown : ∀ n ∈ known, (s.environment.global.lookup n).isSome)
    (h : (statement (sourcesTo config depth) line).run s = .ok checked s')
    (hstandard : checked.Meets .standard) (hapart : checked.InfersApart config known)
    (hincludes : ∀ path ∈ checked.included?, findInclude config none path = none) {line' : Stmt}
    (hline : line'.blur .bare = checked.spell.blur .bare) :
    Repeats {} (sourcesTo config depth) checked s' line' t := by
  have hS : LoadsAbreast {} (sourcesTo config depth) := loads_abreast config depth {} (by simp)
  by_cases houter : line.isOuter
  · cases line with
    | function m head body =>
      refine function_repeats hs hready hst h hstandard ?_ hline
      rintro mark found lines rfl hreturns hnone
      obtain hmem | hboth := hapart hreturns
      · have hsome := hknown _ hmem
        rw [hnone] at hsome
        cases hsome
      · exact hboth
    | includeFile m path =>
      have hchecked : checked = .includeFile m path := by
        obtain ⟨_, _, _, h1⟩ := run_bind_ok.mp h
        obtain ⟨_, _, _, h2⟩ := run_bind_ok.mp h1
        obtain ⟨_, _, _, h3⟩ := run_bind_ok.mp h2
        exact (EStateM.Result.ok.inj h3).1.symm
      subst hchecked
      cases line' with
      | includeFile m' path' =>
        obtain ⟨_, rfl⟩ := Stmt.includeFile.inj hline
        have hfile : findInclude config s.directory path' = none := by
          rw [hdirectory]
          exact hincludes path' rfl
        obtain ⟨t', hrun, hst'⟩ := include_abreast hS (.inr hfile) hst h m'
        exact ⟨_, t', hrun, hst', rfl⟩
      | _ => cases hline
    | _ => cases houter
  · have hrespects := (situated_tolerates config).respects depth
    have hs' : Between s' := hs.statement h
    have htyped : checked.WellTyped (.declared .void) :=
      (statement_wellTyped hrespects line s checked s' h _ (s'.allows_of_atTopLevel hs'.topLevel _)).2
    have hmeets : checked.Meets (Pairing.demand {} (.declared .void)) := by
      refine Stmt.Meets.combine ⟨?_, ?_, ?_, ?_⟩ checked hstandard hstandard
      · exact fun _ h _ => h
      · exact fun n _ _ => Pairing.shares_empty n
      · exact fun _ _ _ n _ => Pairing.shares_empty n
      · rintro e _ _ first ⟨⟩
    exact statement_repeats hS (by simp) line hready (fun h => absurd h houter) hst h htyped hmeets hline

/-- **A program that was checked goes through once more.** -/
theorem program_repeats {known : List String} {body checked lines : List Stmt} (hs : Between s)
    (hready : s.Ready) (hdirectory : s.directory = none) (hst : s.Abreast {} t)
    (hknown : ∀ n ∈ known, (s.environment.global.lookup n).isSome)
    (h : (statements (sourcesTo config depth) body).run s = .ok checked s')
    (hstandard : Stmt.AllMeet .standard checked) (hapart : Stmt.AllInferApart config known checked)
    (hincludes : ∀ line ∈ checked, ∀ path ∈ line.included?, findInclude config none path = none)
    (hlines : Stmt.blurList .bare lines = Stmt.blurList .bare (Stmt.spellList checked)) :
    ∃ again t', (statements (sourcesTo config depth) lines).run t = .ok again t' ∧ s'.Abreast {} t' ∧
      Stmt.blurList .bare (Stmt.spellList again) = Stmt.blurList .bare (Stmt.spellList checked) := by
  induction body generalizing s t known checked lines with
  | nil =>
    cases h
    cases lines with
    | nil => exact ⟨[], t, rfl, hst, rfl⟩
    | cons => cases hlines
  | cons line rest ih =>
    obtain ⟨first, s1, hfirst, h1⟩ := run_bind_ok.mp h
    obtain ⟨more, s2, hmore, h2⟩ := run_bind_ok.mp h1
    cases h2
    cases lines with
    | nil => cases hlines
    | cons line' lines =>
      obtain ⟨hline', hlines⟩ := cons.inj hlines
      obtain ⟨hinclude, hincludes⟩ := forall_mem_cons.mp hincludes
      obtain ⟨again, t1, hrun1, hst1, hagain⟩ :=
        outer_repeats hs hready hdirectory hst hknown hfirst hstandard.1 hapart.1 hinclude hline'
      have hs1 : Between s1 := hs.statement hfirst
      have hready1 : s1.Ready := ready_after (fun hT => hT.statement line .any) hready hfirst
      have hdirectory1 : s1.directory = none := by
        have hplace := (((situated_tolerates config).respects depth).statement line .any).ok hfirst
        rw [hplace.directory, hdirectory]
      have hknown1 : ∀ n ∈ (first.head?.map FunctionHead.name).toList ++ known,
          (s1.environment.global.lookup n).isSome := by
        intro n hn
        rcases mem_append.mp hn with hn | hn
        · obtain ⟨head, hhead, rfl⟩ := Option.map_eq_some_iff.mp (Option.mem_toList.mp hn)
          exact head_bound hs hfirst head hhead
        · obtain ⟨type, htype⟩ := Option.isSome_iff_exists.mp (hknown n hn)
          have hkept := hs.keeps_statement hfirst n type (by rwa [hs.scope])
          rw [hs1.scope] at hkept
          rw [hkept]
          rfl
      obtain ⟨others, t2, hrun2, hst2, hothers⟩ :=
        ih hs1 hready1 hdirectory1 hst1 hknown1 hmore hstandard.2 hapart.2 hincludes hlines
      refine ⟨again :: others, t2, run_bind_ok.mpr ⟨again, t1, hrun1, run_bind_ok.mpr
        ⟨others, t2, hrun2, rfl⟩⟩, hst2, ?_⟩
      simp only [Stmt.spellList, Stmt.blurList, hagain, hothers]

end Check

end Offside
