import Offside.Proofs.Check.Decoration
import Offside.Proofs.Check.Typing
import Offside.Proofs.Grammar.ReadingLines
import Offside.Proofs.Tree.Spelling

/-! What programs leave out.

A program may leave out the types of variables that an assignment declares, of parameters of functions
that were announced, and of the results of functions. `Stmt.Meets` asks something of the types that a
checked tree has found in these places, of the names it declares and of the expressions in it. If the
types that are left out are standard, the tree with its types written out can be read
(`Stmt.wellFormed_spell`). -/
namespace Offside

variable {f : FunctionHead}

/-- What is asked of the parts of a statement that has been checked. -/
structure Demand where
  /-- Of the types that it leaves out. -/
  leftOut : ValueType → Prop := fun _ => True
  /-- Of the names that it declares. -/
  name : String → Prop := fun _ => True
  /-- Of the expressions that stand in it. -/
  value : Expr → Prop := fun _ => True
  /-- Of those among them that are results of functions. -/
  result : Expr → Prop := fun _ => True

def VarDecl.Meets (demand : Demand) (d : VarDecl) : Prop :=
  demand.name d.name ∧ (d.declared = none → ∀ t ∈ d.type, demand.leftOut t) ∧ ∀ e ∈ d.init, demand.value e

def Param.Meets (demand : Demand) (p : Param) : Prop := ∀ n, p.kind = .named n none → ∀ t ∈ p.type, demand.leftOut t

def FunctionHead.Meets (demand : Demand) (f : FunctionHead) : Prop :=
  demand.name f.name ∧ (∀ p ∈ f.params, p.Meets demand) ∧ (f.returns = none → ∀ t ∈ f.result?, demand.leftOut t)

mutual

/-- The parts of the statement are as is asked. -/
def Stmt.Meets (demand : Demand) : Stmt → Prop
  | .expr _ e => demand.value e
  | .declare _ d => d.Meets demand
  | .assign _ target value => demand.value target ∧ demand.value value
  | .announce _ f => f.Meets demand
  | .function _ f body => f.Meets demand ∧ Stmt.AllMeet demand body
  | .result _ value => ∀ e ∈ value, demand.value e ∧ demand.result e
  | .ifElse _ c body orelse =>
    demand.value c ∧ Stmt.AllMeet demand body ∧ Stmt.AllMeet demand orelse
  | .whileLoop _ c body orelse =>
    demand.value c ∧ Stmt.AllMeet demand body ∧ Stmt.AllMeet demand orelse
  | .doLoop _ body c => Stmt.AllMeet demand body ∧ demand.value c
  | .switch _ subject cases default =>
    demand.value subject ∧ SwitchCase.AllMeet demand cases ∧ Stmt.BlockMeets demand default
  | .enum _ _ members => ∀ n ∈ members, demand.name n
  | .define _ n value => demand.name n ∧ ∀ e ∈ value, demand.value e
  | .leave _ | .pass _ | .struct _ _ _ | .typedef _ _ _ | .includeFile _ _ | .ifndef _ _ | .endif _ => True

def Stmt.AllMeet (demand : Demand) : List Stmt → Prop
  | [] => True
  | s :: rest => s.Meets demand ∧ Stmt.AllMeet demand rest

def Stmt.BlockMeets (demand : Demand) : Option (List Stmt) → Prop
  | none => True
  | some body => Stmt.AllMeet demand body

def SwitchCase.Meets (demand : Demand) : SwitchCase → Prop
  | .mk _ values body => (∀ e ∈ values, demand.value e) ∧ Stmt.AllMeet demand body

def SwitchCase.AllMeet (demand : Demand) : List SwitchCase → Prop
  | [] => True
  | c :: rest => c.Meets demand ∧ SwitchCase.AllMeet demand rest

end

/-- Types that are left out are standard. -/
def Demand.standard : Demand := { leftOut := fun t => t.isStandard = true }

instance : DecidablePred Demand.standard.leftOut := fun t => inferInstanceAs (Decidable (t.isStandard = true))

instance : DecidablePred Demand.standard.name := fun _ => isTrue trivial

instance : DecidablePred Demand.standard.value := fun _ => isTrue trivial

instance : DecidablePred Demand.standard.result := fun _ => isTrue trivial

/-! ### Whether a demand is met -/

section

variable (demand : Demand) [DecidablePred demand.leftOut] [DecidablePred demand.name]
  [DecidablePred demand.value] [DecidablePred demand.result]

instance (d : VarDecl) : Decidable (d.Meets demand) := inferInstanceAs (Decidable (_ ∧ (_ = none → _) ∧ _))

instance (p : Param) : Decidable (p.Meets demand) := match hkind : p.kind with
  | .vararg => isTrue fun n hn => by rw [hkind] at hn; cases hn
  | .named n (some t) => isTrue fun m hm => by rw [hkind] at hm; cases hm
  | .named n none => decidable_of_iff (∀ t ∈ p.type, demand.leftOut t) ⟨fun h _ _ => h, fun h => h n hkind⟩

instance (f : FunctionHead) : Decidable (f.Meets demand) := inferInstanceAs (Decidable (_ ∧ _ ∧ (_ = none → _)))

mutual

instance Stmt.decidableMeets : (s : Stmt) → Decidable (s.Meets demand)
  | .expr _ e => inferInstanceAs (Decidable (demand.value e))
  | .declare _ d => inferInstanceAs (Decidable (d.Meets demand))
  | .assign _ target value => inferInstanceAs (Decidable (demand.value target ∧ demand.value value))
  | .announce _ f => inferInstanceAs (Decidable (f.Meets demand))
  | .function _ f body =>
    have := Stmt.decidableAllMeet body
    inferInstanceAs (Decidable (f.Meets demand ∧ Stmt.AllMeet demand body))
  | .result _ value => inferInstanceAs (Decidable (∀ e ∈ value, demand.value e ∧ demand.result e))
  | .ifElse _ c body orelse | .whileLoop _ c body orelse =>
    have := Stmt.decidableAllMeet body
    have := Stmt.decidableAllMeet orelse
    inferInstanceAs (Decidable (demand.value c ∧ Stmt.AllMeet demand body ∧ Stmt.AllMeet demand orelse))
  | .doLoop _ body c =>
    have := Stmt.decidableAllMeet body
    inferInstanceAs (Decidable (Stmt.AllMeet demand body ∧ demand.value c))
  | .switch _ subject cases default =>
    have := SwitchCase.decidableAllMeet cases
    have := Stmt.decidableBlockMeets default
    inferInstanceAs (Decidable
      (demand.value subject ∧ SwitchCase.AllMeet demand cases ∧ Stmt.BlockMeets demand default))
  | .enum _ _ members => inferInstanceAs (Decidable (∀ n ∈ members, demand.name n))
  | .define _ n value => inferInstanceAs (Decidable (demand.name n ∧ ∀ e ∈ value, demand.value e))
  | .leave _ | .pass _ | .struct _ _ _ | .typedef _ _ _ | .includeFile _ _ | .ifndef _ _ | .endif _ =>
    isTrue trivial

instance Stmt.decidableAllMeet : (ss : List Stmt) → Decidable (Stmt.AllMeet demand ss)
  | [] => isTrue trivial
  | s :: rest =>
    have := Stmt.decidableMeets s
    have := Stmt.decidableAllMeet rest
    inferInstanceAs (Decidable (s.Meets demand ∧ Stmt.AllMeet demand rest))

instance Stmt.decidableBlockMeets : (d : Option (List Stmt)) → Decidable (Stmt.BlockMeets demand d)
  | none => isTrue trivial
  | some body => Stmt.decidableAllMeet body

instance SwitchCase.decidableMeets : (c : SwitchCase) → Decidable (c.Meets demand)
  | .mk _ values body =>
    have := Stmt.decidableAllMeet body
    inferInstanceAs (Decidable ((∀ e ∈ values, demand.value e) ∧ Stmt.AllMeet demand body))

instance SwitchCase.decidableAllMeet : (cs : List SwitchCase) → Decidable (SwitchCase.AllMeet demand cs)
  | [] => isTrue trivial
  | c :: rest =>
    have := SwitchCase.decidableMeets c
    have := SwitchCase.decidableAllMeet rest
    inferInstanceAs (Decidable (c.Meets demand ∧ SwitchCase.AllMeet demand rest))

end

end

/-! ### Demands together -/

/-- What the first two ask is enough for the third. -/
structure Demand.Suffice (first second third : Demand) : Prop where
  leftOut : ∀ t, first.leftOut t → second.leftOut t → third.leftOut t
  name : ∀ n, first.name n → second.name n → third.name n
  value : ∀ e, first.value e → second.value e → third.value e
  result : ∀ e, first.result e → second.result e → third.result e

section

variable {first second third : Demand}

theorem VarDecl.Meets.combine (h : first.Suffice second third) {d : VarDecl} (h1 : d.Meets first)
    (h2 : d.Meets second) : d.Meets third :=
  ⟨h.name _ h1.1 h2.1, fun hnone t ht => h.leftOut t (h1.2.1 hnone t ht) (h2.2.1 hnone t ht),
    fun e he => h.value e (h1.2.2 e he) (h2.2.2 e he)⟩

theorem FunctionHead.Meets.combine (h : first.Suffice second third) (h1 : f.Meets first)
    (h2 : f.Meets second) : f.Meets third :=
  ⟨h.name _ h1.1 h2.1, fun p hp n hn t ht => h.leftOut t (h1.2.1 p hp n hn t ht) (h2.2.1 p hp n hn t ht),
    fun hnone t ht => h.leftOut t (h1.2.2 hnone t ht) (h2.2.2 hnone t ht)⟩

mutual

theorem Stmt.Meets.combine (h : first.Suffice second third) : (s : Stmt) → s.Meets first → s.Meets second →
    s.Meets third
  | .expr _ e, h1, h2 => h.value e h1 h2
  | .declare _ _, h1, h2 => VarDecl.Meets.combine h h1 h2
  | .assign _ target value, h1, h2 => ⟨h.value target h1.1 h2.1, h.value value h1.2 h2.2⟩
  | .announce _ _, h1, h2 => FunctionHead.Meets.combine h h1 h2
  | .function _ _ body, h1, h2 =>
    ⟨FunctionHead.Meets.combine h h1.1 h2.1, Stmt.AllMeet.combine h body h1.2 h2.2⟩
  | .result _ _, h1, h2 => fun e he =>
    ⟨h.value e (h1 e he).1 (h2 e he).1, h.result e (h1 e he).2 (h2 e he).2⟩
  | .ifElse _ c body orelse, h1, h2 | .whileLoop _ c body orelse, h1, h2 =>
    ⟨h.value c h1.1 h2.1, Stmt.AllMeet.combine h body h1.2.1 h2.2.1,
      Stmt.AllMeet.combine h orelse h1.2.2 h2.2.2⟩
  | .doLoop _ body c, h1, h2 => ⟨Stmt.AllMeet.combine h body h1.1 h2.1, h.value c h1.2 h2.2⟩
  | .switch _ subject cases default, h1, h2 =>
    ⟨h.value subject h1.1 h2.1, SwitchCase.AllMeet.combine h cases h1.2.1 h2.2.1,
      Stmt.BlockMeets.combine h default h1.2.2 h2.2.2⟩
  | .enum _ _ _, h1, h2 => fun n hn => h.name n (h1 n hn) (h2 n hn)
  | .define _ n _, h1, h2 => ⟨h.name n h1.1 h2.1, fun e he => h.value e (h1.2 e he) (h2.2 e he)⟩
  | .leave _, _, _ | .pass _, _, _ | .struct _ _ _, _, _ | .typedef _ _ _, _, _ | .includeFile _ _, _, _
  | .ifndef _ _, _, _ | .endif _, _, _ => trivial

theorem Stmt.AllMeet.combine (h : first.Suffice second third) : (ss : List Stmt) → Stmt.AllMeet first ss →
    Stmt.AllMeet second ss → Stmt.AllMeet third ss
  | [], _, _ => trivial
  | s :: rest, h1, h2 => ⟨Stmt.Meets.combine h s h1.1 h2.1, Stmt.AllMeet.combine h rest h1.2 h2.2⟩

theorem Stmt.BlockMeets.combine (h : first.Suffice second third) : (d : Option (List Stmt)) →
    Stmt.BlockMeets first d → Stmt.BlockMeets second d → Stmt.BlockMeets third d
  | none, _, _ => trivial
  | some body, h1, h2 => Stmt.AllMeet.combine h body h1 h2

theorem SwitchCase.Meets.combine (h : first.Suffice second third) : (c : SwitchCase) → c.Meets first →
    c.Meets second → c.Meets third
  | .mk _ _ body, h1, h2 =>
    ⟨fun e he => h.value e (h1.1 e he) (h2.1 e he), Stmt.AllMeet.combine h body h1.2 h2.2⟩

theorem SwitchCase.AllMeet.combine (h : first.Suffice second third) : (cs : List SwitchCase) →
    SwitchCase.AllMeet first cs → SwitchCase.AllMeet second cs → SwitchCase.AllMeet third cs
  | [], _, _ => trivial
  | c :: rest, h1, h2 =>
    ⟨SwitchCase.Meets.combine h c h1.1 h2.1, SwitchCase.AllMeet.combine h rest h1.2 h2.2⟩

end

end

/-! ### Reading what is written out -/

theorem Blur.types_type (t : Option ValueType) : Blur.types.type t = none := rfl

theorem Param.spell_of_declared {p : Param} (h : ∀ n, p.kind ≠ .named n none) : p.spell = p := by
  obtain ⟨kind, span, type⟩ := p
  match kind, h with
  | .vararg, _ => rfl
  | .named n none, h => exact absurd rfl (h n)
  | .named n (some t), _ => rfl

/-- A head that leaves nothing out. -/
theorem FunctionHead.spell_of_declared
    (hparams : ∀ p ∈ f.params, ∀ n, p.kind ≠ .named n none) (hreturns : f.returns.isSome = true) : f.spell = f := by
  obtain ⟨name, params, returns, signature⟩ := f
  obtain ⟨t, rfl⟩ := Option.isSome_iff_exists.mp hreturns
  have hmap : params.map Param.spell = params :=
    (List.map_congr_left fun p hp => Param.spell_of_declared (hparams p hp)).trans (List.map_id params)
  simp only [FunctionHead.spell, hmap, Option.some_or]

/-- The entry point of a program leaves nothing out. -/
theorem EntryPoint.spell_of_fill {s : Span}
    (h : EntryPoint.fill s (f.blur .types) = .ok (f.blur .types)) : f.spell = f := by
  obtain ⟨hparams, t, hreturns, _⟩ := fill_eq_ok.mp h
  obtain ⟨first, second, hpair, hfirst, hsecond⟩ := fillParams_eq_ok.mp hparams
  obtain ⟨n, t1, hkind, _⟩ := fillParam_eq_ok.mp hfirst
  obtain ⟨n', t2, hkind', _⟩ := fillParam_eq_ok.mp hsecond
  apply FunctionHead.spell_of_declared
  · intro p hp m hm
    have hmem : p.blur .types ∈ (f.blur .types).params := List.mem_map_of_mem hp
    have hblur : (p.blur .types).kind = .named m none := by rw [Param.blur, hm]; rfl
    rw [hpair] at hmem
    rcases List.mem_cons.mp hmem with heq | hmem
    · rw [heq, hkind] at hblur
      cases hblur
    · rw [List.mem_singleton.mp hmem, hkind'] at hblur
      cases hblur
  · have hsome := congrArg Option.isSome hreturns
    simpa [FunctionHead.blur] using hsome

theorem Param.wellFormed_spell {p : Param} (h : (p.blur .types).WellFormed) (hmeets : p.Meets .standard) :
    (p.spell.blur .types).WellFormed := by
  obtain ⟨kind, span, type⟩ := p
  match kind, h, hmeets with
  | .vararg, h, _ => exact h
  | .named n (some t), h, _ => exact h
  | .named n none, h, hmeets =>
    refine ⟨fun m declared hkind => ?_, rfl⟩
    obtain ⟨rfl, rfl⟩ := ParamKind.named.inj hkind
    refine ⟨(h.named n none rfl).1, fun t ht => ?_⟩
    cases type with
    | none => cases ht
    | some type =>
      cases ht
      exact ValueType.plain_spell Blur.types_type (hmeets n rfl type rfl)

theorem FunctionHead.wellFormed_spell (h : (f.blur .types).WellFormed)
    (hmeets : f.Meets .standard) : (f.spell.blur .types).WellFormed := by
  obtain ⟨_, hparams, hreturns⟩ := hmeets
  refine ⟨h.name, ?_, ?_, rfl, fun hentry s => ?_⟩
  · intro p hp
    simp only [FunctionHead.blur, FunctionHead.spell, List.map_map, List.mem_map] at hp
    obtain ⟨q, hq, rfl⟩ := hp
    exact Param.wellFormed_spell (h.params _ (List.mem_map_of_mem hq)) (hparams q hq)
  · intro t ht
    simp only [FunctionHead.blur, FunctionHead.spell] at ht
    cases hwritten : f.returns with
    | some written =>
      rw [hwritten] at ht
      exact h.returns t (by simpa [FunctionHead.blur, hwritten] using ht)
    | none =>
      rw [hwritten] at ht
      obtain ⟨spelled, hspelled, rfl⟩ := Option.map_eq_some_iff.mp ht
      rw [Option.none_or] at hspelled
      obtain ⟨type, htype, rfl⟩ := Option.map_eq_some_iff.mp hspelled
      exact ValueType.plain_spell Blur.types_type (hreturns hwritten type htype)
  · have hfill := h.entry hentry s
    rw [EntryPoint.spell_of_fill hfill]
    exact hfill

/-- A variable that an assignment declares. -/
theorem VarDecl.wellFormed_spell {d : VarDecl} {m : Mark} {targets : List Mark}
    (h : ((Stmt.declare m d).restore targets).1.WellFormed) (htyped : d.WellTyped)
    (hmeets : d.Meets .standard) : (d.spell.blur .types).WellFormed := by
  obtain ⟨name, declared, init, type⟩ := d
  obtain ⟨t, rfl, _, hfits⟩ := htyped
  cases declared with
  | some declared => exact h
  | none =>
    cases init with
    | none => cases hfits
    | some value =>
      obtain ⟨_, ⟨_, hname⟩, hvalue⟩ := h
      refine ⟨hname, ⟨_, rfl, ValueType.plain_spell Blur.types_type (hmeets.2.1 rfl t rfl)⟩, ?_, rfl⟩
      rintro e ⟨⟩
      exact hvalue

theorem Stmt.spellList_ne_nil {body : List Stmt} {targets : List Mark}
    (h : (Stmt.restoreList body targets).1 ≠ []) : Stmt.blurList .types (Stmt.spellList body) ≠ [] := by
  cases body with
  | nil => exact absurd rfl h
  | cons s rest => exact List.cons_ne_nil _ _

mutual

/-- **A checked statement can be read with its types written out**, if what it was checked from could be
read and the types that it leaves out are standard. -/
theorem Stmt.wellFormed_spell (rule : ResultRule) : (s : Stmt) → (targets : List Mark) →
    (s.restore targets).1.WellFormed → s.WellTyped rule → s.Meets .standard → (s.spell.blur .types).WellFormed
  | .declare _ _, _, h, htyped, hmeets => VarDecl.wellFormed_spell h htyped hmeets
  | .announce _ _, _, h, _, hmeets => FunctionHead.wellFormed_spell h hmeets
  | .function _ _ body, targets, ⟨hhead, hne, hbody⟩, ⟨own, _, _, htyped⟩, hmeets =>
    ⟨FunctionHead.wellFormed_spell hhead hmeets.1, Stmt.spellList_ne_nil hne,
      Stmt.wellFormedList_spell own body targets hbody htyped hmeets.2⟩
  | .ifElse _ _ body orelse, targets, ⟨hc, hne, hbody, horelse⟩, ⟨_, htbody, htorelse⟩, hmeets
  | .whileLoop _ _ body orelse, targets, ⟨hc, hne, hbody, horelse⟩, ⟨_, htbody, htorelse⟩, hmeets =>
    ⟨hc, Stmt.spellList_ne_nil hne, Stmt.wellFormedList_spell rule body targets hbody htbody hmeets.2.1,
      Stmt.wellFormedList_spell rule orelse _ horelse htorelse hmeets.2.2⟩
  | .doLoop _ body _, targets, ⟨hne, hbody, hc⟩, ⟨htyped, _⟩, hmeets =>
    ⟨Stmt.spellList_ne_nil hne, Stmt.wellFormedList_spell rule body targets hbody htyped hmeets.1, hc⟩
  | .switch _ _ cases default, targets, ⟨hsubject, hsome, hcases, hdefault⟩,
      ⟨type, _, _, htcases, htdefault⟩, hmeets => by
    refine ⟨hsubject, fun hnil => ?_,
      SwitchCase.wellFormedList_spell rule type cases targets hcases htcases hmeets.2.1,
      Stmt.wellFormedBlock_spell rule default _ hdefault htdefault hmeets.2.2⟩
    cases cases with
    | cons c rest => cases hnil
    | nil =>
      cases default with
      | some body => exact Option.some_ne_none _
      | none => exact absurd rfl (hsome rfl)
  | .expr _ _, _, h, _, _ | .assign _ _ _, _, h, _, _ | .result _ _, _, h, _, _ | .leave _, _, h, _, _
  | .pass _, _, h, _, _ | .struct _ _ _, _, h, _, _ | .enum _ _ _, _, h, _, _ | .typedef _ _ _, _, h, _, _
  | .define _ _ _, _, h, _, _ | .includeFile _ _, _, h, _, _ | .ifndef _ _, _, h, _, _
  | .endif _, _, h, _, _ => h

theorem Stmt.wellFormedList_spell (rule : ResultRule) : (ss : List Stmt) → (targets : List Mark) →
    Stmt.WellFormedList (Stmt.restoreList ss targets).1 → Stmt.AllTyped rule ss →
      Stmt.AllMeet .standard ss → Stmt.WellFormedList (Stmt.blurList .types (Stmt.spellList ss))
  | [], _, _, _, _ => trivial
  | s :: rest, targets, ⟨hs, hrest⟩, ⟨hts, htrest⟩, ⟨hms, hmrest⟩ =>
    ⟨Stmt.wellFormed_spell rule s targets hs hts hms, Stmt.wellFormedList_spell rule rest _ hrest htrest hmrest⟩

theorem Stmt.wellFormedBlock_spell (rule : ResultRule) : (d : Option (List Stmt)) → (targets : List Mark) →
    Stmt.WellFormedBlock (Stmt.restoreBlock d targets).1 → Stmt.BlockTyped rule d →
      Stmt.BlockMeets .standard d → Stmt.WellFormedBlock (Stmt.blurBlock .types (Stmt.spellBlock d))
  | none, _, _, _, _ => trivial
  | some body, targets, ⟨hne, hbody⟩, htyped, hmeets =>
    ⟨Stmt.spellList_ne_nil hne, Stmt.wellFormedList_spell rule body targets hbody htyped hmeets⟩

theorem SwitchCase.wellFormed_spell (rule : ResultRule) (subject : ValueType) :
    (c : SwitchCase) → (targets : List Mark) → (c.restore targets).1.WellFormed →
      c.WellTyped rule subject → c.Meets .standard → (c.spell.blur .types).WellFormed
  | .mk _ _ body, targets, ⟨hsome, hvalues, hne, hbody⟩, ⟨_, htyped⟩, hmeets =>
    ⟨hsome, hvalues, Stmt.spellList_ne_nil hne, Stmt.wellFormedList_spell rule body targets hbody htyped hmeets.2⟩

theorem SwitchCase.wellFormedList_spell (rule : ResultRule) (subject : ValueType) :
    (cs : List SwitchCase) → (targets : List Mark) → SwitchCase.WellFormedList (SwitchCase.restoreList cs targets).1 →
      SwitchCase.AllTyped rule subject cs → SwitchCase.AllMeet .standard cs →
      SwitchCase.WellFormedList (SwitchCase.blurList .types (SwitchCase.spellList cs))
  | [], _, _, _, _ => trivial
  | c :: rest, targets, ⟨hc, hrest⟩, ⟨htc, htrest⟩, ⟨hmc, hmrest⟩ =>
    ⟨SwitchCase.wellFormed_spell rule subject c targets hc htc hmc,
      SwitchCase.wellFormedList_spell rule subject rest _ hrest htrest hmrest⟩

end

end Offside
