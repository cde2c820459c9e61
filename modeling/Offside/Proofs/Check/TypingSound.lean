import Offside.Proofs.Check.Context
import Offside.Proofs.Check.Decoration
import Offside.Proofs.Types.Same

/-! Checked programs are well typed.

The types that a check notes on a tree form a derivation. For expressions this is known
(`typed_hasType`). For statements there is one thing to carry along. Where the type of a function is
inferred, the rule for its results is known once the first of them has been met, so a statement is well
typed by whatever rule the end of its check still allows (`Warrants`): a rule that is allowed at the end
was allowed before. -/
namespace Offside

namespace Check

variable {α β : Type} {sources : Sources}

/-! ### Parts of statements -/

/-- An expression that is checked, as it stands in a statement. -/
theorem typed_value (sources : Sources) (e : Expr) :
    Yields (typed sources e) fun r => r.1.HasType r.2 ∧ r.1.origin = e.origin :=
  fun s r s' hs h =>
    have hsound := typed_sound sources e s r s' hs h
    ⟨hsound.2, Expr.origin_of_blur hsound.1⟩

theorem condition_wellTyped (sources : Sources) (e : Expr) (context : String) :
    Yields (condition sources e context) Expr.IsCondition :=
  (typed_hasType sources e).bind fun r hr => (require_yields _ _ _).bind fun _ htruthy =>
    .pure ⟨r.2, hr, htruthy⟩

/-- The labels behind the first. -/
theorem caseLabels_same (sources : Sources) (subject first : ValueType) (values : List Expr) :
    Yields (caseLabels sources subject (some first) values) fun r =>
      ∀ e ∈ r, ∃ t, e.HasType t ∧ ValueType.same first t := by
  induction values with
  | nil => exact .pure nofun
  | cons e rest ih =>
    refine (typed_hasType sources e).bind fun r hr => (require_yields _ _ _).bind fun _ hsame => ?_
    refine ih.bind fun more hmore => .pure ?_
    exact List.forall_mem_cons.mpr ⟨⟨r.2, hr, hsame⟩, hmore⟩

theorem caseLabels_wellTyped (sources : Sources) (subject : ValueType) (values : List Expr) :
    Yields (caseLabels sources subject none values) (Expr.AreLabels subject) := by
  cases values with
  | nil => exact .pure trivial
  | cons e rest =>
    refine (typed_hasType sources e).bind fun r hr => (require_yields _ _ _).bind fun _ hfits => ?_
    exact (caseLabels_same sources subject r.2 rest).bind fun more hmore =>
      .pure ⟨r.2, hr, hfits, hmore⟩

end Check

/-! ### Results -/

/-- Whether the function's results may go by a rule, as far as is known: by that of the type it is declared
to return, or by that of its first result. -/
def FunctionContext.Allows (f : FunctionContext) (rule : ResultRule) : Prop :=
  match f.returns with
  | some type => rule = .declared type
  | none => ∀ type, f.inferred = some type → rule = .inferred type

/-- Outside functions any rule does. -/
def CheckState.Allows (s : CheckState) (rule : ResultRule) : Prop := ∀ f, s.function = some f → f.Allows rule

theorem CheckState.allows_of_atTopLevel (s : CheckState) (h : s.atTopLevel) (rule : ResultRule) : s.Allows rule := by
  intro f hf
  rw [atTopLevel, hf] at h
  cases h

/-- The rule that is read off the end of a function's body is allowed there. -/
theorem FunctionContext.allows_resultRule (f : FunctionContext) :
    f.Allows (Check.resultRule f.returns f.inferred) := by
  obtain ⟨name, returns, inferred⟩ := f
  cases returns with
  | some type => exact Eq.refl (ResultRule.declared type)
  | none =>
    rintro type ⟨⟩
    rfl

namespace Check

variable {s s' : CheckState} {sources : Sources}

/-- What `p` gives satisfies `post` under every rule for results that is allowed where `p` ends, and these
rules were allowed where it began. -/
def Warrants {α : Type} (p : Check α) (post : ResultRule → α → Prop) : Prop :=
  ∀ s a s', p.run s = .ok a s' → ∀ rule, s'.Allows rule → s.Allows rule ∧ post rule a

namespace Warrants

variable {α β : Type} {p : Check α} {f : α → Check β} {mid : ResultRule → α → Prop} {post : ResultRule → β → Prop}

theorem bind (hp : Warrants p mid) (hf : ∀ a, Warrants (f a) fun rule b => mid rule a → post rule b) :
    Warrants (p >>= f) post := by
  intro s b s' hrun rule hrule
  obtain ⟨a, t, ha, hb⟩ := run_bind_ok.mp hrun
  obtain ⟨ht, hpost⟩ := hf a t b s' hb rule hrule
  obtain ⟨hs, hmid⟩ := hp s a t ha rule ht
  exact ⟨hs, hpost hmid⟩

theorem pure {b : β} (h : ∀ rule, post rule b) : Warrants (Pure.pure b) post := by
  intro s a s' hrun rule hrule
  cases hrun
  exact ⟨hrule, h rule⟩

/-- A part that leaves the function as it is. -/
theorem ofYields (hp : Ends (Always SamePlace) p) (h : ∀ rule, Yields p (mid rule)) : Warrants p mid := by
  intro s a s' hrun rule hrule
  have hplace := (hp s).ok hrun
  exact ⟨fun f hf => hrule f (hplace.1.trans hf), h rule s a s' trivial hrun⟩

theorem inBlock (h : Warrants p mid) : Warrants (Check.inBlock p) mid := by
  intro s a s' hrun rule hrule
  obtain ⟨t, hpart, rfl⟩ := during_ok hrun
  exact h _ a t hpart rule hrule

theorem inBreakable (h : Warrants p mid) : Warrants (Check.inBreakable p) mid := by
  intro s a s' hrun rule hrule
  obtain ⟨t, hpart, rfl⟩ := during_ok hrun
  exact h.inBlock _ a t hpart rule hrule

end Warrants

/-- The first result fits the type that is inferred from it. -/
theorem matchesOnAssign_refl (t : ValueType) : ValueType.matchesOnAssign t t := by
  simp [ValueType.matchesOnAssign, ValueType.same_refl]

/-- A result of an inferred type that goes through: the first says what the others have to match. -/
theorem inferResult_ok {function : FunctionContext} {found : ValueType} {l : Location} {a : Unit}
    (hs : s.function = some function) (hreturns : function.returns = none)
    (h : (inferResult function found l).run s = .ok a s') (rule : ResultRule) (hrule : s'.Allows rule)
    (origin : ValueOrigin) : s.Allows rule ∧ rule.takes origin found := by
  obtain ⟨_, s1, hrequire, hrest⟩ := run_bind_ok.mp h
  obtain ⟨hkind, rfl⟩ := require_ok hrequire
  cases hinferred : function.inferred with
  | some first =>
    rw [hinferred] at hrest
    obtain ⟨hmatches, rfl⟩ := require_ok hrest
    have hallows := hrule function hs
    simp only [FunctionContext.Allows, hreturns] at hallows
    refine ⟨hrule, ?_⟩
    rw [hallows first hinferred]
    simp only [ResultRule.takes, hkind, hmatches, Bool.and_self]
  | none =>
    rw [hinferred] at hrest
    cases hrest
    have hallows := hrule _ rfl
    simp only [FunctionContext.Allows, hreturns] at hallows
    rw [hallows _ rfl]
    constructor
    · intro f hf
      rw [hs] at hf
      cases hf
      simp only [FunctionContext.Allows, hreturns, hinferred]
      exact nofun
    · simp only [ResultRule.takes, hkind, matchesOnAssign_refl, Bool.and_self]

theorem matchResult_ok {function : FunctionContext} {value value' : Option Expr} {found : ValueType}
    {origin : ValueOrigin} {l : Location} (hs : s.function = some function)
    (h : (matchResult function value found origin l).run s = .ok value' s') (rule : ResultRule)
    (hrule : s'.Allows rule) : value' = value ∧ s.Allows rule ∧ rule.takes origin found := by
  unfold matchResult at h
  cases hreturns : function.returns with
  | some expected =>
    rw [hreturns] at h
    obtain ⟨_, s1, hrequire, hrest⟩ := run_bind_ok.mp h
    obtain ⟨hfits, rfl⟩ := require_ok hrequire
    cases hrest
    have hallows := hrule function hs
    simp only [FunctionContext.Allows, hreturns] at hallows
    exact ⟨rfl, hrule, by rw [hallows]; exact hfits⟩
  | none =>
    rw [hreturns] at h
    obtain ⟨_, s1, hinfer, hrest⟩ := run_bind_ok.mp h
    cases hrest
    exact ⟨rfl, inferResult_ok hs hreturns hinfer rule hrule origin⟩

theorem result_wellTyped (hsecludes : Secludes sources) (value : Option Expr) (l : Location) (m : Mark) :
    Warrants (result sources value l) fun rule value' => (Stmt.result m value').WellTyped rule := by
  intro s value' s' h rule hrule
  unfold result at h
  obtain ⟨_, _, hget, h⟩ := run_bind_ok.mp h
  cases hget
  cases hfunction : s.function with
  | none =>
    rw [hfunction] at h
    cases h
  | some function =>
    rw [hfunction] at h
    cases value with
    | none =>
      obtain ⟨rfl, hallows, htakes⟩ := matchResult_ok hfunction h rule hrule
      exact ⟨hallows, htakes⟩
    | some e =>
      obtain ⟨r, s1, htyped, hmatch⟩ := run_bind_ok.mp h
      have hplace := (hsecludes.adds.typed e .any).ok htyped
      obtain ⟨hr, horigin⟩ := typed_value sources e s r s1 trivial htyped
      have hmatch : (matchResult function (some r.1) r.2 e.origin l).run s1 = .ok value' s' := hmatch
      obtain ⟨rfl, hallows, htakes⟩ := matchResult_ok (hplace.1.trans hfunction) hmatch rule hrule
      refine ⟨fun f hf => hallows f (hplace.1.trans hf), r.2, hr, ?_⟩
      rw [horigin]
      exact htakes

/-! ### Statements -/

theorem Secludes.declares (h : Secludes sources) :
    Declares (Always SamePlace) sources :=
  { h.adds with
    constants := fun _ _ => ⟨rfl, rfl⟩
    struct := h.adds.struct fun _ _ _ => ⟨rfl, rfl⟩ }

/-- Statements that hold no others, give no result and include nothing. -/
theorem plain_wellTyped (sources : Sources) (rule : ResultRule) : (line : Stmt) → line.isPlain →
    Yields (statement sources line) fun checked => checked.WellTyped rule
  | .expr _ e, _ => (typed_hasType sources e).bind fun r hr => .pure ⟨r.2, hr⟩
  | .declare _ d, _ => (variableDeclaration_yields sources d _).bind fun _ hd => .pure hd.2.2
  | .assign m target value, _ => fun s r s' hs h => (assignment_yields sources m target value s r s' hs h).2 rule
  | .announce _ head, _ => (announce_yields sources head _).bind fun _ hhead => .pure hhead.2
  | .define _ name value, _ => (define_yields sources name value _).bind fun _ hvalue => .pure hvalue.2
  | .leave _, _ => .after fun _ => .after fun _ => .pure trivial
  | .struct _ _ _, _ | .enum _ _ _, _ | .typedef _ _ _, _ => .after fun _ => .pure trivial
  | .pass _, _ | .ifndef _ _, _ | .endif _, _ => .pure trivial

theorem plain_warrants (hsecludes : Secludes sources) (line : Stmt)
    (h : line.isPlain) : Warrants (statement sources line) Stmt.WellTyped :=
  .ofYields (fun _ => hsecludes.declares.plain line h .any fun _ _ _ => ⟨rfl, rfl⟩)
    fun rule => plain_wellTyped sources rule line h

theorem condition_warrants (hsecludes : Secludes sources) (e : Expr)
    (context : String) : Warrants (condition sources e context) fun _ => Expr.IsCondition :=
  .ofYields (hsecludes.adds.condition e context .any) fun _ => condition_wellTyped sources e context

/-- The body of a function is well typed by the rule that is read off its end. -/
theorem body_wellTyped (hS : Respects (Always CheckState.Situated) sources)
    {f : FunctionContext} (params : List Param) (types : List ValueType) {body body' : List Stmt}
    (hbody : Warrants (statements sources body) Stmt.AllTyped) {inferred : Option ValueType}
    (h : (inFunction f do
      modifyScope (bindParams params types)
      let body ← statements sources body
      return (body, (← get).function.bind (·.inferred))).run s = .ok (body', inferred) s') :
    Stmt.AllTyped (resultRule f.returns inferred) body' := by
  obtain ⟨t, hpart, _⟩ := during_ok h
  obtain ⟨_, t1, hparams, hrest⟩ := run_bind_ok.mp hpart
  obtain ⟨_, t2, hrun, hend⟩ := run_bind_ok.mp hrest
  cases hend
  -- At its end the check is still in this function, so that the rule is the one allowed there.
  have hplace := ((hS.bindParams params types _).ok hparams).trans ((hS.statements body .any).ok hrun)
  have hfunction : t.function.map FunctionContext.declared = some f.declared := hplace.function
  obtain ⟨f', hf', hdeclared⟩ := Option.map_eq_some_iff.mp hfunction
  have hreturns : f'.returns = f.returns := congrArg Prod.snd hdeclared
  refine (hbody t1 body' t hrun _ fun f'' hf'' => ?_).2
  rw [hf'] at hf''
  cases hf''
  rw [hf', ← hreturns]
  exact f'.allows_resultRule

theorem function_wellTyped (hS : Respects (Always CheckState.Situated) sources)
    (m : Mark) (head : FunctionHead) (body : List Stmt)
    (hbody : Warrants (statements sources body) Stmt.AllTyped) :
    Warrants (statement sources (.function m head body)) Stmt.WellTyped := by
  intro s checked s' h rule _
  rw [statement] at h
  obtain ⟨⟨types, returns⟩, s1, hopen, h1⟩ := run_bind_ok.mp h
  obtain ⟨⟨body', inferred⟩, s2, hinside, h2⟩ := run_bind_ok.mp h1
  obtain ⟨head', s3, hclose, h3⟩ := run_bind_ok.mp h2
  cases h3
  obtain ⟨hlen, hreturns⟩ := openDefinition_yields sources head _ s _ s1 trivial hopen
  obtain ⟨_, hhead, hwritten⟩ := closeDefinition_yields head types returns inferred _ hlen s2 head' s' trivial hclose
  have htop : s.atTopLevel := by
    have hplace := (hS.secludes.adds.openDefinition head _ .any trivial fun _ => ⟨rfl, rfl⟩).ok hopen
    have htop := openDefinition_atTopLevel hS.secludes hopen
    rwa [CheckState.atTopLevel, hplace.1, hplace.2] at htop
  refine ⟨s.allows_of_atTopLevel htop rule, resultRule returns inferred, hhead, ?_,
    body_wellTyped hS head.params types hbody hinside⟩
  intro hsome
  rw [hwritten] at hsome
  obtain ⟨type, rfl⟩ := Option.isSome_iff_exists.mp (hreturns hsome)
  rfl

mutual

theorem statement_wellTyped {sources : Sources} (hS : Respects (Always CheckState.Situated) sources) :
    (line : Stmt) → Warrants (statement sources line) Stmt.WellTyped
  | .function m head body => function_wellTyped hS m head body (statements_wellTyped hS body)
  | .result m value =>
    (result_wellTyped hS.secludes value _ m).bind fun _ => .pure fun _ hresult => hresult
  | .ifElse _ c body orelse =>
    (condition_warrants hS.secludes c _).bind fun _ =>
      (statements_wellTyped hS body).inBlock.bind fun _ =>
        (statements_wellTyped hS orelse).inBlock.bind fun _ =>
          .pure fun _ horelse hbody hc => ⟨hc, hbody, horelse⟩
  | .whileLoop _ c body orelse =>
    (condition_warrants hS.secludes c _).bind fun _ =>
      (statements_wellTyped hS body).inBreakable.bind fun _ =>
        (statements_wellTyped hS orelse).inBlock.bind fun _ =>
          .pure fun _ horelse hbody hc => ⟨hc, hbody, horelse⟩
  | .doLoop _ body c =>
    (statements_wellTyped hS body).inBreakable.bind fun _ =>
      (condition_warrants hS.secludes c _).bind fun _ => .pure fun _ hc hbody => ⟨hbody, hc⟩
  | .switch _ subject cases default => by
    have hplace := SamePlace.chains
    refine Warrants.bind (.ofYields (hS.secludes.adds.typed subject .any) fun _ => typed_hasType sources subject)
      fun r => ?_
    refine Warrants.bind (.ofYields (hplace.require r.2.isIntegerLike _ _ rfl trivial) fun _ =>
      require_yields _ _ _)
      fun _ => ?_
    refine (switchCases_wellTyped hS r.2 cases).bind fun _ => ?_
    exact (defaultCase_wellTyped hS default).bind fun _ =>
      .pure fun _ hdefault hcases hinteger hsubject => ⟨r.2, hsubject, hinteger, hcases, hdefault⟩
  | .includeFile _ _ => by
    intro s checked s' h rule _
    obtain ⟨_, _, hget, h1⟩ := run_bind_ok.mp h
    cases hget
    obtain ⟨_, _, htop, h2⟩ := run_bind_ok.mp h1
    obtain ⟨_, _, _, h3⟩ := run_bind_ok.mp h2
    cases h3
    exact ⟨s.allows_of_atTopLevel (require_ok htop).1 rule, trivial⟩
  | .expr m e => plain_warrants hS.secludes (.expr m e) rfl
  | .declare m d => plain_warrants hS.secludes (.declare m d) rfl
  | .assign m target value => plain_warrants hS.secludes (.assign m target value) rfl
  | .announce m head => plain_warrants hS.secludes (.announce m head) rfl
  | .leave m => plain_warrants hS.secludes (.leave m) rfl
  | .pass m => plain_warrants hS.secludes (.pass m) rfl
  | .struct m name fields => plain_warrants hS.secludes (.struct m name fields) rfl
  | .enum m name members => plain_warrants hS.secludes (.enum m name members) rfl
  | .typedef m target name => plain_warrants hS.secludes (.typedef m target name) rfl
  | .define m name value => plain_warrants hS.secludes (.define m name value) rfl
  | .ifndef m name => plain_warrants hS.secludes (.ifndef m name) rfl
  | .endif m => plain_warrants hS.secludes (.endif m) rfl

theorem statements_wellTyped {sources : Sources} (hS : Respects (Always CheckState.Situated) sources) :
    (ss : List Stmt) → Warrants (statements sources ss) Stmt.AllTyped
  | [] => .pure fun _ => trivial
  | s :: rest =>
    (statement_wellTyped hS s).bind fun _ => (statements_wellTyped hS rest).bind fun _ =>
      .pure fun _ hrest hs => ⟨hs, hrest⟩

theorem switchCases_wellTyped {sources : Sources} (hS : Respects (Always CheckState.Situated) sources)
    (subject : ValueType) : (cs : List SwitchCase) →
      Warrants (switchCases sources subject cs) fun rule cs' => SwitchCase.AllTyped rule subject cs'
  | [] => .pure fun _ => trivial
  | c :: rest =>
    (switchCase_wellTyped hS subject c).bind fun _ => (switchCases_wellTyped hS subject rest).bind fun _ =>
      .pure fun _ hrest hc => ⟨hc, hrest⟩

theorem switchCase_wellTyped {sources : Sources} (hS : Respects (Always CheckState.Situated) sources)
    (subject : ValueType) : (c : SwitchCase) →
      Warrants (switchCase sources subject c) fun rule c' => c'.WellTyped rule subject
  | .mk _ values body =>
    .bind (.ofYields (hS.secludes.adds.caseLabels subject none values .any)
        fun _ => caseLabels_wellTyped sources subject values) fun _ =>
      (statements_wellTyped hS body).inBreakable.bind fun _ =>
        .pure fun _ hbody hvalues => ⟨hvalues, hbody⟩

theorem defaultCase_wellTyped {sources : Sources} (hS : Respects (Always CheckState.Situated) sources) :
    (d : Option (List Stmt)) → Warrants (defaultCase sources d) Stmt.BlockTyped
  | none => .pure fun _ => trivial
  | some body => (statements_wellTyped hS body).inBreakable.bind fun _ => .pure fun _ hbody => hbody

end

/-- Statements at the top level, outside all functions, that are in order. -/
theorem module_wellTyped {config : Config} {depth : Nat} {m : Module} {body : List Stmt} (htop : s.atTopLevel)
    (h : (statements (sourcesTo config depth) m.body).run s = .ok body s') :
    Module.WellTyped ⟨m.file, body⟩ := by
  have hS := (situated_tolerates config).respects depth
  have hplace := (hS.statements m.body .any).ok h
  have htop' : s'.atTopLevel := by
    have hfunction := congrArg Option.isNone hplace.function
    simp only [Option.isNone_map] at hfunction
    rw [CheckState.atTopLevel, hfunction, hplace.block]
    exact htop
  intro rule
  exact (statements_wellTyped hS m.body s body s' h rule (s'.allows_of_atTopLevel htop' rule)).2

end Check

/-- **The types on a checked program are a derivation.** In a program that is in order and in every file
that it includes, each expression outside types carries a type, which follows by the rules from the types
on its parts, and each statement is well typed by these types. -/
theorem CheckedUnit.ofModule_wellTyped (config : Config) (m : Module) (path : Option Path)
    (u : CheckedUnit) (h : CheckedUnit.ofModule config m path = .ok u) :
    ∀ checked ∈ u.module :: u.units.map Prod.snd, checked.WellTyped ∧
      ∀ e ∈ checked.expressions, ∃ t, e.type? = some t ∧ e.HasType t := by
  have hstart := Check.between_startState path
  have hnone : ∀ unit ∈ (CheckedUnit.startState path).units, unit.2.WellTyped := by
    cases path <;> exact nofun
  have htyped : ∀ checked ∈ u.module :: u.units.map Prod.snd, checked.WellTyped := by
    unfold CheckedUnit.ofModule at h
    split at h
    · rename_i body s hrun
      cases h
      have hunits : ∀ unit ∈ s.units, unit.2.WellTyped :=
        Check.units_forall (fun _ _ _ _ _ hs hrun => Check.module_wellTyped hs.topLevel hrun)
          (Check.depthBound config) m.body hstart hnone hrun
      refine List.forall_mem_cons.mpr ⟨Check.module_wellTyped hstart.topLevel hrun, ?_⟩
      exact List.forall_mem_map.mpr hunits
    · cases h
  intro checked hchecked
  refine ⟨htyped checked hchecked, fun e he => ?_⟩
  obtain ⟨t, ht⟩ := (htyped checked hchecked).expressions e he
  exact ⟨t, ht.type?, ht⟩

/-- A function whose type is inferred, and a call of it among the items of an array. -/
theorem CheckedUnit.ofModule_wellTyped_twice :
    ∃ m u, Module.ofText "t.cu" "def twice(n: int):\n    return n + n\nx: int[] = [1, twice(2)]\n" = .ok m ∧
      CheckedUnit.ofModule {} m none = .ok u ∧ u.module.expressions.length = 8 ∧
      u.module.WellTyped ∧ ∀ e ∈ u.module.expressions, ∃ t, e.type? = some t ∧ e.HasType t := by
  have height : ((CheckedUnit.ofText {} "t.cu"
      "def twice(n: int):\n    return n + n\nx: int[] = [1, twice(2)]\n").toOption.any
        fun u => u.module.expressions.length == 8) = true := by decide +kernel
  obtain ⟨u, hu, hlength⟩ := exists_ok_of_any height
  obtain ⟨m, hm, hu⟩ := CheckedUnit.ofText_ok hu
  refine ⟨m, u, hm, hu, by simpa using hlength, ?_⟩
  exact CheckedUnit.ofModule_wellTyped {} m none u hu u.module List.mem_cons_self

end Offside
