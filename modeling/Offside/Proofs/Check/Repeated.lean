import Offside.Proofs.Check.HeadersAbreast
import Offside.Proofs.Check.Agreement

/-! Checking what was checked.

A statement that was checked, with the types written out that the check found, goes through once more
beside the first check and comes out the same (`Check.statement_repeats`). Results are the point where
the two checks may part: where the type of results is inferred, the first asks whether a result matches
the first one, and the second whether it fits the type that is now written. An array of `void` matches
pointers that it does not fit, so results must be none. -/
namespace Offside

variable {e : Expr} {origin : ValueOrigin} {found : ValueType}

/-! ### Results -/

namespace ValueType

variable {t v : ValueType}

def isVoidArray : ValueType → Bool
  | array element _ => element.isVoid
  | _ => false

theorem canAssign_of_matches (origin : ValueOrigin) (h : matchesOnAssign t v) : canAssign origin t v := by
  unfold canAssign
  split <;> simp [h]

/-- What a decayed value matches, the value fits. -/
theorem canAssign_of_matches_decay (origin : ValueOrigin) {first : ValueType}
    (h : matchesOnAssign first found.decay) (harray : found.isVoidArray = false) :
    canAssign origin first found := by
  cases found with
  | array element size =>
    have hvoid : element.isVoid = false := harray
    cases first with
    | pointer target =>
      have hcases : same target element ∨ target.isVoid := by
        simpa [decay, matchesOnAssign, same, isPointer, isVoidPointer, isNull, scalar?, hvoid] using h
      rcases hcases with hsame | htarget
      · simp [canAssign, matchesOnAssign, hsame]
      · simp [canAssign, htarget]
    | _ => simp [decay, matchesOnAssign, same, isPointer] at h
  | _ => exact canAssign_of_matches origin h

theorem isVoid_of_same (h : same t v) : t.isVoid = v.isVoid := by
  cases t <;> cases v <;> first | rfl | simp [same] at h
  rw [h]

/-- Only `void` matches `void`. -/
theorem isVoid_of_matches (h : matchesOnAssign t v) (hvoid : (t.isVoid || v.isVoid)) : (t.isVoid && v.isVoid) := by
  simp only [matchesOnAssign, Bool.or_eq_true] at h
  rcases h with (hsame | hnull) | hpointers
  · rw [isVoid_of_same hsame, Bool.or_self] at hvoid
    rw [isVoid_of_same hsame, hvoid, Bool.and_self]
  · rw [Bool.and_eq_true] at hnull
    cases t <;> simp [isPointer] at hnull
    cases v <;> simp_all [isVoid, isNull, scalar?]
  · cases t <;> cases v <;> simp [isPointer, isVoid, scalar?] at hpointers hvoid

end ValueType

/-- A result that was taken fits the type of the function's results. -/
theorem ResultRule.fits_of_takes {rule : ResultRule}
    (h : rule.takes origin found)
    (harray : ∀ first, rule = .inferred first → found.isVoidArray = false) :
    Check.resultFits origin rule.type found := by
  cases rule with
  | declared expected => exact h
  | inferred first =>
    simp only [takes, Bool.and_eq_true] at h
    have hfound := harray first rfl
    unfold Check.resultFits
    split
    · rename_i hvoid
      have hdecay : found.decay.isVoid = found.isVoid := by cases found <;> rfl
      have hboth := ValueType.isVoid_of_matches h.2 (hdecay.symm ▸ hvoid)
      rwa [hdecay] at hboth
    · exact ValueType.canAssign_of_matches_decay origin h.2 hfound

/-! ### States -/

/-- The second check may go on from the declarations that the first one finds. -/
structure CheckState.Ready (s : CheckState) : Prop where
  furnished : s.Furnished
  visible : s.Visible

theorem CheckState.Ready.congr {s s' : CheckState} (h : s.Ready) (henvironment : s'.environment = s.environment)
    (hheaders : s'.headers = s.headers) : s'.Ready :=
  ⟨h.furnished.congr (congrArg Environment.global henvironment) hheaders, h.visible.congr henvironment⟩

namespace CheckState.Abreast

variable {k : Pairing} {s s' t t' : CheckState}

variable (h : s.Abreast k t)
include h

theorem depths (b d : Nat → Nat) :
    Abreast k { s with blockDepth := b s.blockDepth, breakableDepth := d s.breakableDepth }
      { t with blockDepth := b t.blockDepth, breakableDepth := d t.breakableDepth } := by
  obtain ⟨e, f, rfl⟩ := h.exists_eq
  exact { h with others := rfl }

/-- The type of results that is inferred is known to the first check only. -/
theorem infer {f : FunctionContext} (hf : s.function = some f) (f' : FunctionContext) :
    Abreast k { s with function := some f' } t := by
  have hinside : t.function.isSome := by rw [← h.inside, hf]; rfl
  exact { h with inside := hinside.symm, others := h.others }

end CheckState.Abreast

namespace Check

variable {α β : Type} {k : Pairing} {config : Config} {depth : Nat} {s s' t : CheckState} {p : Check α} {a : α}

section

variable (hp : ∀ {T : Course}, Respects T (sourcesTo config depth) → Ends T p)
include hp

theorem ready_after (hs : s.Ready) (h : p.run s = .ok a s') : s'.Ready :=
  ⟨(hp ((furnished_tolerates config).respects depth) s).ok h hs.furnished,
    (hp ((visible_tolerates config).respects depth) s).ok h hs.visible⟩

theorem atTopLevel_after (h : p.run s = .ok a s') : s'.atTopLevel = s.atTopLevel := by
  have hplace := (hp ((situated_tolerates config).respects depth) s).ok h
  have hfunction := congrArg Option.isNone hplace.function
  simp only [Option.isNone_map] at hfunction
  rw [CheckState.atTopLevel, hfunction, hplace.block, CheckState.atTopLevel]

end

theorem during_run {enter : CheckState → CheckState} {leave : CheckState → CheckState → CheckState}
    {part : Check α} (h : part.run (enter s) = .ok a s') :
    (during enter leave part).run s = .ok a (leave s s') := by
  unfold EStateM.run at h
  unfold during EStateM.run
  dsimp only
  rw [h]

/-- A name that no header declares either. -/
theorem lookup_none {name : String} (hs : s.Ready)
    (h : (lookup (sourcesTo config depth) name).run s = .ok none s') : s' = s := by
  obtain ⟨_, _, hscope, h1⟩ := run_bind_ok.mp h
  cases hscope
  split at h1
  · cases h1
  · split at h1
    · rename_i header hfound
      obtain ⟨_, s1, hload, h2⟩ := run_bind_ok.mp h1
      obtain ⟨_, _, hscope, h3⟩ := run_bind_ok.mp h2
      cases hscope
      cases depth with
      | zero => cases hload
      | succ depth =>
        -- The header that is read would have declared it.
        have hheader : header ∈ Header.standard := by
          cases depth <;> exact config.mem_standard (List.mem_of_find?_eq_some hfound)
        have hname : name ∈ header.names := by simpa using List.find?_some hfound
        have hready : s1.Ready := ⟨((load_reads config depth hheader s).ok hload hs.furnished).furnished,
          (visible_load _ header s).ok hload hs.visible⟩
        have hknown := hready.visible.current.names name
          ((hready.furnished.declared header hheader (mem_headers_of_load hload)).names name hname)
        have hnone : s1.scope.lookup name = none := (EStateM.Result.ok.inj h3).1
        rw [hnone] at hknown
        cases hknown
    · cases h1
      rfl

end Check

/-! ### Statements that hold no others -/

theorem Expr.bare_of_types {e' : Expr} (h : e'.blur .types = e.blur .types) : e'.blur .bare = e.blur .bare := by
  rw [← e'.blur_bare .types, h, e.blur_bare]

theorem Expr.names_of_types {e' : Expr} (h : e'.blur .types = e.blur .types) : e'.names = e.names := by
  rw [← e'.names_blur .types, h, e.names_blur]

theorem Expr.map_bare_of_types {value value' : Option Expr}
    (h : value'.map (·.blur .types) = value.map (·.blur .types)) :
    value'.map (·.blur .bare) = value.map (·.blur .bare) := by
  cases value with
  | none =>
    obtain rfl : value' = none := by simpa using h
    rfl
  | some e =>
    obtain ⟨e', rfl, he⟩ := Option.map_eq_some_iff.mp h
    exact congrArg some (Expr.bare_of_types he)

theorem Expr.forall_names_of_types {value value' : Option Expr} {P : String → Prop}
    (h : value'.map (·.blur .types) = value.map (·.blur .types)) (hnames : ∀ e ∈ value', ∀ n ∈ e.names, P n) :
    ∀ e ∈ value, ∀ n ∈ e.names, P n := by
  rintro e ⟨⟩
  obtain ⟨e', rfl, he⟩ := Option.map_eq_some_iff.mp h
  rw [← Expr.names_of_types he]
  exact hnames e' rfl

theorem Expr.forall_namesList {es : List Expr} {P : String → Prop} (h : ∀ e ∈ es, ∀ n ∈ e.names, P n) :
    ∀ n ∈ Expr.namesList es, P n := by
  induction es with
  | nil => exact nofun
  | cons e rest ih =>
    obtain ⟨he, hrest⟩ := List.forall_mem_cons.mp h
    exact List.forall_mem_append.mpr ⟨he, ih hrest⟩

theorem VarDecl.spell_of_declared {d : VarDecl} (h : d.declared ≠ none) : d.spell = d := by
  obtain ⟨name, declared, init, type⟩ := d
  obtain ⟨written, rfl⟩ := Option.ne_none_iff_exists'.mp h
  rfl

/-- A statement that stands at the top level only. -/
def Stmt.isOuter : Stmt → Bool
  | .function _ _ _ | .includeFile _ _ => true
  | _ => false

/-- What is asked of a checked statement if it is to go through once more. -/
def Pairing.demand (k : Pairing) (rule : ResultRule) : Demand where
  leftOut type := type.isStandard = true
  name := k.Shares
  value e := ∀ n ∈ e.names, k.Shares n
  result e := ∀ first, rule = .inferred first → ∀ type ∈ e.type?, type.isVoidArray = false

namespace Check

variable {k : Pairing} {rule : ResultRule} {sources : Sources} {s s' t : CheckState} {checked : Stmt}
    {target value : Expr} {m : Mark} {line : Stmt} {name : String}

/-- From `t` the line goes through, ends beside `s'`, and comes out as `checked`. -/
def Repeats (k : Pairing) (sources : Sources) (checked : Stmt) (s' : CheckState) (line : Stmt)
    (t : CheckState) : Prop :=
  ∃ again t', (statement sources line).run t = .ok again t' ∧ s'.Abreast k t' ∧
    again.spell.blur .bare = checked.spell.blur .bare

/-- Wherever `p` went through from a state in `place`, it goes through once more on what its answer spells,
ends beside the first time and comes out the same, if the answer is `typed` and `meets` what is asked. -/
def GoesAgain {α : Type} (k : Pairing) (p : α → Check α) (typed meets : α → Prop) (bare spell : α → α)
    (place : CheckState → Prop) (a : α) : Prop :=
  ∀ ⦃s s' t checked⦄, s.Ready → place s → s.Abreast k t → (p a).run s = .ok checked s' → typed checked →
    meets checked → ∀ ⦃a'⦄, bare a' = bare (spell checked) →
    ∃ again t', (p a').run t = .ok again t' ∧ s'.Abreast k t' ∧ bare (spell again) = bare (spell checked)

abbrev Repeatable (k : Pairing) (rule : ResultRule) (sources : Sources) (line : Stmt) : Prop :=
  GoesAgain k (statement sources) (Stmt.WellTyped rule) (Stmt.Meets (k.demand rule)) (Stmt.blur .bare) Stmt.spell
    (fun s => line.isOuter → s.atTopLevel = false) line

section

variable (hS : LoadsAbreast k sources)
include hS

theorem expr_repeats : Repeatable k rule sources (.expr m e) := by
  intro s s' t checked _ _ hst h _ hmeets line hline
  obtain ⟨⟨v, type⟩, s1, htyped, hdone⟩ := run_bind_ok.mp h
  cases hdone
  have hv : v.blur .types = e.blur .types := typed_yields sources e s _ _ trivial htyped
  cases line with
  | expr m' e' =>
    have he : e'.blur .bare = v.blur .bare := (Stmt.expr.inj hline).2
    have hnames : ∀ n ∈ e.names, k.Shares n := Expr.names_of_types hv ▸ hmeets
    obtain ⟨r, t', hrun, hst', hr, _⟩ :=
      Follows.typed hS e e' (he.trans (Expr.bare_of_types hv)) hnames s t hst _ _ htyped
    exact ⟨_, t', run_bind_ok.mpr ⟨r, t', hrun, rfl⟩, hst', congrArg (Stmt.expr _) hr⟩
  | _ => cases hline

theorem declare_repeats (d : VarDecl) : Repeatable k rule sources (.declare m d) := by
  intro s s' t checked _ _ hst h _ hmeets line hline
  obtain ⟨d1, s1, hdeclare, hdone⟩ := run_bind_ok.mp h
  cases hdone
  obtain ⟨hd1, hdeclared, _⟩ := variableDeclaration_yields sources d _ s d1 _ trivial hdeclare
  cases line with
  | declare m' d' =>
    have hd' : d'.blur .bare = d1.spell.blur .bare := (Stmt.declare.inj hline).2
    rw [VarDecl.spell_of_declared hdeclared] at hd'
    have hsame : d'.blur .bare = d.blur .bare := by
      rw [hd', ← d1.blur_bare .types, hd1, d.blur_bare]
    have hname : k.Shares d.name := congrArg VarDecl.name hd1 ▸ hmeets.1
    have hnames : ∀ e ∈ d.init, ∀ n ∈ e.names, k.Shares n :=
      Expr.forall_names_of_types (congrArg VarDecl.init hd1) hmeets.2.2
    obtain ⟨r, t', hrun, hst', _⟩ :=
      Follows.variableDeclaration hS hname hsame hnames m.span.start m'.span.start s t hst _ _ hdeclare
    obtain ⟨hr, hdeclared', _⟩ := variableDeclaration_yields sources d' _ t r t' trivial hrun
    refine ⟨_, t', run_bind_ok.mpr ⟨r, t', hrun, rfl⟩, hst', congrArg (Stmt.declare _) ?_⟩
    rw [VarDecl.spell_of_declared hdeclared, VarDecl.spell_of_declared hdeclared', ← hd', ← r.blur_bare .types,
      hr, d'.blur_bare]
  | _ => cases hline

theorem define_repeats (value : Option Expr) : Repeatable k rule sources (.define m name value) := by
  intro s s' t checked _ _ hst h _ hmeets line hline
  obtain ⟨found, s1, hdefine, hdone⟩ := run_bind_ok.mp h
  cases hdone
  have hfound := (define_yields sources name value _ s found _ trivial hdefine).1
  cases line with
  | define m' name' value' =>
    obtain ⟨_, rfl, hvalue'⟩ := Stmt.define.inj hline
    have hsame : value'.map (·.blur .bare) = value.map (·.blur .bare) := hvalue'.trans (Expr.map_bare_of_types hfound)
    have hnames := Expr.forall_names_of_types hfound hmeets.2
    obtain ⟨r, t', hrun, hst', hr⟩ :=
      Follows.define hS (fun _ => hmeets.1) hsame hnames m.span.start m'.span.start s t hst _ _ hdefine
    exact ⟨_, t', run_bind_ok.mpr ⟨r, t', hrun, rfl⟩, hst', congrArg (Stmt.define _ _) hr⟩
  | _ => cases hline

theorem announce_repeats (head : FunctionHead) : Repeatable k rule sources (.announce m head) := by
  intro s s' t checked _ _ hst h _ hmeets line hline
  obtain ⟨found, s1, hannounce, hdone⟩ := run_bind_ok.mp h
  cases hdone
  have hname : k.Shares head.name := by
    have hyields := (announce_yields sources head _ s found _ trivial hannounce).1
    exact congrArg FunctionHead.name hyields ▸ hmeets.1
  obtain ⟨types, returns, rfl, hlen, hagain⟩ := announce_restated hS hst hname hannounce
  cases line with
  | announce m' head' =>
    have hhead' : head'.blur .bare = (head.noted types returns).spell.blur .bare := (Stmt.announce.inj hline).2
    have hrestated : head.RestatedAs types returns head' := .ofBlur hlen ⟨trivial, hmeets.2⟩ hhead'
    obtain ⟨t', hrun, hst'⟩ := hagain head' m'.span.start hrestated
    refine ⟨_, t', run_bind_ok.mpr ⟨_, t', hrun, rfl⟩, hst', congrArg (Stmt.announce _) ?_⟩
    rw [← hhead', hrestated.spell]
  | _ => cases hline

end

/-- Statements that come out as they are. -/
theorem leave_repeats : Repeatable k rule sources (.leave m) := by
  intro s s' t checked _ _ hst h _ _ line hline
  obtain ⟨_, _, hget, h1⟩ := run_bind_ok.mp h
  cases hget
  obtain ⟨_, _, hrequire, h2⟩ := run_bind_ok.mp h1
  obtain ⟨hdepth, rfl⟩ := require_ok hrequire
  cases h2
  cases line with
  | leave m' =>
    refine ⟨.leave m', t, run_bind_ok.mpr ⟨t, t, rfl, run_bind_ok.mpr ⟨(), t, ?_, rfl⟩⟩, hst, rfl⟩
    have hsame : t.breakableDepth = s'.breakableDepth := by rw [hst.others]
    rw [hsame, require, if_pos hdepth]
    rfl
  | _ => cases hline

theorem struct_repeats (hS : LoadsAbreast k sources) (fields : List Field) :
    Repeatable k rule sources (.struct m name fields) := by
  intro s s' t checked _ _ hst h _ _ line hline
  obtain ⟨_, s1, hstruct, hdone⟩ := run_bind_ok.mp h
  cases hdone
  cases line with
  | struct m' name' fields' =>
    obtain ⟨_, rfl, hfields⟩ := Stmt.struct.inj hline
    obtain ⟨_, t', hrun, hst', _⟩ := Follows.struct hS name' hfields m.span.start m'.span.start s t hst _ _ hstruct
    exact ⟨_, t', run_bind_ok.mpr ⟨(), t', hrun, rfl⟩, hst', hline⟩
  | _ => cases hline

theorem enum_repeats (members : List String) : Repeatable k rule sources (.enum m name members) := by
  intro s s' t checked _ _ hst h _ hmeets line hline
  obtain ⟨_, s1, henum, hdone⟩ := run_bind_ok.mp h
  cases hdone
  cases line with
  | enum m' name' members' =>
    obtain ⟨_, rfl, rfl⟩ := Stmt.enum.inj hline
    obtain ⟨_, t', hrun, hst', _⟩ := Follows.enum name' hmeets m.span.start m'.span.start s t hst _ _ henum
    exact ⟨_, t', run_bind_ok.mpr ⟨(), t', hrun, rfl⟩, hst', rfl⟩
  | _ => cases hline

theorem typedef_repeats (hS : LoadsAbreast k sources) (target : TypeExpr) :
    Repeatable k rule sources (.typedef m target name) := by
  intro s s' t checked _ _ hst h _ _ line hline
  obtain ⟨_, s1, htypedef, hdone⟩ := run_bind_ok.mp h
  cases hdone
  cases line with
  | typedef m' target' name' =>
    obtain ⟨_, htarget, rfl⟩ := Stmt.typedef.inj hline
    obtain ⟨_, t', hrun, hst', _⟩ := Follows.typedef hS htarget name' m.span.start m'.span.start s t hst _ _ htypedef
    exact ⟨_, t', run_bind_ok.mpr ⟨(), t', hrun, rfl⟩, hst', hline⟩
  | _ => cases hline

/-! ### Assignments -/

/-- An assignment is either one, or the declaration of a name that nothing declares. -/
theorem assignment_cases (h : (assignment sources m target value).run s = .ok checked s') :
    (∃ target1 value1, checked = .assign m target1 value1 ∧ target1.blur .types = target.blur .types ∧
      value1.blur .types = value.blur .types) ∨
    ∃ mark name s1, target = .name mark name ∧ (lookup sources name).run s = .ok none s1 ∧
      (implicitDeclaration sources m name value target.start).run s1 = .ok checked s' := by
  unfold assignment at h
  split at h
  · rename_i mark name
    obtain ⟨found, s1, hlookup, h1⟩ := run_bind_ok.mp h
    cases found with
    | none => exact .inr ⟨mark, name, s1, rfl, hlookup, h1⟩
    | some type =>
      obtain ⟨_, s2, _, h2⟩ := run_bind_ok.mp h1
      obtain ⟨r, s3, htyped, h3⟩ := run_bind_ok.mp h2
      obtain ⟨_, s4, _, h4⟩ := run_bind_ok.mp h3
      cases h4
      exact .inl ⟨_, _, rfl, rfl, typed_yields sources value s2 r s3 trivial htyped⟩
  · obtain ⟨r, s1, htarget, h1⟩ := run_bind_ok.mp h
    obtain ⟨_, s2, _, h2⟩ := run_bind_ok.mp h1
    obtain ⟨r', s3, hvalue, h3⟩ := run_bind_ok.mp h2
    obtain ⟨_, s4, _, h4⟩ := run_bind_ok.mp h3
    cases h4
    exact .inl ⟨_, _, rfl, typed_yields sources target s r s1 trivial htarget,
      typed_yields sources value s2 r' s3 trivial hvalue⟩

/-- The assignment to what is no name. -/
def assignPlace (sources : Sources) (m : Mark) (target value : Expr) : Check Stmt := do
  let (target, type) ← typed sources target
  require (!isFixed type) (.notAssignable (.value type)) target.start
  let (checked, valueType) ← typed sources value
  require (ValueType.canAssign value.origin type valueType) (.mismatch .assignment type valueType) checked.start
  return .assign m target checked

theorem Follows.assignPlace (hS : LoadsAbreast k sources) {m' : Mark} {target' value' : Expr}
    (htarget : target'.blur .bare = target.blur .bare) (hvalue : value'.blur .bare = value.blur .bare)
    (hshared : ∀ n ∈ target.names, k.Shares n) (hnames : ∀ n ∈ value.names, k.Shares n) :
    Follows k (Check.assignPlace sources m target value) (Check.assignPlace sources m' target' value')
      fun r r' => r'.blur .bare = r.blur .bare := by
  refine bindPair (typed hS target target' htarget hshared) fun place place' type hplace => ?_
  refine (require id).bind fun _ _ _ => ?_
  refine bindPair (typed hS value value' hvalue hnames) fun v v' found hv => ?_
  refine (require ?_).bind fun _ _ _ => .pure ?_
  · rw [Expr.origin_of_blur hvalue]
    exact id
  · simp only [Stmt.blur, hplace, hv]
    rfl

theorem Follows.assignment (hS : LoadsAbreast k sources) {m m' : Mark} {target target' value value' : Expr}
    (htarget : target'.blur .bare = target.blur .bare) (hvalue : value'.blur .bare = value.blur .bare)
    (hshared : ∀ n ∈ target.names, k.Shares n) (hnames : ∀ n ∈ value.names, k.Shares n) :
    Follows k (Check.assignment sources m target value) (Check.assignment sources m' target' value')
      fun r r' => r'.blur .bare = r.blur .bare := by
  cases target with
  | name mark name =>
    cases target' with
    | name mark' name' =>
      obtain ⟨_, rfl⟩ := Expr.name.inj htarget
      have hname : k.Shares name' := hshared name' List.mem_cons_self
      refine (lookup hS hname).bind fun found found' hfound => ?_
      subst hfound
      cases found with
      | none =>
        refine bindPair (typed hS value value' hvalue hnames) fun v v' type hv => ?_
        refine (require id).bind fun _ _ _ => (declare hname type _ _).bind fun _ _ _ => .pure ?_
        simp only [Stmt.blur, VarDecl.blur, Option.map_some, hv]
        rfl
      | some type =>
        refine (require id).bind fun _ _ _ => ?_
        refine bindPair (typed hS value value' hvalue hnames) fun v v' found hv => ?_
        refine (require id).bind fun _ _ _ => .pure ?_
        simp only [Stmt.blur, hv]
        rfl
    | _ => cases htarget
  | _ =>
    cases target' with
    | name _ _ => simp [Expr.blur] at htarget
    | _ => exact assignPlace hS htarget hvalue hshared hnames

/-- A declaration by assignment, with the type written out that the value was found to have. -/
theorem implicit_repeats (hS : LoadsAbreast k sources) (hst : s.Abreast k t) {l : Location}
    (h : (implicitDeclaration sources m name value l).run s = .ok checked s')
    (hmeets : checked.Meets (k.demand rule))
    (hline : line.blur .bare = checked.spell.blur .bare) : Repeats k sources checked s' line t := by
  obtain ⟨⟨v, type⟩, s1, htyped, h1⟩ := run_bind_ok.mp h
  obtain ⟨_, s2, hrequire, h2⟩ := run_bind_ok.mp h1
  obtain ⟨hkind, rfl⟩ := require_ok hrequire
  obtain ⟨_, s3, hdeclare, h3⟩ := run_bind_ok.mp h2
  cases h3
  have hv : v.blur .types = value.blur .types := typed_yields sources value s _ _ trivial htyped
  obtain ⟨hname, hleftOut, hinit⟩ := hmeets
  have hstandard : type.isStandard := hleftOut rfl type rfl
  cases line with
  | declare m' d' =>
    obtain ⟨name', declared', init', type'⟩ := d'
    obtain ⟨hname', hdeclared', hinit', _⟩ := VarDecl.mk.inj (Stmt.declare.inj hline).2
    obtain rfl : name' = name := hname'
    obtain ⟨written, rfl, hwritten⟩ := Option.map_eq_some_iff.mp hdeclared'
    obtain ⟨e', rfl, he'⟩ := Option.map_eq_some_iff.mp hinit'
    have hfounded : t.scope.types.Founded := hst.scope.types ▸ hst.scope.founded
    have hresolve : (resolve sources written).run t = .ok type t :=
      resolveWith_spell hfounded type hstandard false written hwritten
    have hvoid : type.isVoid = false := by
      simp only [Bool.not_eq_true', Bool.or_eq_false_iff] at hkind
      exact hkind.1.2
    have hnames : ∀ n ∈ value.names, k.Shares n := Expr.names_of_types hv ▸ hinit v rfl
    obtain ⟨⟨v', found⟩, t1, hrun, hst1, hv', hfound⟩ :=
      Follows.typed hS value e' (he'.trans (Expr.bare_of_types hv)) hnames s t hst _ _ htyped
    obtain rfl : type = found := hfound.symm
    obtain ⟨_, t2, hdeclared, hst2, _⟩ := Follows.declare hname type l m'.span.start _ t1 hst1 _ _ hdeclare
    refine ⟨.declare m' ⟨name', some written, some v', some type⟩, t2, ?_, hst2, ?_⟩
    · refine run_bind_ok.mpr ⟨_, t2, run_bind_ok.mpr ⟨type, t, hresolve, ?_⟩, rfl⟩
      refine run_bind_ok.mpr ⟨(), t, ?_, run_bind_ok.mpr ⟨(v', type), t1, hrun, ?_⟩⟩
      · rw [hvoid]
        rfl
      · refine run_bind_ok.mpr ⟨(), t1, ?_, run_bind_ok.mpr ⟨some v', t1, rfl, ?_⟩⟩
        · have hfits : ValueType.canAssign e'.origin type type :=
            ValueType.canAssign_of_matches _ (matchesOnAssign_refl type)
          rw [require, if_pos hfits]
          rfl
        · exact run_bind_ok.mpr ⟨(), t2, hdeclared, rfl⟩
    · simp only [Stmt.spell, VarDecl.spell, Stmt.blur, VarDecl.blur, Option.some_or, Option.map_some, hwritten, hv']
      rfl
  | _ => cases hline

theorem assign_repeats {config : Config} {depth : Nat} (hS : LoadsAbreast k (sourcesTo config depth)) :
    Repeatable k rule (sourcesTo config depth) (.assign m target value) := by
  intro s s' t checked hs _ hst h _ hmeets line hline
  obtain ⟨target1, value1, rfl, ht, hv⟩ | ⟨mark, name, s1, rfl, hlookup, himplicit⟩ := assignment_cases h
  · cases line with
    | assign m' target' value' =>
      obtain ⟨_, htarget', hvalue'⟩ := Stmt.assign.inj hline
      have hassign : Follows k (assignment _ m target value) (assignment _ m' target' value') _ :=
        Follows.assignment hS (htarget'.trans (Expr.bare_of_types ht)) (hvalue'.trans (Expr.bare_of_types hv))
          (Expr.names_of_types ht ▸ hmeets.1) (Expr.names_of_types hv ▸ hmeets.2)
      obtain ⟨again, t', hrun, hst', hagain⟩ := hassign s t hst _ _ h
      refine ⟨again, t', hrun, hst', ?_⟩
      cases again with
      | assign => exact hagain
      | _ => cases hagain
    | _ => cases hline
  · obtain rfl := lookup_none hs hlookup
    exact implicit_repeats hS hst himplicit hmeets hline

/-! ### Returns -/

/-- What a result leaves behind is beside the same state as before. -/
theorem matchResult_beside {function : FunctionContext} (hs : s.function = some function)
    {value found : Option Expr} {type : ValueType} {l : Location}
    (h : (matchResult function value type origin l).run s = .ok found s') :
    found = value ∧ ∀ t, s.Abreast k t → s'.Abreast k t := by
  unfold matchResult at h
  cases hreturns : function.returns with
  | some expected =>
    rw [hreturns] at h
    obtain ⟨_, s1, hrequire, hdone⟩ := run_bind_ok.mp h
    obtain ⟨_, rfl⟩ := require_ok hrequire
    cases hdone
    exact ⟨rfl, fun _ hst => hst⟩
  | none =>
    rw [hreturns] at h
    obtain ⟨_, s1, hinfer, hdone⟩ := run_bind_ok.mp h
    cases hdone
    obtain ⟨_, s2, hrequire, hrest⟩ := run_bind_ok.mp hinfer
    obtain ⟨_, rfl⟩ := require_ok hrequire
    cases hinferred : function.inferred with
    | some first =>
      rw [hinferred] at hrest
      obtain ⟨_, rfl⟩ := require_ok hrest
      exact ⟨rfl, fun _ hst => hst⟩
    | none =>
      rw [hinferred] at hrest
      cases hrest
      exact ⟨rfl, fun _ hst => hst.infer hs _⟩

/-- A result of a declared type that fits. -/
theorem matchResult_fits {function : FunctionContext} {expected : ValueType}
    (hreturns : function.returns = some expected)
    (hfits : resultFits origin expected found) (value : Option Expr) (l : Location) :
    (matchResult function value found origin l).run t = .ok value t := by
  unfold matchResult
  rw [hreturns]
  refine run_bind_ok.mpr ⟨(), t, ?_, rfl⟩
  rw [hfits]
  rfl

theorem result_repeats (hS : LoadsAbreast k sources) (hplace : Secludes sources)
    (hreturns : ∀ type ∈ k.returns, type = rule.type) (value : Option Expr) :
    Repeatable k rule sources (.result m value) := by
  intro s s' t checked _ _ hst h htyped hmeets line hline
  obtain ⟨found, s1, hresult, hdone⟩ := run_bind_ok.mp h
  cases hdone
  unfold result at hresult
  obtain ⟨_, _, hget, hrest⟩ := run_bind_ok.mp hresult
  cases hget
  cases hfunction : s.function with
  | none =>
    rw [hfunction] at hrest
    cases hrest
  | some function =>
    rw [hfunction] at hrest
    -- The second check is in a function too, and knows the type of its results.
    obtain ⟨function', hfunction', hexpected⟩ : ∃ f, t.function = some f ∧ f.returns = some rule.type := by
      obtain ⟨f, hf⟩ : ∃ f, t.function = some f := by
        rw [← Option.isSome_iff_exists, ← hst.inside, hfunction]
        rfl
      have hknown := hst.returns
      rw [hf] at hknown
      obtain ⟨type, htype, heq⟩ := Option.map_eq_some_iff.mp hknown.symm
      exact ⟨f, hf, by rw [← heq, hreturns type htype]⟩
    cases line with
    | result m' value' =>
      have hvalue' : value'.map (·.blur .bare) = found.map (·.blur .bare) := (Stmt.result.inj hline).2
      cases value with
      | none =>
        obtain ⟨rfl, hbeside⟩ := matchResult_beside hfunction hrest
        obtain rfl : value' = none := by simpa using hvalue'
        have hfits := ResultRule.fits_of_takes htyped fun _ _ => rfl
        refine ⟨.result m' none, t, run_bind_ok.mpr ⟨none, t, run_bind_ok.mpr ⟨t, t, rfl, ?_⟩, rfl⟩, hbeside t hst,
          rfl⟩
        rw [hfunction']
        exact matchResult_fits hexpected hfits none _
      | some e =>
        obtain ⟨⟨v, type⟩, s2, hv, hmatch⟩ := run_bind_ok.mp hrest
        have hmatch : (matchResult function (some v) type e.origin m.span.start).run s2 = .ok found s' := hmatch
        have hfunction2 : s2.function = some function := ((hplace.adds.typed e .any).ok hv).1.trans hfunction
        obtain ⟨rfl, hbeside⟩ := matchResult_beside hfunction2 hmatch
        have hvalue : v.blur .types = e.blur .types := typed_yields sources e s _ _ trivial hv
        obtain ⟨hnames, harray⟩ := hmeets v rfl
        obtain ⟨hhas, horigin⟩ := typed_value sources e s _ s2 trivial hv
        have hfits : resultFits e.origin rule.type type := by
          obtain ⟨type', hhas', htakes⟩ := htyped
          obtain rfl : type' = type := Option.some.inj (hhas'.type?.symm.trans hhas.type?)
          rw [← horigin]
          exact ResultRule.fits_of_takes htakes fun first hfirst => harray first hfirst type' hhas.type?
        obtain ⟨e', rfl, he'⟩ := Option.map_eq_some_iff.mp hvalue'
        have he : e'.blur .bare = e.blur .bare := he'.trans (Expr.bare_of_types hvalue)
        obtain ⟨⟨v', found⟩, t2, hv', hst2, hsame, hfound⟩ :=
          Follows.typed hS e e' he (Expr.names_of_types hvalue ▸ hnames) s t hst _ _ hv
        obtain rfl : type = found := hfound.symm
        refine ⟨.result m' (some v'), t2, run_bind_ok.mpr ⟨some v', t2, run_bind_ok.mpr ⟨t, t, rfl, ?_⟩, rfl⟩,
          hbeside t2 hst2, congrArg (fun v => Stmt.result _ (some v)) hsame⟩
        rw [hfunction']
        refine run_bind_ok.mpr ⟨(v', type), t2, hv', ?_⟩
        rw [Expr.origin_of_blur he]
        exact matchResult_fits hexpected hfits (some v') _
    | _ => cases hline

/-! ### Statements that hold others -/

end Check

namespace Check

variable {k : Pairing} {rule : ResultRule} {config : Config} {depth : Nat} {s s' t : CheckState} {body : List Stmt}

/-- The statements of a block. -/
abbrev AllRepeatable (k : Pairing) (rule : ResultRule) (sources : Sources) (within : Check (List Stmt) → Check (List Stmt))
    (place : CheckState → Prop) : List Stmt → Prop :=
  GoesAgain k (fun ss => within (statements sources ss)) (Stmt.AllTyped rule) (Stmt.AllMeet (k.demand rule))
    (Stmt.blurList .bare) Stmt.spellList place

abbrev LinesRepeatable (k : Pairing) (rule : ResultRule) (sources : Sources) : List Stmt → Prop :=
  AllRepeatable k rule sources id (·.atTopLevel = false)

theorem LinesRepeatable.inBlock (h : LinesRepeatable k rule (sourcesTo config depth) body) :
    AllRepeatable k rule (sourcesTo config depth) inBlock (fun _ => True) body := by
  intro s s' t checked hs _ hst hrun htyped hmeets lines hlines
  obtain ⟨s1, hpart, rfl⟩ := during_ok hrun
  have hentered : CheckState.Ready { s with blockDepth := s.blockDepth + 1 } := hs.congr rfl rfl
  obtain ⟨again, t1, hagain, hst1, hsame⟩ :=
    h hentered (Bool.and_false _) (hst.depths (· + 1) id) hpart htyped hmeets hlines
  exact ⟨again, _, during_run hagain, hst1.depths (· - 1) id, hsame⟩

theorem LinesRepeatable.inBreakable (h : LinesRepeatable k rule (sourcesTo config depth) body) :
    AllRepeatable k rule (sourcesTo config depth) inBreakable (fun _ => True) body := by
  intro s s' t checked hs _ hst hrun htyped hmeets lines hlines
  obtain ⟨s1, hpart, rfl⟩ := during_ok hrun
  have hentered : CheckState.Ready { s with breakableDepth := s.breakableDepth + 1 } := hs.congr rfl rfl
  obtain ⟨again, t1, hagain, hst1, hsame⟩ :=
    h.inBlock hentered trivial (hst.depths id (· + 1)) hpart htyped hmeets hlines
  exact ⟨again, _, during_run hagain, hst1.depths id (· - 1), hsame⟩

theorem block_repeatable {first : Stmt} {rest : List Stmt}
    (hfirst : Repeatable k rule (sourcesTo config depth) first)
    (hrest : LinesRepeatable k rule (sourcesTo config depth) rest) :
    LinesRepeatable k rule (sourcesTo config depth) (first :: rest) := by
  intro s s' t checked hs hnested hst h htyped hmeets lines hlines
  obtain ⟨first1, s1, hfirst1, h1⟩ := run_bind_ok.mp h
  obtain ⟨rest1, s2, hrest1, h2⟩ := run_bind_ok.mp h1
  cases h2
  have hs1 : s1.Ready := ready_after (fun hT => hT.statement first .any) hs hfirst1
  have hnested1 : s1.atTopLevel = false := by
    rw [atTopLevel_after (fun hT => hT.statement first .any) hfirst1, hnested]
  cases lines with
  | nil => cases hlines
  | cons line lines =>
    obtain ⟨hline, hlines⟩ := List.cons.inj hlines
    obtain ⟨first2, t1, hrun1, hst1, hfirst2⟩ :=
      hfirst hs (fun _ => hnested) hst hfirst1 htyped.1 hmeets.1 hline
    obtain ⟨rest2, t2, hrun2, hst2, hrest2⟩ :=
      hrest hs1 hnested1 hst1 hrest1 htyped.2 hmeets.2 hlines
    refine ⟨first2 :: rest2, t2, run_bind_ok.mpr ⟨first2, t1, hrun1, run_bind_ok.mpr
      ⟨rest2, t2, hrun2, rfl⟩⟩, hst2, ?_⟩
    simp only [Stmt.spellList, Stmt.blurList, hfirst2, hrest2]

theorem condition_repeats {sources : Sources} (hS : LoadsAbreast k sources) (hst : s.Abreast k t)
    {c c1 c' : Expr} {context : String} (h : (condition sources c context).run s = .ok c1 s')
    (hnames : ∀ n ∈ c1.names, k.Shares n) (hc' : c'.blur .bare = c1.blur .bare) :
    ∃ again t', (condition sources c' context).run t = .ok again t' ∧ s'.Abreast k t' ∧
      again.blur .bare = c1.blur .bare := by
  have hc1 := condition_yields sources c context s c1 s' trivial h
  exact Follows.condition hS (hc'.trans (Expr.bare_of_types hc1)) (Expr.names_of_types hc1 ▸ hnames) context
    context s t hst _ _ h

section

variable (hS : LoadsAbreast k (sourcesTo config depth))
include hS

/-- Two blocks behind a condition. -/
theorem branches_repeatable {within : Check (List Stmt) → Check (List Stmt)}
    {build : Mark → Expr → List Stmt → List Stmt → Stmt}
    (hbuild : within = inBlock ∧ build = .ifElse ∨ within = inBreakable ∧ build = .whileLoop) (m : Mark) (c : Expr)
    {orelse : List Stmt} (hbody : AllRepeatable k rule (sourcesTo config depth) within (fun _ => True) body)
    (horelse : LinesRepeatable k rule (sourcesTo config depth) orelse) :
    Repeatable k rule (sourcesTo config depth) (build m c body orelse) := by
  intro s s' t checked hs _ hst h htyped hmeets line hline
  obtain ⟨rfl, rfl⟩ | ⟨rfl, rfl⟩ := hbuild
  all_goals
    obtain ⟨c1, s1, hc, h1⟩ := run_bind_ok.mp h
    obtain ⟨body1, s2, hbody1, h2⟩ := run_bind_ok.mp h1
    obtain ⟨orelse1, s3, horelse1, h3⟩ := run_bind_ok.mp h2
    cases h3
    have hs1 : s1.Ready := ready_after (fun hT => hT.condition c _ .any) hs hc
    have hs2 : s2.Ready := by
      first
      | exact ready_after (fun hT => hT.inBlock (hT.statements body .any)) hs1 hbody1
      | exact ready_after (fun hT => hT.inBreakable (hT.statements body .any)) hs1 hbody1
    cases line <;> try cases hline
    rename_i m' c' body' orelse'
    injection hline with _ hc' hbody' horelse'
    obtain ⟨c2, t1, hrun1, hst1, hc2⟩ := condition_repeats hS hst hc hmeets.1 hc'
    obtain ⟨body2, t2, hrun2, hst2, hbody2⟩ := hbody hs1 trivial hst1 hbody1 htyped.2.1 hmeets.2.1 hbody'
    obtain ⟨orelse2, t3, hrun3, hst3, horelse2⟩ :=
      horelse.inBlock hs2 trivial hst2 horelse1 htyped.2.2 hmeets.2.2 horelse'
    refine ⟨_, t3, run_bind_ok.mpr ⟨c2, t1, hrun1, run_bind_ok.mpr
      ⟨body2, t2, hrun2, run_bind_ok.mpr ⟨orelse2, t3, hrun3, rfl⟩⟩⟩, hst3, ?_⟩
    simp only [Stmt.spell, Stmt.blur, hc2, hbody2, horelse2]
    rfl

theorem doLoop_repeatable (m : Mark) (c : Expr) (hbody : LinesRepeatable k rule (sourcesTo config depth) body) :
    Repeatable k rule (sourcesTo config depth) (.doLoop m body c) := by
  intro s s' t checked hs _ hst h htyped hmeets line hline
  obtain ⟨body1, s1, hbody1, h1⟩ := run_bind_ok.mp h
  obtain ⟨c1, s2, hc, h2⟩ := run_bind_ok.mp h1
  cases h2
  cases line with
  | doLoop m' body' c' =>
    obtain ⟨_, hbody', hc'⟩ := Stmt.doLoop.inj hline
    obtain ⟨body2, t1, hrun1, hst1, hbody2⟩ := hbody.inBreakable hs trivial hst hbody1 htyped.1 hmeets.1 hbody'
    obtain ⟨c2, t2, hrun2, hst2, hc2⟩ := condition_repeats hS hst1 hc hmeets.2 hc'
    refine ⟨.doLoop m' body2 c2, t2, run_bind_ok.mpr ⟨body2, t1, hrun1, run_bind_ok.mpr
      ⟨c2, t2, hrun2, rfl⟩⟩, hst2, ?_⟩
    simp only [Stmt.spell, Stmt.blur, hc2, hbody2]
    rfl
  | _ => cases hline

end

/-- The cases of a `switch`, for a subject of a type. -/
abbrev CasesRepeatable (k : Pairing) (rule : ResultRule) (sources : Sources) (subject : ValueType) :
    List SwitchCase → Prop :=
  GoesAgain k (switchCases sources subject) (SwitchCase.AllTyped rule subject) (SwitchCase.AllMeet (k.demand rule))
    (SwitchCase.blurList .bare) SwitchCase.spellList fun _ => True

abbrev CaseRepeatable (k : Pairing) (rule : ResultRule) (sources : Sources) (subject : ValueType) :
    SwitchCase → Prop :=
  GoesAgain k (switchCase sources subject) (SwitchCase.WellTyped rule subject) (SwitchCase.Meets (k.demand rule))
    (SwitchCase.blur .bare) SwitchCase.spell fun _ => True

abbrev DefaultRepeatable (k : Pairing) (rule : ResultRule) (sources : Sources) : Option (List Stmt) → Prop :=
  GoesAgain k (defaultCase sources) (Stmt.BlockTyped rule) (Stmt.BlockMeets (k.demand rule)) (Stmt.blurBlock .bare)
    Stmt.spellBlock fun _ => True

theorem case_repeatable (hS : LoadsAbreast k (sourcesTo config depth)) (subject : ValueType) (span : Span)
    (values : List Expr) (hbody : LinesRepeatable k rule (sourcesTo config depth) body) :
    CaseRepeatable k rule (sourcesTo config depth) subject (.mk span values body) := by
  intro s s' t checked hs _ hst h htyped hmeets c hc
  obtain ⟨values1, s1, hvalues, h1⟩ := run_bind_ok.mp h
  obtain ⟨body1, s2, hbody1, h2⟩ := run_bind_ok.mp h1
  cases h2
  have hs1 : s1.Ready := ready_after (fun hT => hT.caseLabels subject none values .any) hs hvalues
  have hvalues1 := caseLabels_yields _ subject none values s values1 s1 trivial hvalues
  obtain ⟨span', values', body'⟩ := c
  obtain ⟨_, hvalues', hbody'⟩ := SwitchCase.mk.inj hc
  have hsame : Expr.blurList .bare values' = Expr.blurList .bare values := by
    rw [hvalues', ← Expr.blurList_bare .types values1, hvalues1, Expr.blurList_bare]
  have hnames : ∀ n ∈ Expr.namesList values, k.Shares n := by
    rw [← Expr.namesList_blur .types values, ← hvalues1, Expr.namesList_blur]
    exact Expr.forall_namesList hmeets.1
  obtain ⟨values2, t1, hrun1, hst1, hvalues2⟩ := Follows.caseLabels hS subject none hsame hnames s t hst _ _ hvalues
  obtain ⟨body2, t2, hrun2, hst2, hbody2⟩ := hbody.inBreakable hs1 trivial hst1 hbody1 htyped.2 hmeets.2 hbody'
  refine ⟨.mk span' values2 body2, t2, run_bind_ok.mpr ⟨values2, t1, hrun1, run_bind_ok.mpr
    ⟨body2, t2, hrun2, rfl⟩⟩, hst2, ?_⟩
  simp only [SwitchCase.spell, SwitchCase.blur, hvalues2, hbody2]
  rfl

theorem default_repeatable (hbody : LinesRepeatable k rule (sourcesTo config depth) body) :
    DefaultRepeatable k rule (sourcesTo config depth) (some body) := by
  intro s s' t checked hs _ hst h htyped hmeets d hd
  obtain ⟨body1, s1, hbody1, h1⟩ := run_bind_ok.mp h
  cases h1
  cases d with
  | none => cases hd
  | some body' =>
    obtain ⟨body2, t1, hrun, hst1, hbody2⟩ := hbody.inBreakable hs trivial hst hbody1 htyped hmeets (Option.some.inj hd)
    exact ⟨some body2, t1, run_bind_ok.mpr ⟨body2, t1, hrun, rfl⟩, hst1, congrArg some hbody2⟩

theorem cases_repeatable {subject : ValueType} {c : SwitchCase} {rest : List SwitchCase}
    (hfirst : CaseRepeatable k rule (sourcesTo config depth) subject c)
    (hrest : CasesRepeatable k rule (sourcesTo config depth) subject rest) :
    CasesRepeatable k rule (sourcesTo config depth) subject (c :: rest) := by
  intro s s' t checked hs _ hst h htyped hmeets cs hcs
  obtain ⟨first1, s1, hfirst1, h1⟩ := run_bind_ok.mp h
  obtain ⟨rest1, s2, hrest1, h2⟩ := run_bind_ok.mp h1
  cases h2
  have hs1 : s1.Ready := ready_after (fun hT => hT.switchCase subject c .any) hs hfirst1
  cases cs with
  | nil => cases hcs
  | cons c' cs' =>
    obtain ⟨hc', hcs'⟩ := List.cons.inj hcs
    obtain ⟨first2, t1, hrun1, hst1, hfirst2⟩ := hfirst hs trivial hst hfirst1 htyped.1 hmeets.1 hc'
    obtain ⟨rest2, t2, hrun2, hst2, hrest2⟩ := hrest hs1 trivial hst1 hrest1 htyped.2 hmeets.2 hcs'
    refine ⟨first2 :: rest2, t2, run_bind_ok.mpr ⟨first2, t1, hrun1, run_bind_ok.mpr
      ⟨rest2, t2, hrun2, rfl⟩⟩, hst2, ?_⟩
    simp only [SwitchCase.spellList, SwitchCase.blurList, hfirst2, hrest2]

theorem switch_repeatable (hS : LoadsAbreast k (sourcesTo config depth)) (m : Mark) (subject : Expr)
    {cs : List SwitchCase} {d : Option (List Stmt)}
    (hcases : ∀ type, CasesRepeatable k rule (sourcesTo config depth) type cs)
    (hdefault : DefaultRepeatable k rule (sourcesTo config depth) d) :
    Repeatable k rule (sourcesTo config depth) (.switch m subject cs d) := by
  intro s s' t checked hs _ hst h htyped hmeets line hline
  obtain ⟨⟨v, type⟩, s1, hsubject, h1⟩ := run_bind_ok.mp h
  obtain ⟨_, s2, hrequire, h2⟩ := run_bind_ok.mp h1
  obtain ⟨hinteger, rfl⟩ := require_ok hrequire
  obtain ⟨cs1, s3, hcs1, h3⟩ := run_bind_ok.mp h2
  obtain ⟨d1, s4, hd1, h4⟩ := run_bind_ok.mp h3
  cases h4
  have hs1 : s2.Ready := ready_after (fun hT => hT.typed subject .any) hs hsubject
  have hs2 : s3.Ready := ready_after (fun hT => hT.switchCases type cs .any) hs1 hcs1
  obtain ⟨hhas, _⟩ := typed_value _ subject s _ _ trivial hsubject
  obtain ⟨type', hhas', _, htypedCases, htypedDefault⟩ := htyped
  obtain rfl : type = type' := Option.some.inj (hhas.type?.symm.trans hhas'.type?)
  have hv : v.blur .types = subject.blur .types := typed_yields _ subject s _ _ trivial hsubject
  cases line with
  | switch m' subject' cs' d' =>
    obtain ⟨_, hsubject', hcs', hd'⟩ := Stmt.switch.inj hline
    obtain ⟨⟨v', found⟩, t1, hrun1, hst1, hv', hfound⟩ :=
      Follows.typed hS subject subject' (hsubject'.trans (Expr.bare_of_types hv))
        (Expr.names_of_types hv ▸ hmeets.1) s t hst _ _ hsubject
    obtain rfl : type = found := hfound.symm
    obtain ⟨cs2, t2, hrun2, hst2, hcs2⟩ := hcases type hs1 trivial hst1 hcs1 htypedCases hmeets.2.1 hcs'
    obtain ⟨d2, t3, hrun3, hst3, hd2⟩ := hdefault hs2 trivial hst2 hd1 htypedDefault hmeets.2.2 hd'
    refine ⟨.switch m' v' cs2 d2, t3, run_bind_ok.mpr ⟨(v', type), t1, hrun1, run_bind_ok.mpr
      ⟨(), t1, ?_, run_bind_ok.mpr ⟨cs2, t2, hrun2, run_bind_ok.mpr ⟨d2, t3, hrun3, rfl⟩⟩⟩⟩, hst3, ?_⟩
    · rw [require, if_pos hinteger]
      rfl
    · simp only [Stmt.spell, Stmt.blur, hcs2, hd2]
      rw [show v'.blur .bare = v.blur .bare from hv']
      rfl
  | _ => cases hline

/-! ### All statements -/

/-- At the top level only, so that there is nothing to repeat elsewhere. -/
theorem outer_repeatable {sources : Sources} {line : Stmt} (houter : line.isOuter) :
    Repeatable k rule sources line := by
  intro s s' t checked _ hnested _ h
  have htop : s.atTopLevel = false := hnested houter
  cases line with
  | function m head body =>
    obtain ⟨_, _, hopen, _⟩ := run_bind_ok.mp h
    obtain ⟨_, _, hget, hrest⟩ := run_bind_ok.mp hopen
    cases hget
    obtain ⟨_, _, hrequire, _⟩ := run_bind_ok.mp hrest
    rw [htop] at hrequire
    cases hrequire
  | includeFile m path =>
    obtain ⟨_, _, hget, hrest⟩ := run_bind_ok.mp h
    cases hget
    obtain ⟨_, _, hrequire, _⟩ := run_bind_ok.mp hrest
    rw [htop] at hrequire
    cases hrequire
  | _ => cases houter

mutual

/-- **A checked statement goes through once more**, with the types written out that were found, and comes
out as it is. -/
theorem statement_repeats (hS : LoadsAbreast k (sourcesTo config depth))
    (hreturns : ∀ type ∈ k.returns, type = rule.type) :
    (line : Stmt) → Repeatable k rule (sourcesTo config depth) line
  | .expr _ _ => expr_repeats hS
  | .declare _ d => declare_repeats hS d
  | .assign _ _ _ => assign_repeats hS
  | .announce _ head => announce_repeats hS head
  | .function _ _ _ => outer_repeatable rfl
  | .result _ value => result_repeats hS ((situated_tolerates config).respects depth).secludes hreturns value
  | .ifElse m c body orelse =>
    branches_repeatable hS (.inl ⟨rfl, rfl⟩) m c (statements_repeat hS hreturns body).inBlock
      (statements_repeat hS hreturns orelse)
  | .whileLoop m c body orelse =>
    branches_repeatable hS (.inr ⟨rfl, rfl⟩) m c (statements_repeat hS hreturns body).inBreakable
      (statements_repeat hS hreturns orelse)
  | .doLoop m body c => doLoop_repeatable hS m c (statements_repeat hS hreturns body)
  | .switch m subject cs d =>
    switch_repeatable hS m subject (fun type => switchCases_repeat hS hreturns type cs)
      (defaultCase_repeats hS hreturns d)
  | .leave _ => leave_repeats
  | .struct _ _ fields => struct_repeats hS fields
  | .enum _ _ members => enum_repeats members
  | .typedef _ target _ => typedef_repeats hS target
  | .define _ _ value => define_repeats hS value
  | .includeFile _ _ => outer_repeatable rfl
  | .pass _ | .ifndef _ _ | .endif _ => by
    intro s s' t checked _ _ hst h _ _ line hline
    cases h
    cases line with
    | pass _ | ifndef _ _ | endif _ => exact ⟨_, t, rfl, hst, hline⟩
    | _ => cases hline

theorem statements_repeat (hS : LoadsAbreast k (sourcesTo config depth))
    (hreturns : ∀ type ∈ k.returns, type = rule.type) :
    (ss : List Stmt) → LinesRepeatable k rule (sourcesTo config depth) ss
  | [] => by
    intro s s' t checked _ _ hst h _ _ lines hlines
    cases h
    cases lines with
    | nil => exact ⟨[], t, rfl, hst, rfl⟩
    | cons => cases hlines
  | first :: rest =>
    block_repeatable (statement_repeats hS hreturns first) (statements_repeat hS hreturns rest)

theorem switchCases_repeat (hS : LoadsAbreast k (sourcesTo config depth))
    (hreturns : ∀ type ∈ k.returns, type = rule.type) (subject : ValueType) :
    (cs : List SwitchCase) → CasesRepeatable k rule (sourcesTo config depth) subject cs
  | [] => by
    intro s s' t checked _ _ hst h _ _ cs hcs
    cases h
    cases cs with
    | nil => exact ⟨[], t, rfl, hst, rfl⟩
    | cons => cases hcs
  | c :: rest =>
    cases_repeatable (switchCase_repeats hS hreturns subject c) (switchCases_repeat hS hreturns subject rest)

theorem switchCase_repeats (hS : LoadsAbreast k (sourcesTo config depth))
    (hreturns : ∀ type ∈ k.returns, type = rule.type) (subject : ValueType) :
    (c : SwitchCase) → CaseRepeatable k rule (sourcesTo config depth) subject c
  | .mk span values body => case_repeatable hS subject span values (statements_repeat hS hreturns body)

theorem defaultCase_repeats (hS : LoadsAbreast k (sourcesTo config depth))
    (hreturns : ∀ type ∈ k.returns, type = rule.type) :
    (d : Option (List Stmt)) → DefaultRepeatable k rule (sourcesTo config depth) d
  | none => by
    intro s s' t checked _ _ hst h _ _ d hd
    cases h
    cases d with
    | none => exact ⟨none, t, rfl, hst, rfl⟩
    | some => cases hd
  | some body => default_repeatable (statements_repeat hS hreturns body)

end

end Check

end Offside
