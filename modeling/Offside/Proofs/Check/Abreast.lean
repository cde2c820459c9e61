import Offside.Proofs.Check.Decoration
import Offside.Proofs.Tree.Spelling
import Offside.Proofs.Types.Table

/-! Two checks side by side.

A program and the same program with its types written out are checked in the same steps. The second check
differs from the first in two ways: a function that leaves out the type of its results is known to it
inside the function's own body, and results are held against that type from the first one on. A `Pairing`
says how far the two are apart, `CheckState.Abreast` that two states are no further apart than that, and
`Follows` that wherever the first check goes through, so does the second. -/
namespace Offside

open List

/-- How two checks that go side by side may differ. -/
structure Pairing where
  /-- A function that only the second check knows, with its type. -/
  ahead : Option (String × ValueType) := none
  /-- What results have to fit in the second check, inside a function. -/
  returns : Option ValueType := none

/-- The two checks know the same of the name. -/
def Pairing.Shares (k : Pairing) (name : String) : Prop := ∀ f ∈ k.ahead, f.1 ≠ name

/-! ### Scopes -/

/-- The table knows the scalars of the language by their names. -/
def TypeTable.Founded (t : TypeTable) : Prop := ∀ s ∈ Scalar.builtin, t.entry? s.name = some (.base (.scalar s))

namespace Scope

/-- The two scopes say the same of every name that is shared. -/
structure Abreast (k : Pairing) (a b : Scope) : Prop where
  lookup : ∀ name, k.Shares name → b.lookup name = a.lookup name
  isLocal : ∀ name, k.Shares name → b.isLocal name = a.isLocal name
  types : b.types = a.types
  defined : b.definedFunctions = a.definedFunctions
  constants : b.constants = a.constants
  macros : b.macros = a.macros
  founded : a.types.Founded

/-- A change of a scope that leaves the function ahead as it is. -/
def Spares (k : Pairing) (s s' : Scope) : Prop :=
  ∀ f ∈ k.ahead, s'.lookup f.1 = s.lookup f.1 ∧ s'.isLocal f.1 = s.isLocal f.1

variable {k : Pairing} {a b : Scope} {name : String}

theorem lookup_setVariable_ne {other : String} (s : Scope) (type : ValueType) (h : name ≠ other) :
    (s.setVariable name type).lookup other = s.lookup other := by
  rw [lookup, setVariable, Dictionary.get?_insert, if_neg h]
  rfl

theorem isLocal_setVariable_ne {other : String} (s : Scope) (type : ValueType) (h : name ≠ other) :
    (s.setVariable name type).isLocal other = s.isLocal other := by
  rw [isLocal, setVariable, NameSet.contains_insert, beq_eq_false_iff_ne.mpr h, Bool.or_false]
  rfl

theorem Abreast.setVariable (h : a.Abreast k b) (name : String) (type : ValueType) :
    (a.setVariable name type).Abreast k (b.setVariable name type) where
  lookup other hother := by
    simp only [Scope.lookup, Scope.setVariable, Dictionary.get?_insert]
    rw [show b.bindings.get? other = a.bindings.get? other from h.lookup other hother]
  isLocal other hother := by
    simp only [Scope.isLocal, Scope.setVariable, NameSet.contains_insert]
    rw [show b.localNames.contains other = a.localNames.contains other from h.isLocal other hother]
  types := h.types
  defined := h.defined
  constants := h.constants
  macros := h.macros
  founded := h.founded

/-- A name that is shared meets the same fate in both scopes. -/
theorem Abreast.bind (h : a.Abreast k b) (hname : k.Shares name) (type : ValueType) :
    (b.bind name type).1 = (a.bind name type).1 ∧ (a.bind name type).2.Abreast k (b.bind name type).2 := by
  unfold Scope.bind
  rw [h.isLocal name hname, h.lookup name hname]
  split
  · split
    · split
      · exact ⟨rfl, h⟩
      · exact ⟨rfl, h⟩
    · exact ⟨rfl, h.setVariable name type⟩
  · exact ⟨rfl, h.setVariable name type⟩

theorem Spares.refl (k : Pairing) (s : Scope) : s.Spares k s := fun _ _ => ⟨rfl, rfl⟩

theorem Spares.bind (hname : k.Shares name) (s : Scope) (type : ValueType) : s.Spares k (s.bind name type).2 := by
  intro f hf
  have hne := (hname f hf).symm
  unfold Scope.bind
  split
  · split
    · split <;> exact ⟨rfl, rfl⟩
    · exact ⟨lookup_setVariable_ne s type hne, isLocal_setVariable_ne s type hne⟩
  · exact ⟨lookup_setVariable_ne s type hne, isLocal_setVariable_ne s type hne⟩

theorem Abreast.child (h : a.Abreast k b) : a.child.Abreast k b.child :=
  { h with isLocal := fun _ _ => rfl }

theorem Abreast.absorb {g g' : Scope} (h : a.Abreast k b) (hg : g.Abreast k g') :
    (a.absorb g).Abreast k (b.absorb g') where
  lookup name hname := by
    simp only [Scope.lookup, Scope.absorb, Dictionary.get?_absorb]
    rw [show b.bindings.get? name = a.bindings.get? name from h.lookup name hname,
      show g'.bindings.get? name = g.bindings.get? name from hg.lookup name hname]
  isLocal name hname := h.isLocal name hname
  types := by simp only [Scope.absorb, h.types, hg.types]
  defined := by simp only [Scope.absorb, h.defined, hg.defined]
  constants := by simp only [Scope.absorb, h.constants, hg.constants]
  macros := by simp only [Scope.absorb, h.macros, hg.macros]
  founded s hs := by
    simp only [Scope.absorb, TypeTable.absorb, TypeTable.entry?, Dictionary.get?_absorb]
    rw [show a.types.entries.get? s.name = _ from h.founded s hs]
    rfl

end Scope

/-! ### States -/

/-- The two states are no further apart than the pairing says. -/
structure CheckState.Abreast (k : Pairing) (s t : CheckState) : Prop where
  global : s.environment.global.Abreast k t.environment.global
  locals : List.Forall₂ (Scope.Abreast k) s.environment.locals t.environment.locals
  ahead : ∀ f ∈ k.ahead, s.environment.global.lookup f.1 = none ∧
    t.environment.global.lookup f.1 = some f.2 ∧ t.environment.global.isLocal f.1 = true
  inside : s.function.isSome = t.function.isSome
  returns : t.function.map FunctionContext.returns = k.returns.map some
  others : t = { s with environment := t.environment, function := t.function }

namespace CheckState.Abreast

variable {k : Pairing} {s t : CheckState}

theorem scope (h : s.Abreast k t) : s.scope.Abreast k t.scope := CheckState.scope_of_forall₂ h.locals h.global

theorem atTopLevel (h : s.Abreast k t) : t.atTopLevel = s.atTopLevel := by
  have hinside : t.function.isNone = s.function.isNone := by
    rw [← Option.not_isSome, ← Option.not_isSome, h.inside]
  have hblock : t.blockDepth = s.blockDepth := by rw [h.others]
  rw [CheckState.atTopLevel, CheckState.atTopLevel, hinside, hblock]

/-- Both current scopes change, each without touching the function ahead. -/
theorem setScope (h : s.Abreast k t) {a b : Scope} (hab : a.Abreast k b) (ha : s.scope.Spares k a)
    (hb : t.scope.Spares k b) : (s.setScope a).Abreast k (t.setScope b) := by
  obtain ⟨⟨slocals, sglobal⟩, _, _, _, _, _, _, _, sfunction, _, _⟩ := s
  obtain ⟨⟨tlocals, tglobal⟩, _, _, _, _, _, _, _, tfunction, _, _⟩ := t
  obtain ⟨hglobal, hlocals, hahead, hinside, hreturns, hothers⟩ := h
  cases hlocals with
  | nil =>
    refine ⟨hab, .nil, fun f hf => ?_, hinside, hreturns, ?_⟩
    · obtain ⟨hs, ht, hlocal⟩ := hahead f hf
      exact ⟨(ha f hf).1.trans hs, (hb f hf).1.trans ht, (hb f hf).2.trans hlocal⟩
    · simpa [CheckState.setScope, Environment.setCurrent] using hothers
  | cons hfirst hrest =>
    refine ⟨hglobal, .cons hab hrest, hahead, hinside, hreturns, ?_⟩
    simpa [CheckState.setScope, Environment.setCurrent] using hothers

end CheckState.Abreast

/-! ### Steps -/

namespace Check

variable {α β γ δ : Type}

/-- Where the first check goes through, the second goes through beside it. -/
def Follows (k : Pairing) (p : Check α) (q : Check β) (post : α → β → Prop) : Prop :=
  ∀ s t, s.Abreast k t → ∀ a s', p.run s = .ok a s' →
    ∃ b t', q.run t = .ok b t' ∧ s'.Abreast k t' ∧ post a b

variable {k : Pairing} {p : Check α} {q : Check β} {post : α → β → Prop}

/-- What becomes of a declaration, by how its name was bound. -/
def declared (name : String) (type : ValueType) (l : Location) (scope : Scope) : Binding → Check Unit
  | .new | .repeated => modify (·.setScope scope)
  | .conflict previous => fail (.redeclared name previous type) l

theorem declare_run (name : String) (type : ValueType) (l : Location) (s : CheckState) : (declare name type l).run s =
      (declared name type l (s.scope.bind name type).2 (s.scope.bind name type).1).run s :=
  rfl

namespace Follows

theorem pure {a : α} {b : β} (h : post a b) : Follows k (Pure.pure a : Check α) (Pure.pure b : Check β) post := by
  intro s t hst a s' hrun
  cases hrun
  exact ⟨b, t, rfl, hst, h⟩

theorem bind {f : α → Check γ} {g : β → Check δ} {after : γ → δ → Prop} (hp : Follows k p q post)
    (hf : ∀ a b, post a b → Follows k (f a) (g b) after) : Follows k (p >>= f) (q >>= g) after := by
  intro s t hst c s' hrun
  obtain ⟨a, s1, ha, hc⟩ := run_bind_ok.mp hrun
  obtain ⟨b, t1, hb, hst1, hpost⟩ := hp s t hst a s1 ha
  obtain ⟨d, t', hd, hst', hafter⟩ := hf a b hpost s1 t1 hst1 c s' hc
  exact ⟨d, t', run_bind_ok.mpr ⟨b, t1, hb, hd⟩, hst', hafter⟩

theorem weaken {stronger : α → β → Prop} (h : Follows k p q stronger)
    (hpost : ∀ a b, stronger a b → post a b) : Follows k p q post := by
  intro s t hst a s' hrun
  obtain ⟨b, t', hb, hst', hstrong⟩ := h s t hst a s' hrun
  exact ⟨b, t', hb, hst', hpost a b hstrong⟩

theorem fail {fault : SemanticFault} {l : Location} : Follows k (Check.fail fault l : Check α) q post := by
  intro s t _ a s' hrun
  cases hrun

theorem require {kept kept' : Bool} {fault fault' : SemanticFault} {l l' : Location} (h : kept → kept') :
    Follows k (Check.require kept fault l) (Check.require kept' fault' l') fun _ _ => True := by
  intro s t hst a s' hrun
  obtain ⟨hkept, rfl⟩ := require_ok hrun
  refine ⟨(), t, ?_, hst, trivial⟩
  rw [Check.require, if_pos (h hkept)]
  rfl

theorem get : Follows k (MonadState.get : Check CheckState) MonadState.get (CheckState.Abreast k) := by
  intro s t hst a s' hrun
  cases hrun
  exact ⟨t, t, rfl, hst, hst⟩

theorem scope : Follows k Check.scope Check.scope (Scope.Abreast k) := by
  intro s t hst a s' hrun
  cases hrun
  exact ⟨t.scope, t, rfl, hst, hst.scope⟩

theorem modifies {f g : CheckState → CheckState} (h : ∀ s t, s.Abreast k t → (f s).Abreast k (g t)) :
    Follows k (modify f : Check Unit) (modify g) fun _ _ => True := by
  intro s t hst a s' hrun
  cases hrun
  exact ⟨(), g t, rfl, h s t hst, trivial⟩

theorem modifyScope {f g : Scope → Scope} (h : ∀ a b : Scope, a.Abreast k b → (f a).Abreast k (g b))
    (hf : ∀ a : Scope, a.Spares k (f a)) (hg : ∀ b : Scope, b.Spares k (g b)) :
    Follows k (Check.modifyScope f) (Check.modifyScope g) fun _ _ => True :=
  modifies fun _ _ hst => hst.setScope (h _ _ hst.scope) (hf _) (hg _)

theorem declare {name : String} (hname : k.Shares name) (type : ValueType) (l l' : Location) :
    Follows k (Check.declare name type l) (Check.declare name type l') fun _ _ => True := by
  intro s t hst a s' hrun
  obtain ⟨hfate, hbound⟩ := hst.scope.bind hname type
  have hafter := hst.setScope hbound (.bind hname _ type) (.bind hname _ type)
  rw [declare_run] at hrun
  rw [declare_run, hfate]
  cases hbind : (s.scope.bind name type).1 with
  | new | repeated =>
    rw [hbind] at hrun
    cases hrun
    exact ⟨(), _, rfl, hafter, trivial⟩
  | conflict previous =>
    rw [hbind] at hrun
    cases hrun

end Follows

end Check

/-! ### Types -/

namespace TypeTable.Founded

variable {types types' : TypeTable} {name : String}

variable (h : types.Founded)
include h

/-- A name that is free is not that of a scalar. -/
theorem ne_of_free (hfree : types.contains name = false) : ∀ s ∈ Scalar.builtin, name ≠ s.name := by
  rintro s hs rfl
  have hentry : types.entries.get? s.name = _ := h s hs
  rw [TypeTable.contains, Dictionary.contains, hentry] at hfree
  cases hfree

theorem insert (hname : ∀ s ∈ Scalar.builtin, name ≠ s.name) (entry : TypeEntry) :
    Founded ⟨types.entries.insert name entry⟩ := by
  intro s hs
  rw [TypeTable.entry?, Dictionary.get?_insert, if_neg (hname s hs)]
  exact h s hs

theorem enters (henters : types.Enters name types') : types'.Founded := by
  obtain ⟨hfree, entry, rfl⟩ := henters
  exact h.insert (h.ne_of_free hfree) entry

theorem resolve {s : Scalar} (hs : s ∈ Scalar.builtin) : types.resolve s.name = .ok (.scalar s) := by
  rw [TypeTable.resolve, TypeTable.follow, h s hs]
  rfl

end TypeTable.Founded

theorem Expr.fold_blur (b : Blur) (constants : Dictionary Int) :
    (e : Expr) → (e.blur b).fold constants = e.fold constants
  | .unary _ _ e => by simp only [Expr.blur, Expr.fold, Expr.fold_blur b constants e]
  | .binary _ _ l r => by
    simp only [Expr.blur, Expr.fold, Expr.fold_blur b constants l, Expr.fold_blur b constants r]
  | .int _ _ | .float _ _ | .char _ _ | .string _ _ | .null _ | .name _ _ | .array _ _ | .call _ _ _
  | .index _ _ _ | .member _ _ _ _ | .cast _ _ _ | .sizeof _ _ => rfl

namespace Check

variable {k : Pairing} {sources : Sources}

/-- Headers are read alike by both checks. -/
def LoadsAbreast (k : Pairing) (sources : Sources) : Prop :=
  ∀ header ∈ sources.headers, Follows k (sources.load header) (sources.load header) fun _ _ => True

namespace Follows

theorem changeTypes {l l' : Location} {change : TypeTable → Except TypeFault TypeTable}
    (hchange : ∀ types types', types.Founded → change types = .ok types' → types'.Founded) :
    Follows k (Check.changeTypes l change) (Check.changeTypes l' change) fun _ _ => True := by
  refine scope.bind fun a b hab => ?_
  rw [hab.types]
  cases hnew : change a.types with
  | error fault => exact fail
  | ok types =>
    refine modifies fun s t hst => hst.setScope ?_ (.refl k _) (.refl k _)
    exact { hst.scope with types := rfl, founded := hchange _ _ hab.founded hnew }

theorem needType (hS : LoadsAbreast k sources) (name : String) :
    Follows k (Check.needType sources name) (Check.needType sources name) fun _ _ => True := by
  refine scope.bind fun a b hab => ?_
  rw [hab.types]
  split
  · split
    · rename_i header hfound
      exact hS header (mem_of_find?_eq_some hfound)
    · exact .pure trivial
  · exact .pure trivial

theorem lookup (hS : LoadsAbreast k sources) {name : String} (hname : k.Shares name) :
    Follows k (Check.lookup sources name) (Check.lookup sources name) Eq := by
  refine scope.bind fun a b hab => ?_
  rw [hab.lookup name hname]
  split
  · exact .pure rfl
  · split
    · rename_i header hfound
      refine (hS header (mem_of_find?_eq_some hfound)).bind fun _ _ _ => scope.bind fun a b hab => ?_
      rw [hab.lookup name hname]
      exact .pure rfl
    · exact .pure rfl

theorem resolveName (hS : LoadsAbreast k sources) (name : String) (l l' : Location) (behindPointer : Bool) :
    Follows k (Check.resolveName sources name l behindPointer)
      (Check.resolveName sources name l' behindPointer) Eq := by
  refine (needType hS name).bind fun _ _ _ => scope.bind fun a b hab => ?_
  rw [hab.types]
  dsimp only
  split
  · cases a.types.resolve name with
    | ok type => exact .pure rfl
    | error fault => exact fail
  · split
    · exact .pure rfl
    · exact fail

theorem arraySize {size size' : Expr} (h : size'.blur .bare = size.blur .bare) :
    Follows k (Check.arraySize size) (Check.arraySize size') Eq := by
  refine scope.bind fun a b hab => ?_
  have hfold : size'.fold b.constants = size.fold a.constants := by
    rw [hab.constants, ← size'.fold_blur .bare, h, size.fold_blur]
  have hprint : size'.print = size.print := by
    rw [← size'.print_blur .bare, h, size.print_blur]
  rw [hfold, hprint]
  split
  · split
    · exact fail
    · exact .pure rfl
  · exact .pure rfl

theorem completeStruct (type : ValueType) (l l' : Location) :
    Follows k (Check.completeStruct type l) (Check.completeStruct type l') Eq := by
  unfold Check.completeStruct
  split
  · rename_i name
    refine scope.bind fun a b hab => ?_
    rw [hab.types]
    dsimp only
    split
    · cases a.types.resolve name with
      | ok type => exact .pure rfl
      | error fault => exact fail
    · exact fail
  · exact .pure rfl

theorem sizeType (hS : LoadsAbreast k sources) : Follows k (Check.sizeType sources) (Check.sizeType sources) Eq := by
  refine (needType hS _).bind fun _ _ _ => scope.bind fun a b hab => ?_
  rw [hab.types]
  cases a.types.resolve Check.sizeName with
  | ok type => exact .pure rfl
  | error fault => exact .pure rfl

mutual

/-- Types that are written alike are worked out alike. -/
theorem resolveWith (hS : LoadsAbreast k sources) (behindPointer : Bool) :
    (t t' : TypeExpr) → t'.blur .bare = t.blur .bare →
      Follows k (Check.resolveWith sources behindPointer t) (Check.resolveWith sources behindPointer t') Eq
  | .name _ name, t', h => by
    cases t' with
    | name _ name' =>
      obtain ⟨_, rfl⟩ := TypeExpr.name.inj h
      exact resolveName hS name' _ _ behindPointer
    | _ => cases h
  | .pointer _ target, t', h => by
    cases t' with
    | pointer _ target' =>
      refine (resolveWith hS true target target' (TypeExpr.pointer.inj h).2).bind fun _ _ htype => .pure ?_
      rw [htype]
    | _ => cases h
  | .array _ element size, t', h => by
    cases t' with
    | array _ element' size' =>
      obtain ⟨_, helement, hsize⟩ := TypeExpr.array.inj h
      refine (resolveWith hS behindPointer element element' helement).bind fun type type' htype => ?_
      subst htype
      refine (require id).bind fun _ _ _ => (arraySize hsize).bind fun _ _ hsize => .pure ?_
      rw [hsize]
    | _ => cases h
  | .function _ params returns, t', h => by
    cases t' with
    | function _ params' returns' =>
      obtain ⟨_, hparams, hreturns⟩ := TypeExpr.function.inj h
      refine (resolveEach hS params params' hparams).bind fun _ _ hparams => ?_
      refine (resolveWith hS false returns returns' hreturns).bind fun _ _ hreturns => .pure ?_
      rw [hparams, hreturns]
    | _ => cases h
  | .vararg _, t', h => by
    cases t' with
    | vararg _ => exact .pure rfl
    | _ => cases h

theorem resolveEach (hS : LoadsAbreast k sources) :
    (ts ts' : List TypeExpr) → TypeExpr.blurList .bare ts' = TypeExpr.blurList .bare ts →
      Follows k (Check.resolveEach sources ts) (Check.resolveEach sources ts') Eq
  | [], ts', h => by
    cases ts' with
    | nil => exact .pure rfl
    | cons => cases h
  | t :: rest, ts', h => by
    cases ts' with
    | nil => cases h
    | cons t' rest' =>
      obtain ⟨hfirst, hrest⟩ := cons.inj h
      refine (resolveWith hS false t t' hfirst).bind fun _ _ hfirst => ?_
      refine (resolveEach hS rest rest' hrest).bind fun _ _ hmore => .pure ?_
      rw [hfirst, hmore]

end

theorem resolve (hS : LoadsAbreast k sources) {t t' : TypeExpr} (h : t'.blur .bare = t.blur .bare) :
    Follows k (Check.resolve sources t) (Check.resolve sources t') Eq :=
  resolveWith hS false t t' h

end Follows

end Check

/-! ### Expressions -/

mutual

/-- The variables and functions that an expression names. -/
def Expr.names : Expr → List String
  | .name _ n => [n]
  | .array _ items => Expr.namesList items
  | .binary _ _ left right => left.names ++ right.names
  | .unary _ _ operand => operand.names
  | .call _ callee arguments => callee.names ++ Expr.namesList arguments
  | .index _ object position => object.names ++ position.names
  | .member _ object _ _ => object.names
  | .cast _ _ operand => operand.names
  | .int _ _ | .float _ _ | .char _ _ | .string _ _ | .null _ | .sizeof _ _ => []

def Expr.namesList : List Expr → List String
  | [] => []
  | e :: rest => e.names ++ Expr.namesList rest

end

mutual

theorem Expr.names_blur (b : Blur) : (e : Expr) → (e.blur b).names = e.names
  | .int _ _ | .float _ _ | .char _ _ | .string _ _ | .null _ | .name _ _ | .sizeof _ _ => rfl
  | .array _ items => Expr.namesList_blur b items
  | .binary _ _ left right => by simp only [Expr.blur, Expr.names, left.names_blur b, right.names_blur b]
  | .unary _ _ operand => operand.names_blur b
  | .call _ callee arguments => by
    simp only [Expr.blur, Expr.names, callee.names_blur b, Expr.namesList_blur b arguments]
  | .index _ object position => by
    simp only [Expr.blur, Expr.names, object.names_blur b, position.names_blur b]
  | .member _ object _ _ => object.names_blur b
  | .cast _ _ operand => operand.names_blur b

theorem Expr.namesList_blur (b : Blur) : (es : List Expr) → Expr.namesList (Expr.blurList b es) = Expr.namesList es
  | [] => rfl
  | e :: rest => by simp only [Expr.blurList, Expr.namesList, e.names_blur b, Expr.namesList_blur b rest]

end

@[simp] theorem Expr.blur_bare_typed (e : Expr) (t : ValueType) : (e.typed t).blur .bare = e.blur .bare := by
  cases e <;> rfl

theorem Expr.length_of_blurList {b : Blur} {es es' : List Expr}
    (h : Expr.blurList b es' = Expr.blurList b es) : es'.length = es.length := by
  simpa [Expr.blurList_eq] using congrArg length h

namespace Check

variable {k : Pairing} {sources : Sources}

/-- Two trees that belong together, with the same type. -/
def Paired {α β γ : Type} (post : α → β → Prop) (r : α × γ) (r' : β × γ) : Prop := post r.1 r'.1 ∧ r'.2 = r.2

/-- The same expression, notes aside, of the same type. -/
abbrev SameTyped : Expr × ValueType → Expr × ValueType → Prop := Paired fun e e' => e'.blur .bare = e.blur .bare

theorem sameTyped_given {e e' : Expr} (h : e'.blur .bare = e.blur .bare) (type : ValueType) :
    SameTyped (given e type) (given e' type) := by
  refine ⟨?_, rfl⟩
  simp only [given, Expr.blur_bare_typed, h]

theorem isPlace_of_blur {e e' : Expr} (h : e'.blur .bare = e.blur .bare) : e'.isPlace = e.isPlace := by
  rw [← Expr.isPlace_blur .bare, h, Expr.isPlace_blur]

namespace Follows

/-- A step that gives a tree and a type, the same in both checks. -/
theorem bindPair {α β γ δ ε : Type} {p : Check (α × ε)} {q : Check (β × ε)} {f : α × ε → Check γ}
    {g : β × ε → Check δ} {post : α → β → Prop} {after : γ → δ → Prop}
    (hp : Follows k p q (Paired post))
    (hf : ∀ a b type, post a b → Follows k (f (a, type)) (g (b, type)) after) :
    Follows k (p >>= f) (q >>= g) after := by
  refine hp.bind fun r r' hr => ?_
  obtain ⟨a, type⟩ := r
  obtain ⟨b, type'⟩ := r'
  obtain ⟨hab, rfl⟩ := hr
  exact hf a b _ hab

theorem binary (op : BinaryOp) (left right : ValueType) (l l' : Location) :
    Follows k (Check.binary op left right l) (Check.binary op left right l') Eq := by
  unfold Check.binary
  split
  · exact .pure rfl
  · exact fail
  · exact fail

theorem unary (op : UnaryOp) (place : Bool) (operand : ValueType) (l l' : Location) :
    Follows k (Check.unary op place operand l) (Check.unary op place operand l') Eq := by
  unfold Check.unary
  split
  · exact .pure rfl
  · exact fail
  · exact fail

theorem memberType (object : ValueType) (member : String) (arrow : Bool) (l l' : Location) :
    Follows k (Check.memberType object member arrow l) (Check.memberType object member arrow l') Eq := by
  unfold Check.memberType
  dsimp only
  split
  · refine (completeStruct _ l l').bind fun struct struct' hstruct => ?_
    subst hstruct
    split
    · exact .pure rfl
    · exact fail
  · exact fail

section

variable {e f e' f' : Expr} (he : Follows k (Check.typed sources e) (Check.typed sources e') SameTyped)
  (hf : Follows k (Check.typed sources f) (Check.typed sources f') SameTyped)

include he

theorem typed_unary (m m' : ExprMark) (op : UnaryOp) :
    Follows k (Check.typed sources (.unary m op e)) (Check.typed sources (.unary m' op e')) SameTyped := by
  refine bindPair he fun a a' operandType ha => ?_
  dsimp only
  rw [isPlace_of_blur ha]
  refine (unary op _ operandType _ _).bind fun type type' htype => ?_
  subst htype
  exact .pure (sameTyped_given (by simp only [Expr.blur, ha, ExprMark.blur_bare]) _)

theorem typed_member (m m' : ExprMark) (member : String) (arrow : Bool) :
    Follows k (Check.typed sources (.member m e member arrow)) (Check.typed sources (.member m' e' member arrow))
      SameTyped := by
  refine bindPair he fun o o' objectType ho => ?_
  refine (memberType objectType member arrow _ _).bind fun type type' htype => ?_
  subst htype
  exact .pure (sameTyped_given (by simp only [Expr.blur, ho, ExprMark.blur_bare]) _)

theorem typed_cast (hS : LoadsAbreast k sources) (m m' : ExprMark) {target target' : TypeExpr}
    (htarget : target'.blur .bare = target.blur .bare) :
    Follows k (Check.typed sources (.cast m target e)) (Check.typed sources (.cast m' target' e')) SameTyped := by
  refine (resolve hS htarget).bind fun type type' htype => ?_
  subst htype
  refine bindPair he fun a a' operandType ha => ?_
  refine (require id).bind fun _ _ _ => ?_
  exact .pure (sameTyped_given (by simp only [Expr.blur, htarget, ha, ExprMark.blur_bare]) _)

include hf

theorem typed_binary (m m' : ExprMark) (op : BinaryOp) :
    Follows k (Check.typed sources (.binary m op e f)) (Check.typed sources (.binary m' op e' f')) SameTyped := by
  refine bindPair he fun a a' leftType ha => bindPair hf fun b b' rightType hb => ?_
  refine (binary op leftType rightType _ _).bind fun type type' htype => ?_
  subst htype
  exact .pure (sameTyped_given (by simp only [Expr.blur, ha, hb, ExprMark.blur_bare]) _)

theorem typed_index (m m' : ExprMark) :
    Follows k (Check.typed sources (.index m e f)) (Check.typed sources (.index m' e' f')) SameTyped := by
  refine bindPair he fun o o' objectType ho => bindPair hf fun i i' positionType hi => ?_
  dsimp only
  cases objectType.target? with
  | none => exact fail
  | some element =>
    refine (require id).bind fun _ _ _ => ?_
    exact .pure (sameTyped_given (by simp only [Expr.blur, ho, hi, ExprMark.blur_bare]) _)

end

mutual

/-- Expressions that are written alike have the same types, if both checks know what they name. -/
theorem typed (hS : LoadsAbreast k sources) :
    (e e' : Expr) → e'.blur .bare = e.blur .bare → (∀ n ∈ e.names, k.Shares n) →
      Follows k (Check.typed sources e) (Check.typed sources e') SameTyped
  | .int _ _, e', h, _ | .float _ _, e', h, _ | .char _ _, e', h, _ | .string _ _, e', h, _ | .null _, e', h, _ => by
    cases e' <;> cases h
    exact .pure ⟨rfl, rfl⟩
  | .name _ n, e', h, hnames => by
    cases e' with
    | name _ n' =>
      obtain ⟨_, rfl⟩ := Expr.name.inj h
      refine (lookup hS (hnames n' (mem_singleton.mpr rfl))).bind fun type type' htype => ?_
      subst htype
      cases type with
      | some type => exact .pure (sameTyped_given h type)
      | none => exact fail
    | _ => cases h
  | .array _ items, e', h, hnames => by
    cases e' with
    | array _ items' =>
      refine bindPair (arrayItems hS none items items' (Expr.array.inj h).2 hnames) fun checked checked' element hchecked => ?_
      cases element with
      | none => exact fail
      | some element =>
        dsimp only
        rw [Expr.length_of_blurList hchecked]
        exact .pure (sameTyped_given (by simp only [Expr.blur, hchecked, ExprMark.blur_bare]) _)
    | _ => cases h
  | .binary _ op left right, e', h, hnames => by
    cases e' with
    | binary _ op' left' right' =>
      obtain ⟨_, rfl, hleft, hright⟩ := Expr.binary.inj h
      obtain ⟨hnleft, hnright⟩ := forall_mem_append.mp hnames
      exact typed_binary (typed hS left left' hleft hnleft) (typed hS right right' hright hnright) _ _ op'
    | _ => cases h
  | .unary _ op operand, e', h, hnames => by
    cases e' with
    | unary _ op' operand' =>
      obtain ⟨_, rfl, hoperand⟩ := Expr.unary.inj h
      exact typed_unary (typed hS operand operand' hoperand hnames) _ _ op'
    | _ => cases h
  | .call _ callee arguments, e', h, hnames => by
    cases e' with
    | call _ callee' arguments' =>
      obtain ⟨_, hcallee, harguments⟩ := Expr.call.inj h
      obtain ⟨hncallee, hnarguments⟩ := forall_mem_append.mp hnames
      refine bindPair (typed hS callee callee' hcallee hncallee) fun f f' type hf => ?_
      dsimp only
      cases type.callable? with
      | none => exact fail
      | some signature =>
        dsimp only
        rw [Expr.length_of_blurList harguments]
        refine (require id).bind fun _ _ _ => ?_
        refine (callArguments hS _ _ 1 _ arguments arguments' harguments hnarguments).bind
          fun checked checked' hchecked => ?_
        exact .pure (sameTyped_given (by simp only [Expr.blur, hf, hchecked, ExprMark.blur_bare]) _)
    | _ => cases h
  | .index _ object position, e', h, hnames => by
    cases e' with
    | index _ object' position' =>
      obtain ⟨_, hobject, hposition⟩ := Expr.index.inj h
      obtain ⟨hnobject, hnposition⟩ := forall_mem_append.mp hnames
      exact typed_index (typed hS object object' hobject hnobject) (typed hS position position' hposition hnposition) _ _
    | _ => cases h
  | .member _ object member arrow, e', h, hnames => by
    cases e' with
    | member _ object' member' arrow' =>
      obtain ⟨_, hobject, rfl, rfl⟩ := Expr.member.inj h
      exact typed_member (typed hS object object' hobject hnames) _ _ member' arrow'
    | _ => cases h
  | .cast _ target operand, e', h, hnames => by
    cases e' with
    | cast _ target' operand' =>
      obtain ⟨_, htarget, hoperand⟩ := Expr.cast.inj h
      exact typed_cast (typed hS operand operand' hoperand hnames) hS _ _ htarget
    | _ => cases h
  | .sizeof _ target, e', h, _ => by
    cases e' with
    | sizeof _ target' =>
      refine (resolve hS (Expr.sizeof.inj h).2).bind fun _ _ _ => (sizeType hS).bind fun type type' htype => ?_
      subst htype
      exact .pure (sameTyped_given h type)
    | _ => cases h

theorem arrayItems (hS : LoadsAbreast k sources) (element : Option ValueType) :
    (es es' : List Expr) → Expr.blurList .bare es' = Expr.blurList .bare es → (∀ n ∈ Expr.namesList es, k.Shares n) →
      Follows k (Check.arrayItems sources element es) (Check.arrayItems sources element es')
        (Paired fun es es' => Expr.blurList .bare es' = Expr.blurList .bare es)
  | [], es', h, _ => by
    cases es' with
    | nil => exact .pure ⟨rfl, rfl⟩
    | cons => cases h
  | e :: rest, es', h, hnames => by
    cases es' with
    | nil => cases h
    | cons e' rest' =>
      obtain ⟨hfirst, hrest⟩ := cons.inj h
      obtain ⟨hnfirst, hnrest⟩ := forall_mem_append.mp hnames
      refine bindPair (typed hS e e' hfirst hnfirst) fun item item' type hitem => ?_
      cases element with
      | none =>
        refine bindPair (arrayItems hS _ rest rest' hrest hnrest) fun more more' element hmore => ?_
        exact .pure ⟨by simp only [Expr.blurList, hitem, hmore], rfl⟩
      | some expected =>
        dsimp only
        rw [Expr.origin_of_blur hfirst]
        refine (require id).bind fun _ _ _ => ?_
        refine bindPair (arrayItems hS _ rest rest' hrest hnrest) fun more more' element hmore => ?_
        exact .pure ⟨by simp only [Expr.blurList, hitem, hmore], rfl⟩

theorem callArguments (hS : LoadsAbreast k sources) (callee callee' : String) (number : Nat)
    (params : List ValueType) :
    (es es' : List Expr) → Expr.blurList .bare es' = Expr.blurList .bare es → (∀ n ∈ Expr.namesList es, k.Shares n) →
      Follows k (Check.callArguments sources callee number params es)
        (Check.callArguments sources callee' number params es')
        fun r r' => Expr.blurList .bare r' = Expr.blurList .bare r
  | [], es', h, _ => by
    cases es' with
    | nil => exact .pure rfl
    | cons => cases h
  | e :: rest, es', h, hnames => by
    cases es' with
    | nil => cases h
    | cons e' rest' =>
      obtain ⟨hfirst, hrest⟩ := cons.inj h
      obtain ⟨hnfirst, hnrest⟩ := forall_mem_append.mp hnames
      refine bindPair (typed hS e e' hfirst hnfirst) fun item item' type hitem => ?_
      have hmore : Follows k (Check.callArguments sources callee (number + 1) params.tail rest >>= fun more =>
            Pure.pure (item :: more))
          (Check.callArguments sources callee' (number + 1) params.tail rest' >>= fun more =>
            Pure.pure (item' :: more)) fun r r' => Expr.blurList .bare r' = Expr.blurList .bare r := by
        refine (callArguments hS _ _ _ _ rest rest' hrest hnrest).bind fun q q' hq => .pure ?_
        simp only [Expr.blurList, hitem, hq]
      cases params with
      | nil => exact (require id).bind fun _ _ _ => hmore
      | cons param others =>
        refine (require ?_).bind fun _ _ _ => hmore
        rw [Expr.origin_of_blur hfirst]
        exact id

end

/-! ### Parts of statements -/

section

variable (hS : LoadsAbreast k sources)
include hS

theorem condition {e e' : Expr} (h : e'.blur .bare = e.blur .bare)
    (hnames : ∀ n ∈ e.names, k.Shares n) (context context' : String) :
    Follows k (Check.condition sources e context) (Check.condition sources e' context')
      fun e e' => e'.blur .bare = e.blur .bare := by
  refine bindPair (typed hS e e' h hnames) fun c c' type hc => ?_
  exact (require id).bind fun _ _ _ => .pure hc

theorem caseLabels (subject : ValueType) (first : Option ValueType)
    {es es' : List Expr} (h : Expr.blurList .bare es' = Expr.blurList .bare es)
    (hnames : ∀ n ∈ Expr.namesList es, k.Shares n) :
    Follows k (Check.caseLabels sources subject first es) (Check.caseLabels sources subject first es')
      fun r r' => Expr.blurList .bare r' = Expr.blurList .bare r := by
  induction es generalizing first es' with
  | nil =>
    cases es' with
    | nil => exact .pure rfl
    | cons => cases h
  | cons e rest ih =>
    cases es' with
    | nil => cases h
    | cons e' rest' =>
      obtain ⟨hfirst, hrest⟩ := cons.inj h
      obtain ⟨hnfirst, hnrest⟩ := forall_mem_append.mp hnames
      refine bindPair (typed hS e e' hfirst hnfirst) fun label label' type hlabel => ?_
      have hmore : Follows k
          (Check.caseLabels sources subject (some (first.getD type)) rest >>= fun more =>
            Pure.pure (label :: more))
          (Check.caseLabels sources subject (some (first.getD type)) rest' >>= fun more =>
            Pure.pure (label' :: more)) fun r r' => Expr.blurList .bare r' = Expr.blurList .bare r := by
        refine (ih _ hrest hnrest).bind fun more more' hmore => .pure ?_
        simp only [Expr.blurList, hlabel, hmore]
      cases first with
      | some expected => exact (require id).bind fun _ _ _ => hmore
      | none =>
        refine (require ?_).bind fun _ _ _ => hmore
        rw [Expr.origin_of_blur hlabel]
        exact id

theorem structMembers (struct : String) {fields fields' : List Field}
    (h : fields'.map (·.blur .bare) = fields.map (·.blur .bare)) :
    Follows k (Check.structMembers sources struct fields) (Check.structMembers sources struct fields') Eq := by
  induction fields generalizing fields' with
  | nil =>
    obtain rfl : fields' = [] := by simpa using h
    exact .pure rfl
  | cons f rest ih =>
    cases fields' with
    | nil => cases h
    | cons f' rest' =>
      obtain ⟨hfirst, hrest⟩ := cons.inj h
      obtain ⟨hname, htype, _⟩ := Field.mk.inj hfirst
      refine (resolve hS htype).bind fun type type' heq => ?_
      subst heq
      refine (require id).bind fun _ _ _ => (require id).bind fun _ _ _ => ?_
      refine (ih hrest).bind fun more more' hmore => .pure ?_
      rw [hname, hmore]

theorem struct (name : String) {fields fields' : List Field}
    (h : fields'.map (·.blur .bare) = fields.map (·.blur .bare)) (l l' : Location) :
    Follows k (Check.struct sources name fields l) (Check.struct sources name fields' l')
      fun _ _ => True := by
  intro s t hst a s' hrun
  obtain ⟨_, s1, hadd, hrest⟩ := run_bind_ok.mp hrun
  -- The name is free, so that giving it members leaves the scalars as they are.
  have hname : ∀ scalar ∈ Scalar.builtin, name ≠ scalar.name := by
    unfold Check.changeTypes at hadd
    obtain ⟨_, _, hscope, hadd⟩ := run_bind_ok.mp hadd
    cases hscope
    split at hadd
    · rename_i types hnew
      exact hst.scope.founded.ne_of_free (TypeTable.add_ok hnew).1
    · cases hadd
  have hfollows : Follows k (Check.struct sources name fields l) (Check.struct sources name fields' l')
      fun _ _ => True := by
    refine (changeTypes fun types types' hfounded hnew => ?_).bind fun _ _ _ => ?_
    · exact hfounded.enters (TypeTable.enters_add hnew)
    · refine (structMembers hS name h).bind fun members members' hmembers => ?_
      subst hmembers
      refine modifies fun s t hst => hst.setScope ?_ (.refl k _) (.refl k _)
      rw [hst.scope.types]
      exact { hst.scope with types := rfl, founded := hst.scope.founded.insert hname _ }
  exact hfollows s t hst a s' hrun

end

theorem enumMembers (type : ValueType) (l l' : Location) (value : Nat) {members : List String}
    (hnames : ∀ n ∈ members, k.Shares n) :
    Follows k (Check.enumMembers type l value members) (Check.enumMembers type l' value members)
      fun _ _ => True := by
  induction members generalizing value with
  | nil => exact .pure trivial
  | cons member rest ih =>
    obtain ⟨hmember, hrest⟩ := forall_mem_cons.mp hnames
    refine (declare hmember type l l').bind fun _ _ _ => ?_
    refine (modifyScope (fun a b hab => ?_) (fun a => ?_) fun b => ?_).bind fun _ _ _ => ih _ hrest
    · exact { hab with constants := by rw [hab.constants] }
    · exact .refl k a
    · exact .refl k b

theorem enum (name : String) {members : List String} (hnames : ∀ n ∈ members, k.Shares n) (l l' : Location) :
    Follows k (Check.enum name members l) (Check.enum name members l') fun _ _ => True := by
  refine (changeTypes fun types types' hfounded hnew => ?_).bind fun _ _ _ => ?_
  · exact hfounded.enters (TypeTable.enters_add hnew)
  · exact enumMembers _ l l' 0 hnames

theorem typedef (hS : LoadsAbreast k sources) {target target' : TypeExpr}
    (h : target'.blur .bare = target.blur .bare) (name : String) (l l' : Location) :
    Follows k (Check.typedef sources target name l) (Check.typedef sources target' name l')
      fun _ _ => True := by
  have hother : Follows k
      (do
        let type ← Check.resolve sources target
        Check.changeTypes l fun types => types.addTypedef name type)
      (do
        let type ← Check.resolve sources target'
        Check.changeTypes l' fun types => types.addTypedef name type) fun _ _ => True := by
    refine (resolve hS h).bind fun type type' htype => ?_
    subst htype
    exact changeTypes fun types types' hfounded hnew => hfounded.enters (TypeTable.enters_addTypedef hnew)
  cases target with
  | name _ n =>
    cases target' with
    | name _ n' =>
      obtain ⟨_, rfl⟩ := TypeExpr.name.inj h
      refine (needType hS n').bind fun _ _ _ => scope.bind fun a b hab => ?_
      rw [hab.types]
      split
      · exact changeTypes fun types types' hfounded hnew => hfounded.enters (TypeTable.enters_addAlias hnew)
      · exact hother
    | _ => cases h
  | _ =>
    cases target' with
    | name _ _ => simp [TypeExpr.blur] at h
    | _ => exact hother

theorem define (hS : LoadsAbreast k sources) {name : String} {value value' : Option Expr}
    (hname : value.isSome → k.Shares name) (h : value'.map (·.blur .bare) = value.map (·.blur .bare))
    (hnames : ∀ e ∈ value, ∀ n ∈ e.names, k.Shares n) (l l' : Location) :
    Follows k (Check.define sources name value l) (Check.define sources name value' l')
      fun r r' => r'.map (·.blur .bare) = r.map (·.blur .bare) := by
  cases value with
  | none =>
    obtain rfl : value' = none := by simpa using h
    refine (modifyScope (fun a b hab => ?_) (fun a => ?_) fun b => ?_).bind fun _ _ _ => .pure rfl
    · exact { hab with macros := by rw [hab.macros] }
    · exact .refl k a
    · exact .refl k b
  | some e =>
    obtain ⟨e', rfl, he⟩ : ∃ e', value' = some e' ∧ e'.blur .bare = e.blur .bare := by simpa using h
    refine bindPair (typed hS e e' he (hnames e rfl)) fun v v' type hv => ?_
    refine (declare (hname rfl) type l l').bind fun _ _ _ => ?_
    refine (modifyScope (fun a b hab => ?_) (fun a => ?_) fun b => ?_).bind fun _ _ _ => ?_
    · have hfold : v'.fold b.constants = v.fold a.constants := by
        rw [hab.constants, ← v'.fold_blur .bare, hv, v.fold_blur]
      rw [hfold]
      split <;> exact { hab with constants := by rw [hab.constants] }
    · split <;> exact .refl k a
    · split <;> exact .refl k b
    · exact .pure (by simp only [Option.map_some, hv])

end Follows

end Check

end Offside
