import Offside.Proofs.Check.ValueTypes

/-! Where declarations come from.

A scope says what a name stands for, and forgets how it came to say so. A `Frame` is a scope with its
`History`: the declarations that were made in it or around it, the last first, and the global scopes it
has taken names from. A `Stage` is a state of a check with the histories of all its scopes, and
`Check.Passes` lists everything that a check can do from one stage to the next. What holds of these steps
holds of every stage that a check passes (`Check.Passed`). -/
namespace Offside

/-! ### Declarations and their histories -/

/-- In a scope whose names are all its own, a name that has a type is not free. -/
theorem Scope.Rooted.not_free {s : Scope} (hs : s.Rooted) {name : String} {type : ValueType}
    (h : s.lookup name = some type) : ¬ (s.isLocal name = true → s.lookup name = none) := by
  intro hfree
  rw [hfree (hs name type h)] at h
  cases h

/-- What makes a declaration. -/
inductive Origin where
  /-- A variable with a written type. -/
  | declaration
  /-- The first assignment to a name. -/
  | value
  /-- A function that is announced, or defined with the type of its result. -/
  | function
  /-- A function whose result is inferred from its body. -/
  | inferred
  | member (value : Int)
  /-- A definition, with its value if that is constant. -/
  | constant (value : Option Int)
  /-- A parameter with a written type. -/
  | parameter
  /-- A parameter whose type is taken from the function that is being defined. -/
  | announced (function : Origin)

namespace Origin

/-- What a declaration makes of the value of its name: definitions and members of enumerations set it,
all others leave it. -/
def sets : Origin → Option (Option Int)
  | member n => some (some n)
  | constant n => some n
  | _ => none

/-- The values of names behind a declaration. -/
def constants (origin : Origin) (name : String) (values : Dictionary Int) : Dictionary Int := match origin.sets with
  | some (some n) => values.insert name n
  | some none => values.erase name
  | none => values

theorem get?_constants (origin : Origin) (name other : String) (values : Dictionary Int) :
    (origin.constants name values).get? other =
      if name = other then origin.sets.getD (values.get? other) else values.get? other := by
  unfold constants
  split
  · rename_i hsets
    rw [hsets, Dictionary.get?_insert]
    rfl
  · rename_i hsets
    rw [hsets, Dictionary.get?_erase]
    rfl
  · rename_i hsets
    rw [hsets, Option.getD_none, ite_self]

end Origin

/-- What makes the declaration of a parameter, given where that of its function came from. -/
def Param.origin (head : Origin) (p : Param) : Origin := match p.kind with
  | .named _ none => .announced head
  | _ => .parameter

theorem Param.sets_origin (head : Origin) (p : Param) : (p.origin head).sets = none := by
  unfold origin
  split <;> rfl

/-- How a scope came to say what it says. -/
inductive History where
  | start
  /-- A declaration is `fresh` if it gave its name a type, and else repeats one that did. -/
  | declared (name : String) (origin : Origin) (fresh : Bool) (before : History)
  /-- The names that were missing were taken from the global scope. -/
  | taken (global before : History)

/-- What made the declaration that gave a name its type. -/
def History.origin? (name : String) : History → Option Origin
  | start => none
  | declared n origin fresh before =>
    if n = name then
      if fresh then some origin else (before.origin? name).or (some origin)
    else before.origin? name
  | taken global before => (before.origin? name).or (global.origin? name)

/-- A scope with its history. -/
structure Frame where
  scope : Scope
  history : History

namespace Frame

/-- Behind a declaration, unless the name has another type at this level. -/
def declare (f : Frame) (name : String) (type : ValueType) (origin : Origin) : Frame :=
  match f.scope.bind name type with
  | (.new, scope) =>
    ⟨{ scope with constants := origin.constants name scope.constants },
      .declared name origin true f.history⟩
  | (.repeated, scope) =>
    ⟨{ scope with constants := origin.constants name scope.constants },
      .declared name origin false f.history⟩
  | (.conflict _, _) => f

def withTypes (f : Frame) (types : TypeTable) : Frame := { f with scope := { f.scope with types } }

/-- Inside a function. -/
def child (f : Frame) : Frame := { f with scope := f.scope.child }

/-- With the names that a global scope has besides. -/
def absorb (f global : Frame) : Frame := ⟨f.scope.absorb global.scope, .taken global.history f.history⟩

/-- With the named parameters of a function, given where its own declaration came from. -/
def bindParams (head : Origin) : List Param → List ValueType → Frame → Frame
  | p :: rest, type :: types, f =>
    bindParams head rest types (match p.kind with
       | .named name _ => f.declare name type (p.origin head)
       | .vararg => f)
  | _, _, f => f

/-- The three ways of a declaration: it meets another type at this level, it repeats a declaration, or it
gives its name a type. -/
theorem declare_cases (f : Frame) (name : String) (type : ValueType) (origin : Origin) :
    f.declare name type origin = f ∨
    (f.declare name type origin =
        ⟨{ f.scope with constants := origin.constants name f.scope.constants },
          .declared name origin false f.history⟩ ∧ (f.scope.lookup name).isSome = true) ∨
    (f.declare name type origin =
        ⟨{ f.scope.setVariable name type with constants := origin.constants name f.scope.constants },
          .declared name origin true f.history⟩ ∧
      (f.scope.isLocal name = true → f.scope.lookup name = none)) := by
  unfold declare Scope.bind
  by_cases hlocal : f.scope.isLocal name = true
  · rw [if_pos hlocal]
    cases hlookup : f.scope.lookup name with
    | none => exact .inr (.inr ⟨rfl, fun _ => rfl⟩)
    | some previous =>
      dsimp only
      split
      · rename_i heq
        split at heq <;> cases heq
      · rename_i heq
        split at heq <;> cases heq
        exact .inr (.inl ⟨rfl, rfl⟩)
      · exact .inl rfl
  · rw [if_neg hlocal]
    exact .inr (.inr ⟨rfl, fun h => absurd h hlocal⟩)

@[simp] theorem types_declare (f : Frame) (name : String) (type : ValueType) (origin : Origin) :
    (f.declare name type origin).scope.types = f.scope.types := by
  obtain h | ⟨h, _⟩ | ⟨h, _⟩ := f.declare_cases name type origin <;> rw [h]
  rfl

@[simp] theorem types_bindParams (head : Origin) (params : List Param) (types : List ValueType)
    (f : Frame) : (f.bindParams head params types).scope.types = f.scope.types := by
  fun_induction bindParams head params types f with
  | case1 p rest type types f ih =>
    rw [ih]
    cases p.kind with
    | named name => exact types_declare _ _ _ _
    | vararg => rfl
  | case2 => rfl

/-- What declarations of parameters keep. -/
theorem bindParams_keeps {R : Frame → Prop} {φ : Origin → ValueType → Prop} {head : Origin}
    {params : List Param} {types : List ValueType} {f : Frame} (hf : R f)
    (hparams : List.Forall₂ (fun p type => φ (p.origin head) type) params types)
    (hdeclare : ∀ g name type origin, R g → φ origin type → R (g.declare name type origin)) :
    R (f.bindParams head params types) := by
  induction hparams generalizing f with
  | nil => exact hf
  | cons hp _ ih =>
    unfold bindParams
    apply ih
    split
    · exact hdeclare f _ _ _ hf hp
    · exact hf

/-- Every variable came from a declaration that warrants its type, and every declaration is of a
variable. -/
def Bears (φ : Origin → ValueType → Prop) (f : Frame) : Prop :=
  ∀ name, Option.Rel φ (f.history.origin? name) (f.scope.lookup name)

namespace Bears

variable {φ ψ : Origin → ValueType → Prop} {f g : Frame}

variable (h : f.Bears φ)
include h

theorem origin {name : String} {type : ValueType} (hlookup : f.scope.lookup name = some type) :
    ∃ origin, f.history.origin? name = some origin ∧ φ origin type := by
  have hname := h name
  rw [hlookup] at hname
  generalize f.history.origin? name = found at hname
  cases hname with
  | some hholds => exact ⟨_, rfl, hholds⟩

theorem lookup {name : String} (horigin : (f.history.origin? name).isSome = true) :
    (f.scope.lookup name).isSome = true := by
  have hname := h name
  obtain ⟨origin, heq⟩ := Option.isSome_iff_exists.mp horigin
  rw [heq] at hname
  generalize f.scope.lookup name = found at hname ⊢
  cases hname
  rfl

theorem imp (hφ : ∀ origin type, φ origin type → ψ origin type) : f.Bears ψ := by
  intro name
  have hname := h name
  generalize f.history.origin? name = found at hname ⊢
  generalize f.scope.lookup name = type at hname ⊢
  cases hname with
  | some hholds => exact .some (hφ _ _ hholds)
  | none => exact .none

/-- Only a declaration that gives its name a type has to be looked at. -/
theorem declare {name : String} {type : ValueType} {origin : Origin}
    (hnew : (f.scope.isLocal name = true → f.scope.lookup name = none) → φ origin type) :
    (f.declare name type origin).Bears φ := by
  intro other
  have hother := h other
  obtain hd | ⟨hd, hknown⟩ | ⟨hd, hfresh⟩ := f.declare_cases name type origin
  · rw [hd]
    exact hother
  · rw [hd]
    show Option.Rel φ (History.origin? other (.declared name origin false f.history))
      (f.scope.lookup other)
    unfold History.origin?
    by_cases hname : name = other
    · subst hname
      obtain ⟨t, ht⟩ := Option.isSome_iff_exists.mp hknown
      obtain ⟨first, hfirst, _⟩ := h.origin ht
      rw [hfirst] at hother
      simpa [hfirst] using hother
    · rw [if_neg hname]
      exact hother
  · rw [hd]
    show Option.Rel φ (History.origin? other (.declared name origin true f.history))
      ((f.scope.setVariable name type).lookup other)
    unfold History.origin?
    rw [Scope.lookup_setVariable]
    by_cases hname : name = other
    · rw [if_pos hname, if_pos hname]
      exact .some (hnew hfresh)
    · rw [if_neg hname, if_neg hname]
      exact hother

theorem absorb (hg : g.Bears φ) : (f.absorb g).Bears φ := by
  intro name
  have hf := h name
  have hg := hg name
  show Option.Rel φ ((f.history.origin? name).or (g.history.origin? name))
    ((f.scope.bindings.absorb g.scope.bindings).get? name)
  rw [Dictionary.get?_absorb]
  unfold Scope.lookup at hf hg
  generalize f.history.origin? name = found at hf ⊢
  generalize f.scope.bindings.get? name = type at hf ⊢
  cases hf with
  | some hholds => exact .some hholds
  | none => exact hg

theorem withTypes (types : TypeTable) : (f.withTypes types).Bears φ := h

end Bears

end Frame

/-- The histories of all scopes, the checked values that variables took their types from, and those that
functions took the types of their results from. -/
structure Chronicle where
  locals : List History := []
  global : History := .start
  values : List Expr := []
  results : List Expr := []

namespace Chronicle

def current (c : Chronicle) : History := c.locals.headD c.global

def setCurrent (c : Chronicle) (h : History) : Chronicle :=
  match c.locals with
  | [] => { c with global := h }
  | _ :: rest => { c with locals := h :: rest }

end Chronicle

/-- A state of a check, with how it came about. -/
structure Stage where
  state : CheckState
  chronicle : Chronicle

namespace Stage

/-- The current scope. -/
def frame (a : Stage) : Frame := ⟨a.state.scope, a.chronicle.current⟩

def global (a : Stage) : Frame := ⟨a.state.environment.global, a.chronicle.global⟩

def setFrame (a : Stage) (f : Frame) : Stage := ⟨a.state.setScope f.scope, a.chronicle.setCurrent f.history⟩

def declare (a : Stage) (name : String) (type : ValueType) (origin : Origin) : Stage :=
  a.setFrame (a.frame.declare name type origin)

def setTypes (a : Stage) (types : TypeTable) : Stage := a.setFrame (a.frame.withTypes types)

def noteValue (a : Stage) (e : Expr) : Stage :=
  { a with chronicle := { a.chronicle with values := e :: a.chronicle.values } }

def noteResult (a : Stage) (e : Expr) : Stage :=
  { a with chronicle := { a.chronicle with results := e :: a.chronicle.results } }

/-- Behind the first result of a function whose type is inferred. -/
def infer (a : Stage) (function : FunctionContext) (type : ValueType) : Stage :=
  { a with state := { a.state with function := some { function with inferred := some type } } }

def openHeader (a : Stage) : Stage :=
  ⟨a.state.openHeader, { a.chronicle with locals := [] }⟩

def closeHeader (before after : Stage) : Stage :=
  ⟨before.state.closeHeader after.state,
    { after.chronicle with
      locals := before.chronicle.locals.map (.taken after.chronicle.global) }⟩

/-- In a scope of its own. -/
def inside (a : Stage) (function : FunctionContext) : Stage :=
  ⟨{ a.state with function := some function, environment := a.state.environment.enter },
    { a.chronicle with locals := a.chronicle.current :: a.chronicle.locals }⟩

/-- At the beginning of a function's body. -/
def enter (a : Stage) (head : FunctionHead) (types : List ValueType) (returns : Option ValueType) :
    Stage :=
  let inside := a.inside { name := head.name, returns }
  inside.setFrame
    (inside.frame.bindParams ((a.frame.history.origin? head.name).getD .function) head.params types)

def outside (a : Stage) : Stage :=
  ⟨{ a.state with function := none, environment := a.state.environment.exit },
    { a.chronicle with locals := a.chronicle.locals.drop 1 }⟩

/-- Behind a function's body, where the function is declared if its result was not known before. -/
def leave (a : Stage) (head : FunctionHead) (types : List ValueType) (returns : Option ValueType) : Stage :=
  match returns with
  | some _ => a.outside
  | none =>
    let inferred := a.state.function.bind (·.inferred)
    a.outside.declare head.name (.function types (inferred.getD .void)) .inferred

/-! ### All scopes of a stage -/

/-- What all scopes of a stage have in common. -/
structure Each (R : Frame → Prop) (a : Stage) : Prop where
  locals : List.Forall₂ (fun scope history => R ⟨scope, history⟩) a.state.environment.locals a.chronicle.locals
  global : R a.global

namespace Each

variable {R Q : Frame → Prop} {a b : Stage} {f : Frame}

variable (h : a.Each R)
include h

theorem imp (hR : ∀ f, R f → Q f) : a.Each Q := ⟨h.locals.imp fun _ _ hf => hR _ hf, hR _ h.global⟩

theorem frame : R a.frame := by
  have hlocals := h.locals
  unfold Stage.frame CheckState.scope Environment.current Chronicle.current
  generalize a.state.environment.locals = scopes at hlocals ⊢
  generalize a.chronicle.locals = histories at hlocals ⊢
  cases hlocals with
  | nil => exact h.global
  | cons hfirst _ => exact hfirst

theorem setFrame (hf : R f) : (a.setFrame f).Each R := by
  obtain ⟨s, c⟩ := a
  obtain ⟨⟨scopes, global⟩⟩ := s
  obtain ⟨histories, history, values, results⟩ := c
  have hlocals : List.Forall₂ (fun scope history => R ⟨scope, history⟩) scopes histories := h.locals
  cases hlocals with
  | nil => exact ⟨.nil, hf⟩
  | cons _ hrest => exact ⟨.cons hf hrest, h.global⟩

/-- With the same scopes and histories. -/
theorem congr (hscopes : b.state.environment = a.state.environment)
    (hlocals : b.chronicle.locals = a.chronicle.locals)
    (hglobal : b.chronicle.global = a.chronicle.global) : b.Each R := by
  refine ⟨?_, ?_⟩
  · rw [hscopes, hlocals]
    exact h.locals
  · unfold Stage.global
    rw [hscopes, hglobal]
    exact h.global

theorem openHeader : a.openHeader.Each R := ⟨.nil, h.global⟩

/-- Behind a header the local scopes have taken in what is new. -/
theorem closeHeader (hb : b.Each R) (habsorb : ∀ f, R f → R (f.absorb b.global)) : (a.closeHeader b).Each R := by
  refine ⟨?_, hb.global⟩
  show List.Forall₂ _ (a.state.environment.locals.map (·.absorb b.state.environment.global))
    (a.chronicle.locals.map (History.taken b.chronicle.global))
  rw [List.forall₂_map_left_iff, List.forall₂_map_right_iff]
  exact h.locals.imp fun scope history hf => habsorb ⟨scope, history⟩ hf

theorem outside : a.outside.Each R := by
  refine ⟨?_, h.global⟩
  show List.Forall₂ _ (a.state.environment.locals.drop 1) (a.chronicle.locals.drop 1)
  exact List.forall₂_drop 1 h.locals

end Each

end Stage

/-! ### What a check does -/

/-- What a check is about: headers that are read when a name is needed, the lines of a header, or
statements. Each may do what those before it do. -/
inductive Phase where
  | headers
  | lines
  | statements

/-- One step in the current scope, for which nothing else has to be looked at. -/
inductive Frame.Step (f : Frame) : Phase → Frame → Prop where
  /-- A function is defined or a guard is set. -/
  | noted (functions guards : NameSet) :
      Step f .lines { f with scope := { f.scope with definedFunctions := functions, macros := guards } }
  | declaration (name : String) {type : ValueType} : f.scope.types.Forms false type →
      type.isVoid = false → Step f .lines (f.declare name type .declaration)
  | function (name : String) {params : List ValueType} {returns : ValueType} :
      f.scope.types.Forms false (.function params returns) →
      Step f .lines (f.declare name (.function params returns) .function)
  /-- A function whose name has a type at this level. -/
  | known {name : String} {previous : ValueType} (type : ValueType) : f.scope.Rooted →
      f.scope.lookup name = some previous → Step f .lines (f.declare name type .function)
  /-- A struct by its name. -/
  | struct {name : String} {types : TypeTable} :
      f.scope.types.add name (.namedStruct name) = .ok types → Step f .lines (f.withTypes types)
  | synonym {name target : String} {types : TypeTable} :
      f.scope.types.addAlias name target = .ok types → Step f .lines (f.withTypes types)
  | typedef {name : String} {type : ValueType} {types : TypeTable} :
      f.scope.types.Forms false type → f.scope.types.addTypedef name type = .ok types →
      Step f .statements (f.withTypes types)
  | enum {name : String} {types : TypeTable} : Scalar.ofName name = .enum name →
      f.scope.types.add name (.scalar (.enum name)) = .ok types →
      Step f .statements (f.withTypes types)
  | member {name : String} (member : String) (value : Int) :
      f.scope.types.entry? name = some (.base (.scalar (.enum name))) →
      Step f .statements (f.declare member (.scalar (.enum name)) (.member value))

/-- Whether a parameter may have a type: one that is written out, or else one from the parameters of the
function, whose name is known. -/
def Param.Takes (s : Scope) (function : String) (p : Param) (type : ValueType) : Prop := match p.kind with
  | .named _ none => ∃ params returns, s.lookup function = some (.function params returns) ∧ type ∈ params
  | _ => s.types.Forms false type

/-- Whether the parameters of a function may have these types. Where its result is to be inferred, they
are all written out. -/
structure FunctionHead.Takes (s : Scope) (head : FunctionHead) (types : List ValueType)
    (returns : Option ValueType) : Prop where
  params : List.Forall₂ (Param.Takes s head.name) head.params types
  written : returns = none → ∀ type ∈ types, s.types.Forms false type

@[simp] theorem ValueType.holds_struct (struct name : String) (members : List (String × ValueType)) :
    (ValueType.struct name members).holds struct = (name == struct) := by
  simp [holds, namedStruct, same]

namespace Check

/-- What a check can do from one stage to the next. -/
inductive Passes (config : Config) : Phase → Stage → Stage → Prop where
  | refl (phase : Phase) (a : Stage) : Passes config phase a a
  | trans {phase : Phase} {a b d : Stage} : Passes config phase a b → Passes config phase b d →
      Passes config phase a d
  | ofHeaders {a b : Stage} : Passes config .headers a b → Passes config .lines a b
  | ofLines {a b : Stage} : Passes config .lines a b → Passes config .statements a b
  /-- The scopes and the function are as they were. -/
  | elsewhere {phase : Phase} {a : Stage} {s : CheckState} : s.environment = a.state.environment →
      s.function = a.state.function → Passes config phase a ⟨s, a.chronicle⟩
  | header {a b : Stage} : Passes config .lines a.openHeader b →
      Passes config .headers a (a.closeHeader b)
  | step {phase : Phase} {a : Stage} {f : Frame} : a.frame.Step phase f →
      Passes config phase a (a.setFrame f)
  | value {a b : Stage} {checked : Expr} {type : ValueType} (name : String) :
      Passes config .headers a b → checked.Has b.frame.scope type →
      (type.isNull || type.isVoid || type.isVararg) = false →
      Passes config .statements a ((b.noteValue checked).declare name type .value)
  | define {a b : Stage} {checked : Expr} {type : ValueType} (name : String) :
      Passes config .headers a b → checked.Has b.frame.scope type →
      Passes config .statements a
        ((b.noteValue checked).declare name type (.constant (checked.fold b.frame.scope.constants)))
  | result {a b : Stage} {checked : Expr} {type : ValueType} (function : FunctionContext) :
      Passes config .headers a b → checked.Has b.frame.scope type →
      Passes config .statements a ((b.noteResult checked).infer function type.decay)
  /-- A result without a value. -/
  | noResult {a : Stage} (function : FunctionContext) :
      Passes config .statements a (a.infer function .void)
  /-- A struct is known by name to its own members. -/
  | struct {a b : Stage} {name : String} {types : TypeTable} {members : List (String × ValueType)} :
      a.frame.scope.types.add name (.namedStruct name) = .ok types →
      Passes config .headers (a.setTypes types) b →
      (∀ m ∈ members, b.frame.scope.types.Forms false m.2 ∧ m.2.isVoid = false ∧
        m.2.holds name = false) →
      Passes config .statements a
        (b.setTypes (b.frame.scope.types.complete name (.struct name members)))
  | function {a b : Stage} {head : FunctionHead} {types : List ValueType} {returns : Option ValueType} :
      head.Takes a.frame.scope types returns →
      Passes config .statements (a.enter head types returns) b →
      Passes config .statements a (b.leave head types returns)

/-- The stages that a check passes: behind its steps, and at the beginning of the bodies of functions and
of headers. -/
inductive Passed (config : Config) : Stage → Prop where
  | start (path : Option Path) : Passed config ⟨CheckedUnit.startState path, {}⟩
  | passes {phase : Phase} {a b : Stage} : Passed config a → Passes config phase a b → Passed config b
  | body {a : Stage} {head : FunctionHead} {types : List ValueType} {returns : Option ValueType} :
      Passed config a → head.Takes a.frame.scope types returns →
      Passed config (a.enter head types returns)
  | header {a : Stage} : Passed config a → Passed config a.openHeader

theorem Passed.elsewhere {config : Config} {s s' : CheckState} {c : Chronicle} (h : Passed config ⟨s, c⟩)
    (henvironment : s'.environment = s.environment) (hfunction : s'.function = s.function) :
    Passed config ⟨s', c⟩ := by
  have hpasses : Passes config .headers ⟨s, c⟩ ⟨s', c⟩ := .elsewhere henvironment hfunction
  exact h.passes hpasses

end Check

end Offside
