import Offside.Proofs.Check.Passage
import Offside.Proofs.Check.Upheld

/-! Types that variables have by value.

The names of structs and enumerations that stand in a type outside pointers (`ValueType.ByValue`) are
known where the type is written. A variable that takes its type from a value may name more than its scope
knows, in two ways: a value that is read from behind a pointer can be of a struct that is still to be
declared, and an inferred result can be of a struct that only the function knows. These names are released
by values on record (`Chronicle.Releases`). All other names are known in every scope of every state that a
check visits (`Check.Visited.known_by_value`). -/
namespace Offside

/-- A struct or an enumeration whose name stands in a type outside pointers. -/
inductive ValueType.ByValue (name : String) : ValueType → Prop where
  | enum : ByValue name (.scalar (.enum name))
  | struct (members : List (String × ValueType)) : ByValue name (.struct name members)
  | member {s : String} {members : List (String × ValueType)} {m : String × ValueType} :
      m ∈ members → ByValue name m.2 → ByValue name (.struct s members)
  | element {t : ValueType} (size : ArraySize) : ByValue name t → ByValue name (.array t size)
  | param {params : List ValueType} {p : ValueType} (returns : ValueType) : p ∈ params →
      ByValue name p → ByValue name (.function params returns)
  | result (params : List ValueType) {returns : ValueType} : ByValue name returns →
      ByValue name (.function params returns)

open ValueType (ByValue)

theorem ValueType.byValue_of_holds {name : String} : (t : ValueType) → t.holds name = true → ByValue name t
  | .array t size, h => .element size (byValue_of_holds t h)
  | .struct n members, h => by
    have hname : n = name := by simpa using h
    rw [hname]
    exact .struct members
  | .scalar _, h | .pointer _, h | .function _ _, h => nomatch h

/-! ### Tables -/

namespace TypeTable

variable {t : TypeTable} {type : ValueType}

/-- All names that a type has by value are in the table. -/
def Knows (t : TypeTable) (type : ValueType) : Prop := ∀ name, ByValue name type → t.contains name = true

theorem Knows.mono {t' : TypeTable} (h : t.Knows type) (ht : t.NamesIn t') : t'.Knows type :=
  fun name hname => ht name (h name hname)

theorem knows_scalar (t : TypeTable) {s : Scalar} (h : s.isEnum = false) : t.Knows (.scalar s) := by
  intro name hname
  cases hname
  cases h

/-- A table knows the types in it. -/
def Settled (t : TypeTable) : Prop := t.Bases t.Knows

/-- What can be written outside pointers is known. -/
theorem Settled.forms (h : t.Settled) {behindPointer : Bool}
    (hforms : t.Forms behindPointer type) (hpointer : behindPointer = false) : t.Knows type := by
  induction hforms with
  | @scalar _ s hs =>
    apply knows_scalar
    have hall : ∀ s ∈ Scalar.vararg :: Scalar.builtin, s.isEnum = false := by decide
    exact hall s hs
  | named hleads => exact h.leads hleads
  | forward name => cases hpointer
  | pointer => exact fun name hname => nomatch hname
  | array size _ _ ih =>
    intro name hname
    cases hname with
    | element _ hname => exact ih hpointer name hname
  | function _ _ ihparams ihreturns =>
    intro name hname
    cases hname with
    | param _ hp hname => exact ihparams _ hp rfl name hname
    | result _ hname => exact ihreturns rfl name hname

/-- All names that a type has by value are in the table or among others that are given. -/
def Accounts (t : TypeTable) (others : String → Prop) (type : ValueType) : Prop :=
  ∀ name, ByValue name type → t.contains name = true ∨ others name

theorem Knows.accounts (h : t.Knows type) (others : String → Prop) : t.Accounts others type :=
  fun name hname => .inl (h name hname)

theorem Accounts.mono {t' : TypeTable} {others : String → Prop}
    (h : t.Accounts others type) (ht : t.NamesIn t') : t'.Accounts others type :=
  fun name hname => (h name hname).imp_left (ht name)

end TypeTable

/-! ### What a declaration writes out -/

namespace Origin

/-- Whether a declaration takes its type from a value. -/
def fromValue : Origin → Bool
  | value | constant _ => true
  | announced head => head.fromValue
  | _ => false

/-- The parts of a type that its declaration writes out. An inferred function has its parameters
written. -/
def written (type : ValueType) : Origin → List ValueType
  | value | constant _ => []
  | inferred =>
    match type with
    | .function params _ => params
    | _ => []
  | announced head => if head.fromValue then [] else [type]
  | _ => [type]

/-- A declaration that takes nothing from a value writes out the parameters of a function. -/
theorem written_function {origin : Origin} (h : origin.fromValue = false) {params : List ValueType}
    {p : ValueType} (returns : ValueType) {name : String} (hp : p ∈ params) (hname : ByValue name p) :
    ∃ part ∈ origin.written (.function params returns), ByValue name part := by
  have hwhole : ByValue name (.function params returns) := .param returns hp hname
  cases origin with
  | value | constant => cases h
  | inferred => exact ⟨p, hp, hname⟩
  | announced head =>
    have hhead : head.fromValue = false := h
    exact ⟨_, by simp [written, hhead], hwhole⟩
  | declaration | function | member | parameter => exact ⟨_, List.mem_singleton_self _, hwhole⟩

end Origin

/-! ### Frames -/

/-- The table knows what is written out of a type, and all other names are accounted for. -/
structure TypeTable.Vouches (t : TypeTable) (others : String → Prop) (origin : Origin)
    (type : ValueType) : Prop where
  accounts : t.Accounts others type
  written : ∀ part ∈ origin.written type, t.Knows part

namespace TypeTable.Vouches

variable {t t' : TypeTable} {others : String → Prop} {origin : Origin} {type : ValueType}

theorem mono (h : t.Vouches others origin type) (ht : t.NamesIn t') : t'.Vouches others origin type :=
  ⟨h.accounts.mono ht, fun part hpart => (h.written part hpart).mono ht⟩

/-- Where a type is written out as a whole. -/
theorem ofKnows (h : t.Knows type) (hwritten : origin.written type = [type]) : t.Vouches others origin type := by
  refine ⟨h.accounts others, fun part hpart => ?_⟩
  rw [hwritten, List.mem_singleton] at hpart
  rw [hpart]
  exact h

/-- The type of a parameter that is taken from the function. -/
theorem announced {params : List ValueType} {returns : ValueType}
    (h : t.Vouches others origin (.function params returns)) (htype : type ∈ params) :
    t.Vouches others (.announced origin) type := by
  refine ⟨fun name hname => h.accounts name (.param returns htype hname), fun part hpart name hname => ?_⟩
  have hpart : part ∈ if origin.fromValue then [] else [type] := hpart
  split at hpart
  · cases hpart
  · rename_i hvalue
    rw [List.mem_singleton] at hpart
    rw [hpart] at hname
    obtain ⟨whole, hwhole, hname⟩ := Origin.written_function (by simpa using hvalue) returns htype hname
    exact h.written whole hwhole name hname

end TypeTable.Vouches

theorem TypeTable.vouches_warrants (others : String → Prop) :
    TypeTable.Warrants TypeTable.Knows fun t => t.Vouches others where
  spread hnames hknows := hknows.mono hnames
  spreadGiven hnames hvouches := hvouches.mono hnames
  enum hname other hother := by
    cases hother
    exact hname
  struct hname hmembers other hother := by
    cases hother with
    | struct => exact hname
    | member hm hother => exact hmembers _ hm other hother
  forms htable hforms := Settled.forms htable hforms rfl
  declaration hknows _ := .ofKnows hknows rfl
  function hknows := .ofKnows hknows rfl
  member _ hknows := .ofKnows hknows rfl
  parameter hknows := .ofKnows hknows rfl
  announced hvouches hmem := hvouches.announced hmem

/-- The types of all variables are accounted for. -/
abbrev Frame.Accounted (others : String → Prop) (f : Frame) : Prop :=
  f.Warranted TypeTable.Knows fun t => t.Vouches others

namespace Frame.Accounted

variable {others : String → Prop} {f g : Frame} {name : String}

/-- What values make of accounted types. -/
theorem closed (h : f.Accounted others) :
    f.scope.Closed (fun type => ∀ name, ByValue name type → others name) (fun _ => True)
      (f.scope.types.Accounts others) where
  scalar {a} ha := by
    have hall : ∀ a ∈ Scalar.null :: Scalar.builtin, a.isEnum = false := by decide
    exact (f.scope.types.knows_scalar (hall a ha)).accounts others
  text value := fun name hname => by
    cases hname with
    | element _ hname => exact (f.scope.types.knows_scalar rfl).accounts others name hname
  lookup hlookup := by
    obtain ⟨_, _, hvouches⟩ := h.bears.origin hlookup
    exact hvouches.accounts
  written hforms := (TypeTable.Settled.forms h.table hforms rfl).accounts others
  pointer _ := fun _ hname => nomatch hname
  element ht := fun name hname => ht name (.element _ hname)
  array size ht _ := fun name hname => by
    cases hname with
    | element _ hname => exact ht name hname
  member ht hm := fun name hname => ht name (.member hm hname)
  result ht := fun name hname => ht name (.result _ hname)
  behind _ hfetched := fun name hname => .inr (hfetched name hname)
  memberBehind _ _ hfetched := fun name hname => .inr (hfetched name hname)
  resultBehind _ hfetched := fun name hname => .inr (hfetched name hname)

/-- A function with written parameters and an inferred result. -/
theorem inferred (h : f.Accounted others) (hg : g.Accounted others)
    (hnames : f.scope.types.NamesIn g.scope.types) {types : List ValueType} {returns : ValueType}
    (htypes : ∀ type ∈ types, f.scope.types.Forms false type)
    (hreturns : ∀ name, ByValue name returns → others name) :
    (g.declare name (.function types returns) .inferred).Accounted others := by
  have hknows : ∀ type ∈ types, g.scope.types.Knows type :=
    fun type htype => (TypeTable.Settled.forms h.table (htypes type htype) rfl).mono hnames
  refine hg.declare fun _ => ⟨fun other hother => ?_, hknows⟩
  cases hother with
  | param _ hp hother => exact .inl (hknows _ hp other hother)
  | result _ hother => exact .inr (hreturns other hother)

end Frame.Accounted

/-! ### Values on record -/

namespace Chronicle

/-- The name stands by value in the type of something that a value on record reads from behind a pointer,
or in the type of a result that a function's type was inferred from. -/
def Releases (c : Chronicle) (name : String) : Prop :=
  (∃ e ∈ c.values, ∃ p ∈ e :: e.inside, ∃ type, p.fetched? = some type ∧ ByValue name type) ∨
    ∃ e ∈ c.results, ∃ type, e.type? = some type ∧ ByValue name type.decay

theorem records_releases (c : Chronicle) :
    c.Records (Expr.Throughout (Expr.Meets (fun type => ∀ name, ByValue name type → c.Releases name) fun _ => True))
      fun e => ∀ type, e.type? = some type → ∀ name, ByValue name type.decay → c.Releases name := by
  refine ⟨fun e he p hp => ⟨fun type htype name hname => ?_, fun _ _ => trivial⟩,
    fun e he type htype name hname => ?_⟩
  · exact .inl ⟨e, he, p, hp, type, htype, hname⟩
  · exact .inr ⟨e, he, type, htype, hname⟩

end Chronicle

namespace Check

theorem accounted_upholds (others : String → Prop) :
    Upholds (Expr.Throughout (Expr.Meets (fun type => ∀ name, ByValue name type → others name) fun _ => True))
      (fun e => ∀ type, e.type? = some type → ∀ name, ByValue name type.decay → others name)
      (fun type => ∀ name, ByValue name type → others name) (Frame.Accounted others) where
  step hf hstep := hf.step (TypeTable.vouches_warrants others) hstep
  absorb hf hg := hf.absorb (TypeTable.vouches_warrants others) hg
  value _ hf hvalue hmeets _ := hf.declare fun _ => ⟨hvalue.closed hf.closed hmeets, nofun⟩
  define _ hf hvalue hmeets := hf.declare fun _ => ⟨hvalue.closed hf.closed hmeets, nofun⟩
  result _ hvalue hnames := hnames _ hvalue.hasType.type?
  noResult _ hname := nomatch hname
  struct hf hknown hmembers := hf.struct (TypeTable.vouches_warrants others) hknown fun m hm => (hmembers m hm).1
  params hf htakes := hf.params (TypeTable.vouches_warrants others) htakes
  inferred _ hf hg hnames htypes hreturns := hf.inferred hg hnames htypes hreturns

theorem settled_builtin : TypeTable.builtin.Settled := by
  apply TypeTable.bases_builtin
  have hall : ∀ s ∈ Scalar.builtin, s.isEnum = false := by decide
  exact fun s hs => TypeTable.builtin.knows_scalar (hall s hs)

/-- Wherever a check stands and however it got there, all names that the type of a variable has by value
are known in the scope of the variable, except those that values on record release; and whatever a
declaration writes out is known without exception. -/
theorem Visited.known_by_value {config : Config} {s : CheckState} (h : Visited config s) :
    (∃ c, Passed config ⟨s, c⟩) ∧ ∀ c, Passed config ⟨s, c⟩ → Stage.Each (fun f =>
      ∀ name type, f.scope.lookup name = some type → ∃ origin, f.history.origin? name = some origin ∧
        (∀ n, ByValue n type → f.scope.types.contains n = true ∨ c.Releases n) ∧
        ∀ part ∈ origin.written type, ∀ n, ByValue n part → f.scope.types.contains n = true) ⟨s, c⟩ := by
  refine ⟨h.passed.2, fun c hpassed => ?_⟩
  have hstart : Frame.Accounted c.Releases ⟨{}, .start⟩ := ⟨settled_builtin, fun name => .none⟩
  have hupheld := (accounted_upholds c.Releases).passed hstart hpassed c.records_releases
  refine hupheld.each.imp fun f hf name type hlookup => ?_
  obtain ⟨origin, horigin, hvouches⟩ := hf.bears.origin hlookup
  exact ⟨origin, horigin, hvouches.accounts, hvouches.written⟩

/-- A struct that is not declared stands behind a pointer, and a variable takes its type from there. -/
theorem Visited.known_by_value_undeclared :
    ∃ s, Visited {} s ∧ (s.environment.global.lookup "x").any (ValueType.holds "Foo") = true ∧
      s.environment.global.types.contains "Foo" = false ∧ (∃ c, Passed {} ⟨s, c⟩) ∧
      ∀ c, Passed {} ⟨s, c⟩ → c.Releases "Foo" := by
  have hunit : ((CheckedUnit.ofText {} "t.cu" "p: Foo[]\nx = *p\n").toOption.any fun u =>
      (u.globals.lookup "x").any (ValueType.holds "Foo") && !u.globals.types.contains "Foo") = true := by
    decide +kernel
  obtain ⟨u, hu, htest⟩ := exists_ok_of_any hunit
  obtain ⟨s, hs, hglobal⟩ := Visited.ofText hu
  rw [← hglobal, Bool.and_eq_true, Bool.not_eq_true'] at htest
  obtain ⟨hpassed, hknown⟩ := hs.known_by_value
  refine ⟨s, hs, htest.1, htest.2, hpassed, fun c hc => ?_⟩
  obtain ⟨type, hlookup, hholds⟩ := (Option.any_eq_true _ _).mp htest.1
  obtain ⟨_, _, haccounts, _⟩ := (hknown c hc).global "x" type hlookup
  rcases haccounts "Foo" (ValueType.byValue_of_holds type hholds) with hcontains | hreleases
  · exact absurd (htest.2.symm.trans hcontains) Bool.false_ne_true
  · exact hreleases

end Check

end Offside
