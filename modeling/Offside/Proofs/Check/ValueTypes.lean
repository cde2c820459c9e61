import Offside.Proofs.Check.TypingSound
import Offside.Proofs.Check.WrittenTypes

/-! Where the types of values come from.

`Expr.HasType` derives the type of an expression from those on its parts and takes the types on its names
for granted. `Expr.Draws` adds what it leaves open: the names, the casts and the members of structs that
are known by name only have their types from one scope. Every expression that a check gives back draws on
the scope that the check ends with (`Check.typed_learns`). So a property of types that holds for what a
scope says, and is kept by what operators do, holds for the types of values (`Expr.HasType.closed`). -/
namespace Offside

open List

/-! ### Drawing on a scope -/

/-- Where the type of a node is said by a scope and not by the types on its parts, the scope says so. -/
def Expr.TakenFrom (s : Scope) : Expr → Prop
  | .name m read => ∀ type, m.type = some type → s.lookup read = some type
  | .cast m _ _ | .sizeof m _ => ∀ type, m.type = some type → s.types.Forms false type
  | .member m object field arrow => ∀ type struct, m.type = some type →
      object.type? = some (if arrow then .pointer (.namedStruct struct) else .namedStruct struct) →
      ∃ passed whole, s.types.Leads struct passed whole ∧ whole.member field = some type
  | _ => True

/-- What holds of an expression and of all that it is made of. -/
def Expr.Throughout (holds : Expr → Prop) (e : Expr) : Prop := ∀ p ∈ e :: e.inside, holds p

/-- All types of the expression that are said by a scope are said by this one. -/
def Expr.Draws (s : Scope) : Expr → Prop := Expr.Throughout (Expr.TakenFrom s)

theorem Expr.draws_iff {s : Scope} {e : Expr} : e.Draws s ↔ e.TakenFrom s ∧ ∀ p ∈ e.inside, p.TakenFrom s :=
  forall_mem_cons

/-- The expression has been checked in the scope. -/
structure Expr.Has (s : Scope) (e : Expr) (type : ValueType) : Prop where
  hasType : e.HasType type
  draws : e.Draws s

namespace Check

variable {config : Config} {sources : Sources} {settled : Prop} {s s' z : CheckState} {α β : Type}

theorem binary_lasts (op : BinaryOp) (left right : ValueType) (l : Location) :
    Lasts config settled (binary op left right l) := by
  unfold binary
  split
  · exact .pure fun _ _ => rfl
  · exact .fail
  · exact .fail

theorem unary_lasts (op : UnaryOp) (place : Bool) (operand : ValueType) (l : Location) :
    Lasts config settled (unary op place operand l) := by
  unfold unary
  split
  · exact .pure fun _ _ => rfl
  · exact .fail
  · exact .fail

/-- The members of a struct that is known by name only are those it has by now. -/
theorem memberType_learns (object : ValueType) (member : String) (arrow : Bool) (l : Location) :
    Learns config settled (memberType object member arrow l) fun z type => (∀ struct,
      object = (if arrow then .pointer (.namedStruct struct) else .namedStruct struct) →
      ∃ passed whole, z.scope.types.Leads struct passed whole ∧ whole.member member = some type) ∧
      (settled → (memberType object member arrow l).run z = .ok type z) := by
  have hlasts : Lasts config settled (memberType object member arrow l) := by
    unfold memberType
    dsimp only
    split
    · refine (completeStruct_lasts _ l).bind fun struct => ?_
      split
      · rename_i hfound
        exact .pure fun _ h hs => bind_run (h hs) (by rw [hfound]; rfl)
      · exact .fail
    · exact .fail
  refine hlasts.and (Q := fun final type => ∀ struct,
    object = (if arrow then .pointer (.namedStruct struct) else .namedStruct struct) →
    ∃ passed whole, final.types.Leads struct passed whole ∧ whole.member member = some type) ?_
  intro s type s' hs hrun final hfinal struct hobject
  have hmember : ∃ whole, (completeStruct (.namedStruct struct) l).run s = .ok whole s' ∧
      whole.member member = some type := by
    rw [hobject] at hrun
    cases arrow with
    | false | true =>
      obtain ⟨whole, s1, hcomplete, hwhole⟩ := run_bind_ok.mp hrun
      split at hwhole <;> cases hwhole
      rename_i hfound
      exact ⟨whole, hcomplete, hfound⟩
  obtain ⟨whole, hcomplete, hfound⟩ := hmember
  obtain ⟨scope, _, hscope, hcomplete⟩ := run_bind_ok.mp hcomplete
  cases hscope
  dsimp only at hcomplete
  split at hcomplete
  · split at hcomplete <;> cases hcomplete
    rename_i hresolve
    obtain ⟨passed, hleads⟩ := TypeTable.leads_of_resolve hresolve
    exact ⟨passed, whole, hleads.extend fun n e he => hfinal.types n e he, hfound⟩
  · cases hcomplete

theorem lookup_known {sources : Sources} {name : String} {type : ValueType} (h : s.scope.lookup name = some type) :
    (lookup sources name).run s = .ok (some type) s := by
  refine run_bind_ok.mpr ⟨s.scope, s, rfl, ?_⟩
  rw [h]
  rfl

section

variable (hF : Footing config sources settled)
include hF

/-- A name that is found is known from then on. -/
theorem lookup_learns (name : String) : Learns config settled (lookup sources name) fun z found =>
    ∀ type, found = some type → z.scope.lookup name = some type := by
  refine ((Learns.part hF (hF.loads.lookup name) (.name name)).and
    (Q := fun final found => ∀ type, found = some type → final.lookup name = some type) ?_).weaken fun _ _ h => h.1
  rintro s _ s' _ hrun final hfinal type rfl
  refine hfinal.names name type ?_
  obtain ⟨scope, _, hscope, hrun⟩ := run_bind_ok.mp hrun
  cases hscope
  split at hrun
  · cases hrun
    assumption
  · split at hrun
    · obtain ⟨_, s1, _, hrun⟩ := run_bind_ok.mp hrun
      obtain ⟨_, _, hscope, hrun⟩ := run_bind_ok.mp hrun
      cases hscope
      cases hfound : s1.scope.lookup name with
      | none =>
        rw [hfound] at hrun
        cases hrun
      | some found =>
        rw [hfound] at hrun
        cases hrun
        exact hfound
    · cases hrun

/-- An expression that was checked draws on the scope, and is checked again with the same outcome. -/
structure Rechecks (sources : Sources) (settled : Prop) (e : Expr) (z : CheckState) (r : Expr × ValueType) : Prop where
  draws : r.1.Draws z.scope
  origin : r.1.origin = e.origin
  again : settled → (typed sources r.1).run z = .ok r z

mutual

theorem typed_learns : (e : Expr) → Learns config settled (typed sources e) (Rechecks sources settled e)
  | .int _ _ | .float _ _ | .char _ _ | .string _ _ | .null _ =>
    .pure fun _ => ⟨Expr.draws_iff.mpr ⟨trivial, nofun⟩, rfl, fun _ => rfl⟩
  | .name _ name => by
    refine (lookup_learns hF name).bind fun found => ?_
    cases found with
    | none => exact .fail
    | some type =>
      refine .pure fun z hfound => ⟨Expr.draws_iff.mpr ⟨hfound, nofun⟩, rfl, fun _ => ?_⟩
      exact bind_run (lookup_known (hfound type rfl)) rfl
  | .array m items => by
    refine (arrayItems_learns none items).bind fun ⟨items', element⟩ => ?_
    cases element with
    | none => exact .fail
    | some element =>
      refine .pure fun z hitems => ⟨Expr.draws_iff.mpr ⟨trivial, hitems.1⟩, rfl, fun h => ?_⟩
      exact bind_run (hitems.2 h) rfl
  | .binary m op left right => by
    refine (typed_learns left).bind fun l => (typed_learns right).bind fun r => ?_
    refine (binary_lasts op l.2 r.2 m.span.start).bind fun t => .pure fun z ht hright hleft => ⟨?_, rfl, fun h => ?_⟩
    · exact Expr.draws_iff.mpr ⟨trivial, forall_mem_append.mpr ⟨hleft.draws, hright.draws⟩⟩
    · exact bind_run (hleft.again h) (bind_run (hright.again h) (bind_run (ht h) rfl))
  | .unary m op operand => by
    refine (typed_learns operand).bind fun r => (unary_lasts op r.1.isPlace r.2 m.span.start).bind fun t => ?_
    refine .pure fun z ht hoperand => ⟨Expr.draws_iff.mpr ⟨trivial, hoperand.draws⟩, rfl, fun h => ?_⟩
    exact bind_run (hoperand.again h) (bind_run (ht h) rfl)
  | .call m callee arguments => by
    refine (typed_learns callee).bind fun ⟨f, c⟩ => ?_
    dsimp only
    cases hcallable : c.callable? with
    | none => exact .fail
    | some signature =>
      refine (Learns.require _ _ _).bind fun _ => (callArguments_learns _ _ _ arguments).bind fun arguments' => ?_
      refine .pure fun z harguments henough hcallee => ⟨?_, rfl, fun h => ?_⟩
      · exact Expr.draws_iff.mpr ⟨trivial, forall_mem_append.mpr ⟨hcallee.draws, harguments.1⟩⟩
      · refine bind_run (hcallee.again h) ?_
        dsimp only
        rw [hcallable]
        rw [← harguments.2.1] at henough
        exact bind_run (require_run henough _ _ z) (bind_run (harguments.2.2 h) rfl)
  | .index m object position => by
    refine (typed_learns object).bind fun ⟨o, objectType⟩ => (typed_learns position).bind fun p => ?_
    dsimp only
    cases htarget : objectType.target? with
    | none => exact .fail
    | some element =>
      refine (Learns.require _ _ _).bind fun _ => .pure fun z hinteger hposition hobject => ⟨?_, rfl, fun h => ?_⟩
      · exact Expr.draws_iff.mpr ⟨trivial, forall_mem_append.mpr ⟨hobject.draws, hposition.draws⟩⟩
      · refine bind_run (hobject.again h) (bind_run (hposition.again h) ?_)
        dsimp only
        rw [htarget]
        exact bind_run (require_run hinteger _ _ z) rfl
  | .member m object member arrow => by
    have htype : Yields (typed sources object) fun r => r.1.type? = some r.2 :=
      fun s r s' hs hrun => (typed_hasType _ object s r s' hs hrun).type?
    refine ((typed_learns object).and (Q := fun _ r => r.1.type? = some r.2)
      fun s r s' _ hrun _ _ => htype s r s' trivial hrun).bind fun o => ?_
    refine (memberType_learns o.2 member arrow m.span.start).bind fun t => ?_
    refine .pure fun z hmember hobject => ⟨Expr.draws_iff.mpr ⟨fun type struct ht hstruct => ?_, ?_⟩, rfl, fun h => ?_⟩
    · cases ht
      exact hmember.1 struct (Option.some.inj (hobject.1.symm.trans hstruct))
    · exact hobject.2.draws
    · exact bind_run (hobject.2.again h) (bind_run (hmember.2 h) rfl)
  | .cast m target operand => by
    refine (resolveWith_learns hF false target).bind fun targetType => (typed_learns operand).bind fun r => ?_
    refine (Learns.require _ _ _).bind fun _ => .pure fun z hcan hoperand htarget =>
      ⟨Expr.draws_iff.mpr ⟨fun type htype => ?_, hoperand.draws⟩, rfl, fun h => ?_⟩
    · cases htype
      exact htarget.1
    · exact bind_run (htarget.2 h) (bind_run (hoperand.again h) (bind_run (require_run hcan _ _ z) rfl))
  | .sizeof m target => by
    refine (resolveWith_learns hF false target).bind fun type => (sizeType_learns hF).bind fun size => ?_
    refine .pure fun z hsize htarget => ⟨Expr.draws_iff.mpr ⟨fun type htype => ?_, nofun⟩, rfl, fun h => ?_⟩
    · cases htype
      exact hsize.1
    · exact bind_run (htarget.2 h) (bind_run (hsize.2 h) rfl)

theorem arrayItems_learns (element : Option ValueType) : (es : List Expr) →
    Learns config settled (arrayItems sources element es) fun z r =>
      (∀ p ∈ Expr.allOf r.1, p.TakenFrom z.scope) ∧
      (settled → (arrayItems sources element r.1).run z = .ok r z)
  | [] => .pure fun _ => ⟨nofun, fun _ => rfl⟩
  | e :: rest => by
    refine (typed_learns e).bind fun r => ?_
    cases element with
    | none =>
      refine (arrayItems_learns (some r.2) rest).bind fun more => .pure fun z hmore hitem => ⟨?_, fun h => ?_⟩
      · exact forall_mem_append.mpr ⟨hitem.draws, hmore.1⟩
      · exact bind_run (hitem.again h) (bind_run (hmore.2 h) rfl)
    | some expected =>
      refine (Learns.require _ _ _).bind fun _ => (arrayItems_learns (some expected) rest).bind fun more => ?_
      refine .pure fun z hmore hfits hitem => ⟨forall_mem_append.mpr ⟨hitem.draws, hmore.1⟩, fun h => ?_⟩
      rw [← hitem.origin] at hfits
      exact bind_run (hitem.again h) (bind_run (require_run hfits _ _ z) (bind_run (hmore.2 h) rfl))

theorem callArguments_learns (callee : String) (number : Nat) (params : List ValueType) : (es : List Expr) →
    Learns config settled (callArguments sources callee number params es) fun z r =>
      (∀ p ∈ Expr.allOf r, p.TakenFrom z.scope) ∧ r.length = es.length ∧
      (settled → (callArguments sources callee number params r).run z = .ok r z)
  | [] => .pure fun _ => ⟨nofun, rfl, fun _ => rfl⟩
  | e :: rest => by
    have hrest := callArguments_learns callee (number + 1) params.tail rest
    refine (typed_learns e).bind fun r => ?_
    cases params <;>
      refine (Learns.require _ _ _).bind fun _ => hrest.bind fun more => .pure fun z hmore hfits hitem =>
        ⟨forall_mem_append.mpr ⟨hitem.draws, hmore.1⟩, congrArg (· + 1) hmore.2.1, fun h => ?_⟩
    · exact bind_run (hitem.again h) (bind_run (require_run hfits _ _ z) (bind_run (hmore.2.2 h) rfl))
    · rw [← hitem.origin] at hfits
      exact bind_run (hitem.again h) (bind_run (require_run hfits _ _ z) (bind_run (hmore.2.2 h) rfl))

end

end

/-- What a check gives back has been checked in the scope at its end. -/
theorem typed_has {depth : Nat} {e checked : Expr} {type : ValueType} (hs : s.Furnished)
    (hrun : (typed (sourcesTo config depth) e).run s = .ok (checked, type) s') : checked.Has s'.scope type where
  hasType := typed_hasType _ e s _ s' trivial hrun
  draws :=
    have hF : Footing config (sourcesTo config depth) False := ⟨reads_sourcesTo config depth, nofun⟩
    ((typed_learns hF e s _ s' hs hrun).2.2 s' (.refl _) nofun).2.draws

end Check

/-! ### What holds of the types of values -/

/-- The type of what a node reads from behind a pointer. -/
def Expr.fetched? : Expr → Option ValueType
  | .unary m .dereference operand => if operand.type?.any ValueType.isPointer then m.type else none
  | .index m object _ => if object.type?.any ValueType.isPointer then m.type else none
  | .call m callee _ => if callee.type?.any ValueType.isPointer then m.type else none
  | .member m _ _ arrow => if arrow then m.type else none
  | _ => none

/-- The type of the items that are listed. -/
def Expr.listed? : Expr → Option ValueType
  | .array _ (first :: _) => first.type?
  | _ => none

/-- What a node reads from behind a pointer and what it lists is of such types. -/
def Expr.Meets (fetched listed : ValueType → Prop) (e : Expr) : Prop :=
  (∀ type, e.fetched? = some type → fetched type) ∧ ∀ type, e.listed? = some type → listed type

/-- A property of types that a scope warrants and that operators keep, if what is read from behind
pointers and what is listed is of given types. -/
structure Scope.Closed (s : Scope) (fetched listed φ : ValueType → Prop) : Prop where
  scalar {a : Scalar} : a ∈ Scalar.null :: Scalar.builtin → φ (.scalar a)
  text (value : String) : φ (.ofString value)
  lookup {name : String} {t : ValueType} : s.lookup name = some t → φ t
  written {t : ValueType} : s.types.Forms false t → φ t
  pointer {t : ValueType} : φ t → φ (.pointer t)
  element {t : ValueType} {size : ArraySize} : φ (.array t size) → φ t
  array {t : ValueType} (size : ArraySize) : φ t → listed t → φ (.array t size)
  member {name : String} {members : List (String × ValueType)} {m : String × ValueType} :
    φ (.struct name members) → m ∈ members → φ m.2
  result {params : List ValueType} {returns : ValueType} : φ (.function params returns) → φ returns
  behind {t : ValueType} : φ (.pointer t) → fetched t → φ t
  memberBehind {name : String} {members : List (String × ValueType)} {m : String × ValueType} :
    φ (.pointer (.struct name members)) → m ∈ members → fetched m.2 → φ m.2
  resultBehind {params : List ValueType} {returns : ValueType} :
    φ (.pointer (.function params returns)) → fetched returns → φ returns

namespace Scope.Closed

variable {s : Scope} {fetched listed φ : ValueType → Prop} (h : s.Closed fetched listed φ) {t left right : ValueType}
include h

theorem int : φ .int := h.scalar (by decide)

theorem decay (ht : φ t) : φ t.decay := by
  cases t with
  | array element size => exact h.pointer (h.element ht)
  | _ => exact ht

theorem promote (ht : φ t) : φ t.promote := by
  unfold ValueType.promote
  split
  · exact h.int
  · exact ht

/-- The type in which numbers are combined is one of theirs or a builtin one. -/
theorem combine (hleft : φ left) (hright : φ right) : φ (ValueType.combine left right) := by
  unfold ValueType.combine
  split
  · split
    · exact h.scalar (show Scalar.double ∈ _ by decide)
    · exact h.scalar (show Scalar.float ∈ _ by decide)
  split
  · split
    · exact hleft
    · exact hright
  split
  · exact hleft
  split
  · exact hleft
  split
  · exact hright
  · exact h.int

theorem arithmetic (hleft : φ left) (hright : φ right)
    (hresult : ValueType.arithmeticResult left right = .ok t) : φ t := by
  unfold ValueType.arithmeticResult ValueType.dominant at hresult
  split at hresult <;> cases hresult
  rename_i hdominant
  split at hdominant
  · cases hdominant
  split at hdominant
  · cases hdominant
  split at hdominant <;> cases hdominant
  exact h.combine (h.promote hleft) (h.promote hright)

theorem sum {op : BinaryOp} (hleft : φ left) (hright : φ right)
    (hresult : ValueType.sumResult op left right = .ok t) : φ t := by
  unfold ValueType.sumResult at hresult
  split at hresult
  · cases hresult
    exact h.decay hleft
  split at hresult
  · cases hresult
    exact h.decay hright
  split at hresult
  · split at hresult <;> cases hresult
    exact h.scalar (show Scalar.long ∈ _ by decide)
  · exact h.arithmetic hleft hright hresult

theorem binary {op : BinaryOp} (hleft : φ left) (hright : φ right)
    (hresult : ValueType.binaryResult op left right = .ok t) : φ t := by
  unfold ValueType.binaryResult at hresult
  cases op with
  | logicalAnd | logicalOr | equal | notEqual | less | greater | lessEqual | greaterEqual =>
    dsimp only at hresult
    split at hresult <;> cases hresult
    exact h.int
  | add | sub => exact h.sum hleft hright hresult
  | mul | div => exact h.arithmetic hleft hright hresult
  | mod | bitAnd | bitOr | bitXor =>
    dsimp only at hresult
    split at hresult
    · exact h.arithmetic hleft hright hresult
    · cases hresult
  | leftShift | rightShift =>
    dsimp only at hresult
    split at hresult <;> cases hresult
    exact h.promote hleft

/-- What a star or an index gives, where a pointer has to be one that may be read from. -/
theorem target {object : ValueType} (hobject : φ object) (htarget : object.target? = some t)
    (hfetched : object.isPointer → fetched t) : φ t := by
  unfold ValueType.target? at htarget
  cases object with
  | pointer inner =>
    dsimp only [ValueType.decay] at htarget
    split at htarget <;> cases htarget
    exact h.behind hobject (hfetched rfl)
  | array element size =>
    dsimp only [ValueType.decay] at htarget
    split at htarget <;> cases htarget
    exact h.element hobject
  | scalar | struct | function => cases htarget

theorem unary {op : UnaryOp} {place : Bool} {operand : ValueType} (hoperand : φ operand)
    (hresult : ValueType.unaryResult op place operand = .ok t)
    (hfetched : op = .dereference → operand.isPointer → fetched t) : φ t := by
  unfold ValueType.unaryResult at hresult
  cases op with
  | plus | minus | bitNot =>
    dsimp only at hresult
    split at hresult <;> cases hresult
    exact h.promote hoperand
  | logicalNot =>
    dsimp only at hresult
    split at hresult <;> cases hresult
    exact h.int
  | addressOf =>
    dsimp only at hresult
    split at hresult <;> cases hresult
    exact h.pointer hoperand
  | dereference =>
    dsimp only at hresult
    split at hresult <;> cases hresult
    rename_i htarget
    exact h.target hoperand htarget (hfetched rfl)
  | preIncrement | preDecrement | postIncrement | postDecrement =>
    dsimp only at hresult
    split at hresult
    · cases hresult
    split at hresult <;> cases hresult
    exact hoperand

theorem call {callee : ValueType} {params : List ValueType} (hcallee : φ callee)
    (hcall : callee.callable? = some (params, t))
    (hfetched : callee.isPointer → fetched t) : φ t := by
  unfold ValueType.callable? at hcall
  split at hcall <;> cases hcall
  · exact h.result hcallee
  · exact h.resultBehind hcallee (hfetched rfl)

end Scope.Closed

/-- The member of a struct is one of those it has. -/
theorem ValueType.mem_of_member {struct t : ValueType} {name : String} (h : struct.member name = some t) :
    ∃ s members m, struct = .struct s members ∧ m ∈ members ∧ m.2 = t := by
  cases struct with
  | struct s members =>
    obtain ⟨m, hm, rfl⟩ := Option.map_eq_some_iff.mp h
    exact ⟨s, members, m, rfl, mem_of_find?_eq_some hm, rfl⟩
  | scalar | pointer | array | function => cases h

namespace Expr

theorem Throughout.self {holds : Expr → Prop} {e : Expr} (h : e.Throughout holds) : holds e := h _ mem_cons_self

theorem Throughout.part {holds : Expr → Prop} {e p : Expr} (h : e.Throughout holds)
    (hp : p :: p.inside ⊆ e.inside) : p.Throughout holds :=
  fun q hq => h q (mem_cons_of_mem _ (hp hq))

variable {s : Scope} {fetched listed φ : ValueType → Prop}

/-- Whatever a scope warrants and operators keep holds for the type of an expression that was checked in
the scope. -/
theorem HasType.closed (hφ : s.Closed fetched listed φ) : (e : Expr) → (t : ValueType) → e.HasType t →
    e.Throughout (fun p => p.TakenFrom s ∧ p.Meets fetched listed) → φ t
  | .int .., t, h, _ => by
    cases h
    exact hφ.int
  | .float .., t, h, _ => by
    cases h
    exact hφ.scalar (show Scalar.float ∈ _ by decide)
  | .char .., t, h, _ => by
    cases h
    exact hφ.scalar (show Scalar.char ∈ _ by decide)
  | .string .., t, h, _ => by
    cases h
    exact hφ.text _
  | .null .., t, h, _ => by
    cases h
    exact hφ.scalar (show Scalar.null ∈ _ by decide)
  | .name .., t, h, hnodes => by
    cases h
    exact hφ.lookup (hnodes.self.1 t rfl)
  | .sizeof .., t, h, hnodes => by
    cases h
    exact hφ.written (hnodes.self.1 t rfl)
  | .cast .., t, h, hnodes => by
    cases h
    exact hφ.written (hnodes.self.1 t rfl)
  | .array m [], t, h, _ => nomatch h
  | .array m (first :: rest), t, h, hnodes => by
    cases h with
    | array hfirst _ ht =>
      rw [ht]
      exact hφ.array _ (HasType.closed hφ first _ hfirst (hnodes.part (subset_append_left _ _)))
        (hnodes.self.2.2 _ hfirst.type?)
  | .binary m op left right, t, h, hnodes => by
    cases h with
    | binary hleft hright hresult =>
      exact hφ.binary (HasType.closed hφ left _ hleft (hnodes.part (subset_append_left _ _)))
        (HasType.closed hφ right _ hright (hnodes.part (subset_append_right _ _))) hresult
  | .unary m op operand, t, h, hnodes => by
    cases h with
    | @unary _ _ _ a _ hoperand hresult =>
      have hpart := HasType.closed hφ operand _ hoperand (hnodes.part (List.Subset.refl _))
      refine hφ.unary hpart hresult fun hop hpointer => ?_
      apply hnodes.self.2.1
      subst hop
      simp [fetched?, hoperand.type?, hpointer]
  | .call m callee arguments, t, h, hnodes => by
    cases h with
    | call hcallee hcall _ _ =>
      have hpart := HasType.closed hφ callee _ hcallee (hnodes.part (subset_append_left _ _))
      refine hφ.call hpart hcall fun hpointer => ?_
      apply hnodes.self.2.1
      simp [fetched?, hcallee.type?, hpointer]
  | .index m object position, t, h, hnodes => by
    cases h with
    | index hobject htarget _ _ =>
      have hpart := HasType.closed hφ object _ hobject (hnodes.part (subset_append_left _ _))
      refine hφ.target hpart htarget fun hpointer => ?_
      apply hnodes.self.2.1
      simp [fetched?, hobject.type?, hpointer]
  | .member m object field arrow, t, h, hnodes => by
    cases h with
    | @member _ _ _ _ struct _ hobject hmember =>
      have hstruct := HasType.closed hφ object _ hobject (hnodes.part (List.Subset.refl _))
      obtain ⟨n, members, rfl, hmember⟩ := hmember
      by_cases hknown : members = []
      · -- A struct that is known by name only has its members from the table.
        subst hknown
        obtain ⟨passed, whole, hleads, hwhole⟩ := hnodes.self.1 t n rfl hobject.type?
        obtain ⟨n', members', m', rfl, hmem, rfl⟩ := ValueType.mem_of_member hwhole
        exact hφ.member (hφ.written (.named hleads)) hmem
      · obtain ⟨n', members', m', heq, hmem, rfl⟩ := ValueType.mem_of_member (hmember hknown)
        cases heq
        cases arrow with
        | false => exact hφ.member hstruct hmem
        | true => exact hφ.memberBehind hstruct hmem (hnodes.self.2.1 _ rfl)

/-- The type of an expression that was checked in a scope. -/
theorem Has.closed {e : Expr} {t : ValueType} (h : e.Has s t) (hφ : s.Closed fetched listed φ)
    (hmeets : e.Throughout (Meets fetched listed)) : φ t :=
  HasType.closed hφ e t h.hasType fun p hp => ⟨h.draws p hp, hmeets p hp⟩

end Expr

end Offside
