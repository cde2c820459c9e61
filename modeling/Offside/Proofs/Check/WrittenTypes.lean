import Offside.Proofs.Check.Transparency

/-! Types that are written.

A type that a program writes down is made of names that the table of types knows, of the structs that may
stand behind a pointer before they are declared, and of pointers, arrays and functions
(`TypeTable.Forms`). Whatever a check resolves is of this form in the table that the check ends with
(`Check.resolve_forms`): the headers it reads on the way only add names. And it is resolved to the same type
at any later point, if what was unknown is still so then (`Check.Settled`): behind a pointer an unknown name
stands for a struct, and a size that is not constant for itself. -/
namespace Offside

variable {name : String} {type : ValueType}

namespace TypeTable

/-- Following a name to a type passes along a chain of aliases. -/
theorem leads_of_follow {t : TypeTable} {fuel : Nat} {seen : List String} (h : t.follow fuel seen name = .ok type) :
    ∃ passed, t.Leads name passed type := by
  induction fuel generalizing seen name with
  | zero => cases h
  | succ fuel ih =>
    unfold follow at h
    split at h
    · cases h
    · split at h
      · rename_i hentry
        cases h
        exact ⟨[], .base hentry⟩
      · rename_i hentry
        obtain ⟨passed, hleads⟩ := ih h
        exact ⟨_, .step hentry hleads⟩
      · cases h

theorem leads_of_resolve {t : TypeTable} (h : t.resolve name = .ok type) : ∃ passed, t.Leads name passed type :=
  leads_of_follow h

/-- The entry at the end of a chain of aliases. -/
theorem Leads.entry {t : TypeTable} {name : String} {passed : List String} {type : ValueType}
    (h : t.Leads name passed type) : ∃ last, t.entry? last = some (.base type) := by
  induction h with
  | base hentry => exact ⟨_, hentry⟩
  | step _ _ ih => exact ih

/-- The types that can be written where a table is in force, given whether they stand behind a
pointer. -/
inductive Forms (t : TypeTable) : Bool → ValueType → Prop where
  | scalar {behindPointer : Bool} {s : Scalar} : s ∈ Scalar.vararg :: Scalar.builtin →
      Forms t behindPointer (.scalar s)
  | named {behindPointer : Bool} {name : String} {passed : List String} {type : ValueType} :
      t.Leads name passed type → Forms t behindPointer type
  /-- A struct that may be declared later. -/
  | forward (name : String) : Forms t true (.namedStruct name)
  | pointer {behindPointer : Bool} {target : ValueType} :
      Forms t true target → Forms t behindPointer (.pointer target)
  | array {behindPointer : Bool} {element : ValueType} (size : ArraySize) :
      Forms t behindPointer element → element.isVoid = false →
      Forms t behindPointer (.array element size)
  | function {behindPointer : Bool} {params : List ValueType} {returns : ValueType} :
      (∀ p ∈ params, Forms t false p) → Forms t false returns →
      Forms t behindPointer (.function params returns)

theorem Forms.int (t : TypeTable) : t.Forms false .int := .scalar (by decide)

/-- What can be written stays so while entries are added. -/
theorem Forms.extend {t t' : TypeTable} {behindPointer : Bool} {type : ValueType} (h : t.Forms behindPointer type)
    (hkeep : ∀ name entry, t.entry? name = some entry → t'.entry? name = some entry) :
    t'.Forms behindPointer type := by
  induction h with
  | scalar hs => exact .scalar hs
  | named hleads => exact .named (hleads.extend hkeep)
  | forward name => exact .forward name
  | pointer _ ih => exact .pointer ih
  | array size _ hvoid ih => exact .array size ih hvoid
  | function _ _ ihparams ihreturns => exact .function ihparams ihreturns

end TypeTable

namespace Check

variable {sources : Sources} {deep : Prop} {s s' : CheckState}

/-! ### What reading headers leaves of the current scope -/

theorem HeaderEffect.scope {failure : Option Failure} (h : HeaderEffect deep s failure s') :
    s.scope.ExtendsTo s'.scope :=
  CheckState.scope_of_forall₂ h.locals h.global

/-- Reading headers, at any depth. -/
theorem reads_sourcesTo (config : Config) (depth : Nat) :
    Loads (Reads False) (sourcesTo config depth) where
  toChains := reads_chains False
  load {header} hmem := by
    intro s hs
    rw [sourcesTo_headers] at hmem
    cases depth with
    | zero => exact .fail hs nofun
    | succ depth =>
      exact { load_reads config depth (config.mem_standard hmem) s hs with plain := nofun }

theorem reads_none : Loads (Reads False) .none where
  toChains := reads_chains False
  load h := nomatch h

/-- A part that does nothing but read headers keeps what the scope says. -/
theorem reads_scope {α : Type} {p : Check α} {a : α} (hp : Ends (Reads False) p) (hs : s.Furnished)
    (h : p.run s = .ok a s') : s'.Furnished ∧ s.scope.ExtendsTo s'.scope :=
  have heffect := (hp s).ok h hs
  ⟨heffect.furnished, heffect.scope⟩

end Check

/-! ### Answers that stay right -/

theorem Expr.fold_congr {c c' : Dictionary Int} (h : ∀ n, c.get? n = c'.get? n) : (e : Expr) → e.fold c = e.fold c'
  | .name _ n => h n
  | .unary _ _ e => by simp only [fold, fold_congr h e]
  | .binary _ _ l r => by simp only [fold, fold_congr h l, fold_congr h r]
  | .int _ _ | .float _ _ | .char _ _ | .string _ _ | .null _ | .array _ _ | .call _ _ _
  | .index _ _ _ | .member _ _ _ _ | .cast _ _ _ | .sizeof _ _ => rfl

namespace Check

variable {config : Config} {sources : Sources} {settled : Prop} {s s' t z : CheckState} {α β : Type}

/-- The first state is one that a check goes through, and what it does not know of types and constants is not
known in the second, unless a header declares it. -/
structure Settled (config : Config) (s z : CheckState) : Prop where
  reached : Reached config s
  types : ∀ n, z.scope.types.contains n → s.scope.types.contains n ∨ (Header.ofType? config.headers n).isSome
  constants : ∀ n, z.scope.constants.get? n = s.scope.constants.get? n

theorem Settled.between (h : Settled config s z) (ht : Reached config t) (hst : s.scope.ExtendsTo t.scope)
    (htz : t.scope.ExtendsTo z.scope) : Settled config t z where
  reached := ht
  types n hn := (h.types n hn).imp_left (hst.coveredBy.types n)
  constants n := by
    cases hs : s.scope.constants.get? n with
    | some v => rw [h.constants, hs, hst.constants n v hs]
    | none =>
      cases hv : t.scope.constants.get? n with
      | none => rw [h.constants, hs]
      | some v => rw [htz.constants n v hv]

/-- Sources of headers; where something is to be settled, those of a program's check. -/
structure Footing (config : Config) (sources : Sources) (settled : Prop) : Prop where
  loads : Loads (Reads False) sources
  program : settled → ∃ depth, sources = sourcesTo config depth

/-- A part that only reads headers, and whose answer is right in every state whose scope says what the one at
its end says, and perhaps in more ways if that is settled. -/
def Learns (config : Config) (settled : Prop) (p : Check α) (post : CheckState → α → Prop) : Prop :=
  ∀ s a s', s.Furnished → p.run s = .ok a s' → s'.Furnished ∧ s.scope.ExtendsTo s'.scope ∧
    ∀ z, s'.scope.ExtendsTo z.scope → (settled → Settled config s z) → (settled → Settled config s' z) ∧ post z a

/-- A part that gives the same again. -/
abbrev Lasts (config : Config) (settled : Prop) (p : Check α) : Prop :=
  Learns config settled p fun z a => settled → p.run z = .ok a z

theorem bind_run {p : Check α} {f : α → Check β} {a : α} {b : β} (h : p.run z = .ok a z)
    (h' : (f a).run z = .ok b z) : (p >>= f).run z = .ok b z :=
  run_bind_ok.mpr ⟨a, z, h, h'⟩

theorem require_run {kept : Bool} (h : kept) (fault : SemanticFault) (l : Location) (s : CheckState) :
    (require kept fault l).run s = .ok () s := by
  rw [require, if_pos h]
  rfl

namespace Learns

variable {p : Check α} {f : α → Check β} {mid : CheckState → α → Prop} {post : CheckState → β → Prop}

theorem bind (hp : Learns config settled p mid)
    (hf : ∀ a, Learns config settled (f a) fun z b => mid z a → post z b) : Learns config settled (p >>= f) post := by
  intro s b s' hs hrun
  obtain ⟨a, t, ha, hb⟩ := run_bind_ok.mp hrun
  obtain ⟨ht, hfirst, hmid⟩ := hp s a t hs ha
  obtain ⟨hs', hsecond, hpost⟩ := hf a t b s' ht hb
  refine ⟨hs', hfirst.trans hsecond, fun z hend hsettled => ?_⟩
  obtain ⟨hsettled, ha⟩ := hmid z (hsecond.trans hend) hsettled
  obtain ⟨hsettled, hb⟩ := hpost z hend hsettled
  exact ⟨hsettled, hb ha⟩

theorem pure {b : β} (h : ∀ z, post z b) : Learns config settled (Pure.pure b) post := by
  intro s a s' hs hrun
  cases hrun
  exact ⟨hs, .refl _, fun z _ hsettled => ⟨hsettled, h z⟩⟩

theorem fail {fault : SemanticFault} {l : Location} : Learns config settled (Check.fail fault l : Check β) post :=
  fun _ _ _ _ hrun => nomatch hrun

theorem weaken {stronger : CheckState → β → Prop} {q : Check β} (h : Learns config settled q stronger)
    (hpost : ∀ z b, stronger z b → post z b) : Learns config settled q post := by
  intro s b s' hs hrun
  obtain ⟨hs', hextends, hstronger⟩ := h s b s' hs hrun
  exact ⟨hs', hextends, fun z hend hsettled => (hstronger z hend hsettled).imp_right (hpost _ _)⟩

/-- A part that only reads headers, if its answer does not matter. -/
theorem part (hF : Footing config sources settled) (hp : Ends (Reads False) p) (hpart : Part sources p) :
    Learns config settled p fun _ _ => True := by
  intro s a s' hs hrun
  obtain ⟨hs', hextends⟩ := reads_scope hp hs hrun
  refine ⟨hs', hextends, fun z hend hsettled => ⟨fun h => ?_, trivial⟩⟩
  obtain ⟨depth, rfl⟩ := hF.program h
  exact (hsettled h).between (stateAfter_ok hrun ▸ .behind depth hpart (hsettled h).reached) hextends hend

/-- What else is known of the answer, by what the scope at the end says. -/
theorem and {post : CheckState → α → Prop} {Q : Scope → α → Prop} (hp : Learns config settled p post)
    (hp' : ∀ s a s', s.Furnished → p.run s = .ok a s' → ∀ final, s'.scope.ExtendsTo final → Q final a) :
    Learns config settled p fun z a => Q z.scope a ∧ post z a := by
  intro s a s' hs hrun
  obtain ⟨hs', hextends, hpost⟩ := hp s a s' hs hrun
  refine ⟨hs', hextends, fun z hend hsettled => ?_⟩
  exact (hpost z hend hsettled).imp_right fun h => ⟨hp' s a s' hs hrun _ hend, h⟩

theorem require (kept : Bool) (fault : SemanticFault) (l : Location) :
    Learns config settled (Check.require kept fault l) fun _ _ => kept := by
  intro s a s' hs hrun
  obtain ⟨hkept, rfl⟩ := require_ok hrun
  exact ⟨hs, .refl _, fun _ _ hsettled => ⟨hsettled, hkept⟩⟩

end Learns

/-- A part that asks the scope for something that is the same later on. -/
theorem Lasts.reading {f : Scope → Check β} (hf : ∀ scope, Lasts config settled (f scope))
    (hsame : ∀ {s z : CheckState}, Settled config s z → s.scope.ExtendsTo z.scope →
      (∃ a s', (f s.scope).run s = .ok a s') → f z.scope = f s.scope) : Lasts config settled (scope >>= f) := by
  intro s a s' hs hrun
  have hrun : (f s.scope).run s = .ok a s' := hrun
  obtain ⟨hs', hextends, hagain⟩ := hf s.scope s a s' hs hrun
  refine ⟨hs', hextends, fun z hend hsettled => ⟨(hagain z hend hsettled).1, fun h => ?_⟩⟩
  show (f z.scope).run z = .ok a z
  rw [hsame (hsettled h) (hextends.trans hend) ⟨a, s', hrun⟩]
  exact (hagain z hend hsettled).2 h

theorem arraySize_lasts (size : Expr) : Lasts config settled (arraySize size) := by
  refine .reading (fun scope => ?_) fun {s z} hsettled _ _ => ?_
  · split
    · split
      · exact .fail
      · exact .pure fun _ _ => rfl
    · exact .pure fun _ _ => rfl
  · rw [Expr.fold_congr hsettled.constants]

theorem completeStruct_lasts (t : ValueType) (l : Location) : Lasts config settled (completeStruct t l) := by
  unfold completeStruct
  split
  · rename_i name
    refine .reading (fun scope => ?_) fun {s z} hsettled hend hrun => ?_
    · dsimp only
      split
      · split
        · exact .pure fun _ _ => rfl
        · exact .fail
      · exact .fail
    · dsimp only at hrun ⊢
      by_cases hknown : s.scope.types.contains name
      · rw [hknown, hend.coveredBy.types name hknown, hsettled.reached.grounded.resolve_extend hend.types hknown]
      · rw [if_neg hknown] at hrun
        obtain ⟨_, _, hrun⟩ := hrun
        cases hrun
  · exact .pure fun _ _ => rfl

/-! ### Names of types -/

/-- Behind the point where the name of a type was needed, the name is known if a header declares it. -/
theorem needType_knows {depth : Nat} {a : Unit} (hs : Reached config s)
    (h : (needType (sourcesTo config depth) name).run s = .ok a s') (hheader : (Header.ofType? config.headers name).isSome) :
    s'.scope.types.contains name := by
  by_cases hknown : s.scope.types.contains name
  · rw [needType_known hknown] at h
    cases h
    exact hknown
  · obtain ⟨header, hheader⟩ := Option.isSome_iff_exists.mp hheader
    have hs' : Reached config s' := stateAfter_ok h ▸ .behind depth (.typeName name) hs
    rw [needType_unknown hknown, sourcesTo_headers, hheader] at h
    cases depth with
    | zero => cases h
    | succ depth =>
      have hmem := config.mem_standard (List.mem_of_find?_eq_some hheader)
      have hdeclares := (hs.load_transparent.2 depth header s' hmem h).declares _
        (List.mem_append_right _ List.mem_cons_self)
      exact hs'.visible.current.types name (hdeclares.types name (by simpa using List.find?_some hheader))

/-- Once the name of a type was needed, the same is known of it later on. -/
theorem needType_again {depth : Nat} {a : Unit} (hs : Reached config s)
    (h : (needType (sourcesTo config depth) name).run s = .ok a t) (ht : Settled config t z)
    (htz : t.scope.ExtendsTo z.scope) : (needType (sourcesTo config depth) name).run z = .ok () z ∧
      z.scope.types.contains name = t.scope.types.contains name ∧
      z.scope.types.resolve name = t.scope.types.resolve name := by
  by_cases hknown : t.scope.types.contains name
  · have hthere := htz.coveredBy.types name hknown
    exact ⟨needType_known hthere, hthere.trans hknown.symm, ht.reached.grounded.resolve_extend htz.types hknown⟩
  · -- No header declares the name, so that it is not known later either.
    have hnone : Header.ofType? config.headers name = none := by
      rw [← Option.not_isSome_iff_eq_none]
      exact fun hheader => hknown (needType_knows hs h hheader)
    have hunknown : ¬ z.scope.types.contains name := fun hthere =>
      (ht.types name hthere).elim hknown (by simp [hnone])
    have hentry {types : TypeTable} (h : ¬ types.contains name) : types.resolve name = .error (.unknown name) := by
      have hnone : types.entry? name = none := TypeTable.not_contains_iff.mp (by simpa using h)
      simp [TypeTable.resolve, TypeTable.follow, hnone]
    refine ⟨?_, by simp [hknown, hunknown], by rw [hentry hknown, hentry hunknown]⟩
    rw [needType_unknown hunknown, sourcesTo_headers, hnone]
    rfl

/-- What the type with a name is, from whether the name is known and from what it leads to. -/
def namedType (name : String) (l : Location) (behindPointer known : Bool) (type : Except TypeFault ValueType) :
    Check ValueType :=
  if known then
    match type with
    | .ok type => return type
    | .error fault => fail (.typeRule fault) l
  else if behindPointer then return .namedStruct name
  else fail (.unknownType name) l

/-- The type of sizes, from what its name leads to. -/
def sizeOr : Except TypeFault ValueType → Check ValueType
  | .ok type => return type
  | .error _ => return .uint

section

variable (hF : Footing config sources settled)
include hF

/-- A part that asks for the type of a name. -/
theorem named_lasts (name : String) {f : Bool → Except TypeFault ValueType → Check β}
    (hf : ∀ known type, Lasts config settled (f known type)) :
    Lasts config settled (needType sources name >>= fun _ => scope >>= fun scope =>
      f (scope.types.contains name) (scope.types.resolve name)) := by
  intro s b s' hs hrun
  obtain ⟨_, t, hneed, hrun⟩ := run_bind_ok.mp hrun
  have hrun : (f (t.scope.types.contains name) (t.scope.types.resolve name)).run t = .ok b s' := hrun
  obtain ⟨ht, hfirst, hpart⟩ := Learns.part hF (hF.loads.needType name) (.typeName name) s _ t hs hneed
  obtain ⟨hs', hsecond, hagain⟩ := hf _ _ t b s' ht hrun
  refine ⟨hs', hfirst.trans hsecond, fun z hend hsettled => ?_⟩
  have htz := hsecond.trans hend
  have hsettled' := (hpart z htz hsettled).1
  refine ⟨(hagain z hend hsettled').1, fun h => ?_⟩
  obtain ⟨depth, rfl⟩ := hF.program h
  obtain ⟨hneed', hcontains, hresolve⟩ := needType_again (hsettled h).reached hneed (hsettled' h) htz
  refine bind_run hneed' ?_
  show (f (z.scope.types.contains name) (z.scope.types.resolve name)).run z = .ok b z
  rw [hcontains, hresolve]
  exact (hagain z hend hsettled').2 h

/-! ### Written types -/

theorem resolveName_learns (name : String) (l : Location) (behindPointer : Bool) :
    Learns config settled (resolveName sources name l behindPointer) fun z type =>
      z.scope.types.Forms behindPointer type ∧ (settled → (resolveName sources name l behindPointer).run z = .ok type z) := by
  have hlasts : Lasts config settled (resolveName sources name l behindPointer) := by
    refine named_lasts hF name (f := namedType name l behindPointer) fun known type => ?_
    unfold namedType
    split
    · split
      · exact .pure fun _ _ => rfl
      · exact .fail
    · split
      · exact .pure fun _ _ => rfl
      · exact .fail
  refine hlasts.and (Q := fun final type => final.types.Forms behindPointer type) fun s type s' _ h final hfinal => ?_
  obtain ⟨_, s1, _, h⟩ := run_bind_ok.mp h
  obtain ⟨_, _, hscope, h⟩ := run_bind_ok.mp h
  cases hscope
  dsimp only at h
  split at h
  · split at h
    · rename_i hresolve
      cases h
      obtain ⟨passed, hleads⟩ := TypeTable.leads_of_resolve hresolve
      exact .named (hleads.extend hfinal.types)
    · cases h
  · split at h
    · rename_i hbehind
      cases h
      rw [hbehind]
      exact .forward name
    · cases h

mutual

theorem resolveWith_learns (behindPointer : Bool) : (t : TypeExpr) →
    Learns config settled (resolveWith sources behindPointer t) fun z type =>
      z.scope.types.Forms behindPointer type ∧ (settled → (resolveWith sources behindPointer t).run z = .ok type z)
  | .name span name => resolveName_learns hF name span.start behindPointer
  | .pointer _ target => (resolveWith_learns true target).bind fun _ => .pure fun _ htarget =>
      ⟨.pointer htarget.1, fun h => bind_run (htarget.2 h) rfl⟩
  | .array _ element size => by
    refine (resolveWith_learns behindPointer element).bind fun t => (Learns.require _ _ _).bind fun _ => ?_
    refine (arraySize_lasts size).bind fun size' => .pure fun z hsize hstored helement => ⟨?_, fun h => ?_⟩
    · exact .array size' helement.1 (by simpa using hstored)
    · exact bind_run (helement.2 h) (bind_run (require_run hstored _ _ z) (bind_run (hsize h) rfl))
  | .function _ params returns => by
    refine (resolveEach_learns params).bind fun ps => (resolveWith_learns false returns).bind fun r => ?_
    exact .pure fun z hreturns hparams => ⟨.function hparams.1 hreturns.1,
      fun h => bind_run (hparams.2 h) (bind_run (hreturns.2 h) rfl)⟩
  | .vararg _ => .pure fun _ => ⟨.scalar List.mem_cons_self, fun _ => rfl⟩

theorem resolveEach_learns : (ts : List TypeExpr) → Learns config settled (resolveEach sources ts) fun z types =>
      (∀ type ∈ types, z.scope.types.Forms false type) ∧ (settled → (resolveEach sources ts).run z = .ok types z)
  | [] => .pure fun _ => ⟨nofun, fun _ => rfl⟩
  | t :: rest => by
    refine (resolveWith_learns false t).bind fun first => (resolveEach_learns rest).bind fun more => ?_
    exact .pure fun z hmore hfirst => ⟨List.forall_mem_cons.mpr ⟨hfirst.1, hmore.1⟩,
      fun h => bind_run (hfirst.2 h) (bind_run (hmore.2 h) rfl)⟩

end

theorem sizeType_learns : Learns config settled (sizeType sources) fun z type =>
    z.scope.types.Forms false type ∧ (settled → (sizeType sources).run z = .ok type z) := by
  have hlasts : Lasts config settled (sizeType sources) := by
    refine named_lasts hF sizeName (f := fun _ => sizeOr) fun known type => ?_
    cases type <;> exact .pure fun _ _ => rfl
  refine hlasts.and (Q := fun final type => final.types.Forms false type) fun s type s' hs hrun final hfinal => ?_
  obtain ⟨_, t, _, hrun⟩ := run_bind_ok.mp hrun
  obtain ⟨_, _, hscope, hrun⟩ := run_bind_ok.mp hrun
  cases hscope
  split at hrun <;> cases hrun
  · rename_i hresolve
    obtain ⟨passed, hleads⟩ := TypeTable.leads_of_resolve hresolve
    exact .named (hleads.extend hfinal.types)
  · exact .scalar (by decide)

end

section

variable (hload : Loads (Reads False) sources)
include hload

/-- What is resolved can be written in the table that is there at the end. -/
theorem resolve_forms {t : TypeExpr} (hs : s.Furnished)
    (h : (resolve sources t).run s = .ok type s') : s'.scope.types.Forms false type := by
  have hF : Footing {} sources False := ⟨hload, nofun⟩
  exact ((resolveWith_learns hF false t s type s' hs h).2.2 s' (.refl _) nofun).2.1

theorem resolveOption_forms {t : Option TypeExpr} {type : Option ValueType} (hs : s.Furnished)
    (h : (resolveOption sources t).run s = .ok type s') :
    ∀ r, type = some r → s'.scope.types.Forms false r := by
  cases t with
  | none =>
    cases h
    exact nofun
  | some t =>
    obtain ⟨r, s1, hr, h⟩ := run_bind_ok.mp h
    cases h
    rintro _ ⟨⟩
    exact resolve_forms hload hs hr

end

end Check

end Offside
