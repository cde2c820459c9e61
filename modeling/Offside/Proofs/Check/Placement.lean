import Offside.Proofs.Check.Context
import Offside.Proofs.Check.Decoration
import Offside.Proofs.Check.Growth
import Offside.Proofs.Check.Headers

/-! Where statements may stand.

Definitions and includes stand at the top level, `return` stands in a function, and `break` stands in a block
that can be left. `Stmt.sites` lists the statements of a tree with the sites they stand at, read off the tree
alone; a check goes by counters instead, which agree with the site wherever it is (`CheckState.At`). So a
program that is accepted keeps the rules, and if one is refused for the place of a statement, that statement
breaks them: `CheckedUnit.ofModule_placed`. -/
namespace Offside

open List

variable {xs ys : List Standing} {l : Location}

/-! ### Sites -/

/-- Which blocks there are around a statement, inside the function or file it belongs to. -/
inductive Nesting where
  | outside
  /-- Only blocks that cannot be left. -/
  | block
  /-- A block that can be left, and perhaps others. -/
  | breakable
  deriving DecidableEq, Repr

/-- Where a statement stands. -/
structure Site where
  inFunction : Bool
  nesting : Nesting
  deriving DecidableEq, Repr

namespace Site

def top : Site := ⟨false, .outside⟩

/-- In the body of a function. Blocks around the function do not count. -/
def body : Site := ⟨true, .outside⟩

/-- In a block that cannot be left by itself. -/
def inBlock (site : Site) : Site :=
  { site with nesting := if site.nesting = .breakable then .breakable else .block }

/-- In a block that can be left. -/
def inBreakable (site : Site) : Site := { site with nesting := .breakable }

/-- Whether a statement of a kind may stand at a site. -/
def admits (site : Site) : Placement → Bool
  | .definition | .includeFile => site = top
  | .result => site.inFunction
  | .leave => site.nesting = .breakable

end Site

/-- The kind of a statement that is not allowed everywhere. -/
def Stmt.placement? : Stmt → Option Placement
  | .function .. => some .definition
  | .result .. => some .result
  | .leave _ => some .leave
  | .includeFile .. => some .includeFile
  | _ => none

/-- A statement and its site. -/
structure Standing where
  site : Site
  stmt : Stmt

/-- The statement may stand there. -/
def Standing.allowed (x : Standing) : Bool := x.stmt.placement?.all x.site.admits

mutual

/-- The statement at its site, and the statements in it at theirs. The clause behind a loop is not part
of the loop. -/
def Stmt.sites (site : Site) : Stmt → List Standing
  | .function m f body => ⟨site, .function m f body⟩ :: Stmt.sitesList .body body
  | .ifElse m c body orelse =>
    ⟨site, .ifElse m c body orelse⟩ :: (Stmt.sitesList site.inBlock body ++ Stmt.sitesList site.inBlock orelse)
  | .whileLoop m c body orelse =>
    ⟨site, .whileLoop m c body orelse⟩ :: (Stmt.sitesList site.inBreakable body ++ Stmt.sitesList site.inBlock orelse)
  | .doLoop m body c => ⟨site, .doLoop m body c⟩ :: Stmt.sitesList site.inBreakable body
  | .switch m subject cases default =>
    ⟨site, .switch m subject cases default⟩ ::
      (SwitchCase.sitesList site.inBreakable cases ++ Stmt.sitesBlock site.inBreakable default)
  | s => [⟨site, s⟩]

def Stmt.sitesList (site : Site) : List Stmt → List Standing
  | [] => []
  | s :: rest => s.sites site ++ Stmt.sitesList site rest

def Stmt.sitesBlock (site : Site) : Option (List Stmt) → List Standing
  | none => []
  | some body => Stmt.sitesList site body

def SwitchCase.sites (site : Site) : SwitchCase → List Standing
  | .mk _ _ body => Stmt.sitesList site body

def SwitchCase.sitesList (site : Site) : List SwitchCase → List Standing
  | [] => []
  | c :: rest => c.sites site ++ SwitchCase.sitesList site rest

end

/-- All statements keep the rules. -/
def Allowed (xs : List Standing) : Prop := ∀ x ∈ xs, x.allowed = true

def Module.Placed (m : Module) : Prop := Allowed (Stmt.sitesList .top m.body)

/-- One of the statements, which begins at a place, is of a kind that may not stand at its site. -/
def Breaks (xs : List Standing) (placement : Placement) (l : Location) : Prop :=
  ∃ x ∈ xs, x.stmt.placement? = some placement ∧ x.site.admits placement = false ∧ x.stmt.span.start = l

theorem Breaks.mono {placement : Placement} (h : Breaks xs placement l) (hsub : xs ⊆ ys) : Breaks ys placement l := by
  obtain ⟨x, hx, hbreaks⟩ := h
  exact ⟨x, hsub hx, hbreaks⟩

/-- Where all keep the rules, none breaks them. -/
theorem Allowed.not_breaks (h : Allowed xs) {placement : Placement} : ¬ Breaks xs placement l := by
  rintro ⟨x, hx, hkind, hadmits, _⟩
  have hallowed := h x hx
  rw [Standing.allowed, hkind, Option.all_some, hadmits] at hallowed
  cases hallowed

theorem Stmt.mem_sites (s : Stmt) (site : Site) : ⟨site, s⟩ ∈ s.sites site := by
  cases s <;> exact mem_cons_self

/-- Statements that hold no others. -/
theorem Stmt.sites_plain {s : Stmt} (h : s.isPlain) (site : Site) : s.sites site = [⟨site, s⟩] := by
  cases s <;> first | rfl | cases h

/-- A statement of one of the files around a program breaks a rule. -/
def Elsewhere (config : Config) (placement : Placement) (l : Location) : Prop :=
  ∃ path text m, config.files.textAt path = .ok text ∧ Module.ofText path.text text = .ok m ∧
    Breaks (Stmt.sitesList .top m.body) placement l

/-- The lines of standard headers keep the rules. -/
theorem Header.standard_placed {header : Header} (hmem : header ∈ Header.standard) {m : Module}
    (hm : Module.ofText header.name header.source = .ok m) : m.Placed := by
  obtain ⟨m', hm', htext, _⟩ := Header.standard_text hmem
  obtain rfl : m = m' := Except.ok.inj (hm.symm.trans hm')
  simp only [Header.isText, Bool.and_eq_true] at htext
  have hlines (allowed : List Header) (known : List String) (body : List Stmt)
      (hreads : Header.reads allowed known body) : Allowed (Stmt.sitesList .top body) := by
    induction body generalizing known with
    | nil => exact forall_mem_nil _
    | cons line rest ih =>
      rw [Header.reads, Bool.and_eq_true] at hreads
      have hline : Allowed (line.sites .top) := by
        have hreads := hreads.1
        unfold Header.readsLine at hreads
        cases line with
        | includeFile m path => exact forall_mem_singleton.mpr rfl
        | expr | assign | function | result | ifElse | whileLoop | doLoop | switch | leave | pass | enum =>
          cases hreads
        | _ => exact forall_mem_singleton.mpr rfl
      exact forall_mem_append.mpr ⟨hline, ih _ hreads.2⟩
  exact hlines _ _ _ htext.1.1

/-! ### Counters -/

/-- The counters of a check agree with a site. -/
structure CheckState.At (s : CheckState) (site : Site) : Prop where
  function : s.function.isSome = site.inFunction
  block : s.blockDepth = 0 ↔ site.nesting = .outside
  breakable : s.breakableDepth = 0 ↔ site.nesting ≠ .breakable

namespace CheckState.At

variable {s s' : CheckState} {site : Site}

section

variable (h : s.At site)
include h

theorem situated (hs : s.Situated s') : s'.At site where
  function := by
    have hfunction := congrArg Option.isSome hs.function
    rw [Option.isSome_map, Option.isSome_map] at hfunction
    rw [hfunction, h.function]
  block := by rw [hs.block, h.block]
  breakable := by rw [hs.breakable, h.breakable]

theorem inBlock : { s with blockDepth := s.blockDepth + 1 }.At site.inBlock where
  function := h.function
  block := by
    unfold Site.inBlock
    split <;> simp
  breakable := by
    rw [h.breakable]
    unfold Site.inBlock
    split
    · rename_i hnesting
      simp [hnesting]
    · rename_i hnesting
      simp [hnesting]

theorem inBreakable :
    { s with breakableDepth := s.breakableDepth + 1, blockDepth := s.blockDepth + 1 }.At
      site.inBreakable where
  function := h.function
  block := by simp [Site.inBreakable]
  breakable := by simp [Site.inBreakable]

/-- The counters allow what the site allows. -/
theorem atTopLevel : s.atTopLevel = decide (site = .top) := by
  obtain ⟨inFunction, nesting⟩ := site
  unfold CheckState.atTopLevel
  rw [← Option.not_isSome, h.function, Bool.eq_iff_iff]
  simp [Site.top, h.block]

theorem top (htop : s.atTopLevel) : site = .top := by
  rw [h.atTopLevel] at htop
  exact of_decide_eq_true htop

end

/-- A function that may stand at its site is entered with no blocks around it. -/
theorem body (h : s.At .top) (f : FunctionContext) :
    { s with function := some f, environment := s.environment.enter }.At .body where
  function := rfl
  block := h.block
  breakable := h.breakable

theorem openHeader (s : CheckState) : s.openHeader.At .top :=
  ⟨rfl, ⟨fun _ => rfl, fun _ => rfl⟩, ⟨fun _ => by decide, fun _ => rfl⟩⟩

theorem openFile (h : s.At .top) (path : Path) : (s.openFile path).At .top := ⟨h.function, h.block, h.breakable⟩

end CheckState.At

namespace Check

variable {placement : Placement} {line : Stmt}

/-! ### What is watched -/

/-- A check returns to its place and adds only files that keep the rules, and if it fails for the place of
a statement, something is to blame. -/
structure Watches (blamed : Placement → Location → Prop) (s : CheckState) (failure : Option Failure)
    (s' : CheckState) : Prop where
  situated : s.Situated s'
  units : ∀ u ∈ s'.units, u ∈ s.units ∨ u.2.Placed
  blame : ∀ placement l, failure = some (.semantic (.misplaced placement) l) → blamed placement l

variable {α β : Type} {blamed more : Placement → Location → Prop} {s s' : CheckState}
  {failure : Option Failure} {config : Config} {sources : Sources} {site : Site}

theorem Watches.weaken (h : Watches blamed s failure s')
    (hblamed : ∀ placement l, blamed placement l → more placement l) : Watches more s failure s' :=
  { h with blame := fun placement l hfailure => hblamed placement l (h.blame placement l hfailure) }

/-- A check that does not fail for a place has nothing to blame. -/
theorem Watches.blameless (hsituated : s.Situated s') (hunits : ∀ u ∈ s'.units, u ∈ s.units ∨ u.2.Placed)
    (hfailure : failure.any Failure.misplaces = false) : Watches blamed s failure s' := by
  refine ⟨hsituated, hunits, ?_⟩
  rintro placement l rfl
  cases hfailure

theorem Watches.misplaced (h : blamed placement l) :
    Watches blamed s (some (.semantic (.misplaced placement) l)) s := by
  refine ⟨.refl s, fun _ => .inl, ?_⟩
  rintro _ _ ⟨⟩
  exact h

theorem watches_chains : Chains (Watches blamed) where
  refl s := .blameless (.refl s) (fun _ => .inl) rfl
  trans h h' := ⟨h.situated.trans h'.situated, fun u hu => (h'.units u hu).elim (h.units u) .inr, h'.blame⟩
  fail s hcommon _ := .blameless (.refl s) (fun _ => .inl) (Failure.misplaces_of_isCommon hcommon)

/-- What is to be shown of sources: files that break the rules are found, and headers keep them. -/
structure Trusted (config : Config) (sources : Sources) : Prop where
  secludes : Secludes sources
  load {header : Header} : header ∈ sources.headers → Ends (Watches (Elsewhere config)) (sources.load header)
  follow (path : String) (l : Location) {s : CheckState} : s.At .top →
    EndsFrom (Watches (Elsewhere config)) (sources.follow path l) s

theorem Trusted.declares (h : Trusted config sources)
    (hblamed : ∀ placement l, Elsewhere config placement l → blamed placement l) :
    Declares (Watches blamed) sources :=
  have hscope (s : CheckState) (scope : Scope) : Watches blamed s none (s.setScope scope) :=
    .blameless (.setScope s scope) (fun _ => .inl) rfl
  have hadds : Adds (Watches blamed) sources :=
    { watches_chains with
      load := fun hmem s => (h.load hmem s).weaken hblamed
      add := fun _ => hscope _ _ }
  { hadds with
    constants := fun s _ => hscope s _
    struct := hadds.struct fun s _ _ => hscope s _ }

/-- A part of a check from a state on: how it ends, and what its answer is like. -/
structure Settles (s : CheckState) (part : Check α) (good : α → Prop)
    (blamed : Placement → Location → Prop) : Prop where
  ends : EndsFrom (Watches blamed) part s
  answer : ∀ a s', part.run s = .ok a s' → good a

namespace Settles

variable {part : Check α} {f : α → Check β} {good : α → Prop} {well : β → Prop}

theorem bind (hpart : Settles s part good blamed)
    (hf : ∀ a s', s.Situated s' → good a → Settles s' (f a) well blamed) :
    Settles s (part >>= f) well blamed where
  ends := watches_chains.seq hpart.ends fun a s' hrun =>
    (hf a s' (hpart.ends.ok hrun).situated (hpart.answer a s' hrun)).ends
  answer b s' hrun := by
    obtain ⟨a, t, ha, hb⟩ := run_bind_ok.mp hrun
    exact (hf a t (hpart.ends.ok ha).situated (hpart.answer a t ha)).answer b s' hb

theorem pure {a : α} (h : good a) : Settles s (Pure.pure a) good blamed where
  ends := watches_chains.pure a s
  answer b s' hrun := by
    cases hrun
    exact h

theorem get {f : CheckState → Check β} (h : Settles s (f s) well blamed) :
    Settles s (MonadState.get >>= f) well blamed :=
  ⟨h.ends, h.answer⟩

theorem of (h : EndsFrom (Watches blamed) part s) : Settles s part (fun _ => True) blamed := ⟨h, fun _ _ _ => trivial⟩

theorem weaken (h : Settles s part good blamed)
    (hblamed : ∀ placement l, blamed placement l → more placement l) : Settles s part good more :=
  ⟨Watches.weaken h.ends hblamed, h.answer⟩

/-- A rule about places: it is kept, or something is to blame. -/
theorem require {kept : Bool} (h : kept = false → blamed placement l) :
    Settles s (Check.require kept (.misplaced placement) l) (fun _ => kept) blamed where
  ends := watches_chains.requireFrom fun hkept => .misplaced (h hkept)
  answer _ _ hrun := (require_ok hrun).1

/-- A part that is done in a changed state. -/
theorem during {enter : CheckState → CheckState} {leave : CheckState → CheckState → CheckState}
    (h : Settles (enter s) part good blamed)
    (hleave : ∀ failure s', Watches blamed (enter s) failure s' → Watches blamed s failure (leave s s')) :
    Settles s (Check.during enter leave part) good blamed where
  ends := by
    rw [endsFrom_during]
    exact hleave _ _ h.ends
  answer a s' hrun := by
    obtain ⟨t, hpart, _⟩ := during_ok hrun
    exact h.answer a t hpart

theorem inBlock (h : Settles { s with blockDepth := s.blockDepth + 1 } part good blamed) :
    Settles s (Check.inBlock part) good blamed :=
  h.during fun _ _ hwatch => { hwatch with situated := hwatch.situated.leaveBlock }

theorem inBreakable
    (h : Settles { s with breakableDepth := s.breakableDepth + 1, blockDepth := s.blockDepth + 1 } part
      good blamed) : Settles s (Check.inBreakable part) good blamed := by
  have hin : Settles { s with breakableDepth := s.breakableDepth + 1 } (Check.inBlock part) good blamed :=
    .inBlock h
  exact hin.during fun _ _ hwatch => { hwatch with situated := hwatch.situated.leaveBreakable }

theorem inFunction {context : FunctionContext} (htop : s.atTopLevel)
    (h : Settles { s with function := some context, environment := s.environment.enter } part good
      blamed) : Settles s (Check.inFunction context part) good blamed :=
  h.during fun _ _ hwatch => { hwatch with situated := .leaveFunction htop hwatch.situated }

end Settles

/-! ### Statements -/

/-- Statements that hold no others stay such, and of their kind. -/
theorem plain_stays (sources : Sources) : (line : Stmt) → line.isPlain →
    Yields (statement sources line) fun checked =>
      checked.isPlain ∧ checked.placement? = line.placement?
  | .expr _ _, _ | .declare _ _, _ | .announce _ _, _ | .struct _ _ _, _ | .enum _ _ _, _
  | .typedef _ _ _, _ | .define _ _ _, _ => .after fun _ => .pure ⟨rfl, rfl⟩
  | .leave _, _ => .after fun _ => .after fun _ => .pure ⟨rfl, rfl⟩
  | .pass _, _ | .ifndef _ _, _ | .endif _, _ => .pure ⟨rfl, rfl⟩
  | .assign m target value, _ => by
    show Yields (assignment sources m target value) _
    unfold assignment
    split
    · refine .after fun found => ?_
      cases found with
      | none => exact .after fun _ => .after fun _ => .after fun _ => .pure ⟨rfl, rfl⟩
      | some type => exact .after fun _ => .after fun _ => .after fun _ => .pure ⟨rfl, rfl⟩
    · exact .after fun _ => .after fun _ => .after fun _ => .after fun _ => .pure ⟨rfl, rfl⟩

/-- What is to blame for statements: one of them, or one of an included file. -/
def Found (config : Config) (xs : List Standing) (placement : Placement) (l : Location) : Prop :=
  Breaks xs placement l ∨ Elsewhere config placement l

theorem Found.mono (hsub : xs ⊆ ys) (placement : Placement) (l : Location) :
    Found config xs placement l → Found config ys placement l :=
  fun h => h.imp_left fun hbreaks => hbreaks.mono hsub

/-- The statement itself is to blame. -/
theorem Found.self (hkind : line.placement? = some placement) (h : site.admits placement = false) :
    Found config (line.sites site) placement line.span.start :=
  .inl ⟨⟨site, line⟩, line.mem_sites site, hkind, h, rfl⟩

theorem allowed_self (hkind : line.placement? = some placement)
    (h : site.admits placement) : Standing.allowed ⟨site, line⟩ := by
  rw [Standing.allowed, hkind]
  exact h

theorem leave_settles (m : Mark) (hs : s.At site) :
    Settles s (statement sources (.leave m)) (fun checked => Allowed (checked.sites site))
      (Found config ((Stmt.leave m).sites site)) := by
  have hcounter : (s.breakableDepth != 0) = site.admits .leave := by
    rw [Bool.eq_iff_iff]
    simp [Site.admits, hs.breakable]
  refine .get (Settles.bind (.require fun hkept => .self rfl ?_) fun _ _ _ hkept => .pure ?_)
  · rwa [hcounter] at hkept
  · rw [hcounter] at hkept
    exact forall_mem_singleton.mpr (allowed_self rfl hkept)

section

variable (hS : Trusted config sources)
include hS

theorem plain_settles (h : line.isPlain) (hfree : line.placement? = none) :
    Settles s (statement sources line) (fun checked => Allowed (checked.sites site))
      (Found config (line.sites site)) where
  ends := by
    refine (hS.declares fun _ _ => .inr).plain line h .any fun m hm => ?_
    subst hm
    cases hfree
  answer checked s' hrun := by
    obtain ⟨hplain, hkind⟩ := plain_stays sources line h s checked s' trivial hrun
    rw [Stmt.sites_plain hplain]
    refine forall_mem_singleton.mpr ?_
    rw [Standing.allowed, hkind, hfree]
    rfl

theorem result_settles (m : Mark) (value : Option Expr) (hs : s.At site) :
    Settles s (statement sources (.result m value)) (fun checked => Allowed (checked.sites site))
      (Found config ((Stmt.result m value).sites site)) := by
  have hresult : Settles s (result sources value m.span.start) (fun _ => site.inFunction)
      (Found config ((Stmt.result m value).sites site)) := by
    constructor
    · refine (hS.declares fun _ _ => .inr).toLoads.result ?_ hS.secludes value _ (fun _ _ => .any)
        trivial fun hnone => ?_
      · exact fun type hf => .blameless (.infer type hf) (fun _ => .inl) rfl
      · refine .misplaced (.self rfl ?_)
        rw [Site.admits, ← hs.function, hnone]
        rfl
    · intro value' s' hrun
      rw [← hs.function]
      cases hfunction : s.function with
      | some function => rfl
      | none =>
        unfold result at hrun
        obtain ⟨_, _, hget, hrun⟩ := run_bind_ok.mp hrun
        cases hget
        rw [hfunction] at hrun
        cases hrun
  exact hresult.bind fun _ _ _ hin => .pure (forall_mem_singleton.mpr (allowed_self rfl hin))

theorem include_settles (m : Mark) (path : String) (hs : s.At site) :
    Settles s (statement sources (.includeFile m path)) (fun checked => Allowed (checked.sites site))
      (Found config ((Stmt.includeFile m path).sites site)) := by
  refine .get (Settles.bind (.require fun hkept => .self rfl ?_) fun _ s' hs' hkept => ?_)
  · rwa [hs.atTopLevel] at hkept
  · obtain rfl := hs.top hkept
    refine Settles.bind ((Settles.of (hS.follow path _ (hs.situated hs'))).weaken fun _ _ => .inr) ?_
    exact fun _ _ _ _ => .pure (forall_mem_singleton.mpr rfl)

/-- The head of a definition. -/
theorem openDefinition_settles (m : Mark) (head : FunctionHead) (body : List Stmt) (hs : s.At site) :
    Settles s (openDefinition sources head m.span.start) (fun _ => site = .top)
      (Found config ((Stmt.function m head body).sites site)) := by
  have hends : EndsFrom (Watches (Found config ((Stmt.function m head body).sites site)))
      (openDefinition sources head m.span.start) s := by
    refine (hS.declares fun _ _ => .inr).openDefinition head _ .any trivial fun htop =>
      .misplaced (.self rfl ?_)
    rwa [hs.atTopLevel] at htop
  exact ⟨hends, fun _ s' hrun =>
    (hs.situated (hends.ok hrun).situated).top (openDefinition_atTopLevel hS.secludes hrun)⟩

end

/-- The two parts of a statement, one after the other. -/
theorem parts_settle {first : Check α} {second : Check β} {good : α → Prop} {well : β → Prop}
    {build : α → β → Stmt}
    (hsites : line.sites site = ⟨site, line⟩ :: (xs ++ ys))
    (hfirst : Settles s first good (Found config xs))
    (hsecond : ∀ s', s.Situated s' → Settles s' second well (Found config ys))
    (hbuild : ∀ a b, good a → well b → Allowed ((build a b).sites site)) :
    Settles s (do let a ← first; let b ← second; return build a b)
      (fun checked => Allowed (checked.sites site)) (Found config (line.sites site)) := by
  rw [hsites]
  have hleft : xs ⊆ ⟨site, line⟩ :: (xs ++ ys) :=
    subset_cons_of_subset _ (subset_append_left _ _)
  have hright : ys ⊆ ⟨site, line⟩ :: (xs ++ ys) :=
    subset_cons_of_subset _ (subset_append_right _ _)
  refine (hfirst.weaken (Found.mono hleft)).bind fun a s' hs' ha => ?_
  refine ((hsecond s' hs').weaken (Found.mono hright)).bind fun b _ _ hb => ?_
  exact .pure (hbuild a b ha hb)

mutual

theorem statement_settles (hS : Trusted config sources) : (line : Stmt) → (site : Site) →
    {s : CheckState} → s.At site →
    Settles s (statement sources line) (fun checked => Allowed (checked.sites site)) (Found config (line.sites site))
  | .function m head body, site, s, hs => by
    have hT : Declares (Watches (Found config ((Stmt.function m head body).sites site))) sources :=
      hS.declares fun _ _ => .inr
    refine (openDefinition_settles hS m head body hs).bind fun ⟨types, returns⟩ s1 hs1 htop => ?_
    obtain rfl := htop
    have hat := hs.situated hs1
    have htop : s1.atTopLevel := by
      rw [hat.atTopLevel]
      rfl
    refine (Settles.inFunction htop ?_).bind fun r s2 _ (hbody' : Allowed (Stmt.sitesList .body r.1)) => ?_
    · refine (Settles.of (hT.bindParams head.params types _)).bind fun _ s2 hs2 _ => ?_
      have hbody := statements_settles hS body .body ((hat.body _).situated hs2)
      refine (hbody.weaken (Found.mono (subset_cons_self _ _))).bind fun body' s3 _ hbody' => ?_
      exact .get (.pure hbody')
    · obtain ⟨body', inferred⟩ := r
      refine (Settles.of (hT.closeDefinition head types returns inferred _ trivial s2)).bind fun _ _ _ _ => ?_
      exact .pure (forall_mem_cons.mpr ⟨rfl, hbody'⟩)
  | .result m value, _, _, hs => result_settles hS m value hs
  | .leave m, _, _, hs => leave_settles m hs
  | .includeFile m path, _, _, hs => include_settles hS m path hs
  | .ifElse m c body orelse, site, s, hs => by
    have hT : Declares (Watches (Found config ((Stmt.ifElse m c body orelse).sites site))) sources :=
      hS.declares fun _ _ => .inr
    refine (Settles.of (hT.condition c _ .any s)).bind fun c' s1 hs1 _ => ?_
    have hat := hs.situated hs1
    exact parts_settle rfl (.inBlock (statements_settles hS body _ hat.inBlock))
      (fun s2 hs2 => .inBlock (statements_settles hS orelse _ (hat.situated hs2).inBlock))
      fun _ _ hbody horelse =>
        forall_mem_cons.mpr ⟨rfl, forall_mem_append.mpr ⟨hbody, horelse⟩⟩
  | .whileLoop m c body orelse, site, s, hs => by
    have hT : Declares (Watches (Found config ((Stmt.whileLoop m c body orelse).sites site))) sources :=
      hS.declares fun _ _ => .inr
    refine (Settles.of (hT.condition c _ .any s)).bind fun c' s1 hs1 _ => ?_
    have hat := hs.situated hs1
    exact parts_settle rfl (.inBreakable (statements_settles hS body _ hat.inBreakable))
      (fun s2 hs2 => .inBlock (statements_settles hS orelse _ (hat.situated hs2).inBlock))
      fun _ _ hbody horelse =>
        forall_mem_cons.mpr ⟨rfl, forall_mem_append.mpr ⟨hbody, horelse⟩⟩
  | .doLoop m body c, site, s, hs => by
    have hT : Declares (Watches (Found config ((Stmt.doLoop m body c).sites site))) sources :=
      hS.declares fun _ _ => .inr
    have hbody := statements_settles hS body _ hs.inBreakable
    refine (Settles.inBreakable (hbody.weaken (Found.mono (subset_cons_self _ _)))).bind fun body' s1 _ hbody' => ?_
    refine (Settles.of (hT.condition c _ .any s1)).bind fun c' _ _ _ => .pure ?_
    exact forall_mem_cons.mpr ⟨rfl, hbody'⟩
  | .switch m subject cases default, site, s, hs => by
    have hT : Declares (Watches (Found config ((Stmt.switch m subject cases default).sites site)))
        sources := hS.declares fun _ _ => .inr
    refine (Settles.of (hT.typed subject .any s)).bind fun ⟨subject', type⟩ s1 hs1 _ => ?_
    refine (Settles.of (hT.require _ _ _ rfl trivial s1)).bind fun _ s2 hs2 _ => ?_
    have hat := (hs.situated hs1).situated hs2
    exact parts_settle rfl (switchCases_settles hS type cases site hat)
      (fun s3 hs3 => defaultCase_settles hS default site (hat.situated hs3))
      fun _ _ hcases hdefault =>
        forall_mem_cons.mpr ⟨rfl, forall_mem_append.mpr ⟨hcases, hdefault⟩⟩
  | .expr _ _, _, _, _ | .declare _ _, _, _, _ | .assign _ _ _, _, _, _ | .announce _ _, _, _, _
  | .pass _, _, _, _ | .struct _ _ _, _, _, _ | .enum _ _ _, _, _, _ | .typedef _ _ _, _, _, _
  | .define _ _ _, _, _, _ | .ifndef _ _, _, _, _ | .endif _, _, _, _ => plain_settles hS rfl rfl

theorem statements_settles (hS : Trusted config sources) : (body : List Stmt) → (site : Site) →
    {s : CheckState} → s.At site →
    Settles s (statements sources body) (fun checked => Allowed (Stmt.sitesList site checked))
      (Found config (Stmt.sitesList site body))
  | [], _, _, _ => .pure (forall_mem_nil _)
  | line :: rest, site, s, hs => by
    have hline := statement_settles hS line site hs
    refine (hline.weaken (Found.mono (subset_append_left _ _))).bind fun line' s1 hs1 hline' => ?_
    have hrest := statements_settles hS rest site (hs.situated hs1)
    refine (hrest.weaken (Found.mono (subset_append_right _ _))).bind fun rest' _ _ hrest' => ?_
    exact .pure (forall_mem_append.mpr ⟨hline', hrest'⟩)

theorem switchCases_settles (hS : Trusted config sources) (subject : ValueType) :
    (cases : List SwitchCase) → (site : Site) → {s : CheckState} → s.At site →
    Settles s (switchCases sources subject cases)
      (fun checked => Allowed (SwitchCase.sitesList site.inBreakable checked))
      (Found config (SwitchCase.sitesList site.inBreakable cases))
  | [], _, _, _ => .pure (forall_mem_nil _)
  | first :: rest, site, s, hs => by
    have hfirst := switchCase_settles hS subject first site hs
    refine (hfirst.weaken (Found.mono (subset_append_left _ _))).bind fun first' s1 hs1 hfirst' => ?_
    have hrest := switchCases_settles hS subject rest site (hs.situated hs1)
    refine (hrest.weaken (Found.mono (subset_append_right _ _))).bind fun rest' _ _ hrest' => ?_
    exact .pure (forall_mem_append.mpr ⟨hfirst', hrest'⟩)

theorem switchCase_settles (hS : Trusted config sources) (subject : ValueType) :
    (clause : SwitchCase) → (site : Site) → {s : CheckState} → s.At site →
    Settles s (switchCase sources subject clause) (fun checked => Allowed (checked.sites site.inBreakable))
      (Found config (clause.sites site.inBreakable))
  | .mk span values body, site, s, hs => by
    have hT : Declares (Watches (Found config ((SwitchCase.mk span values body).sites site.inBreakable)))
        sources := hS.declares fun _ _ => .inr
    refine (Settles.of (hT.caseLabels subject none values .any s)).bind fun values' s1 hs1 _ => ?_
    have hbody := statements_settles hS body _ (hs.situated hs1).inBreakable
    exact (Settles.inBreakable hbody).bind fun body' _ _ hbody' => .pure hbody'

theorem defaultCase_settles (hS : Trusted config sources) : (clause : Option (List Stmt)) →
    (site : Site) → {s : CheckState} → s.At site →
    Settles s (defaultCase sources clause) (fun checked => Allowed (Stmt.sitesBlock site.inBreakable checked))
      (Found config (Stmt.sitesBlock site.inBreakable clause))
  | none, _, _, _ => .pure (forall_mem_nil _)
  | some body, _, _, hs =>
    (Settles.inBreakable (statements_settles hS body _ hs.inBreakable)).bind fun _ _ _ hbody' => .pure hbody'

end

/-! ### Headers and files -/

theorem includeFile_watches (hS : Trusted config sources) (path : Path) (l : Location) (hs : s.At .top) :
    EndsFrom (Watches (Elsewhere config)) (includeFile config sources path l) s := by
  have hvisit : Watches (Elsewhere config) s none (s.visit path) :=
    .blameless { CheckState.Situated.refl s with } (fun _ => .inl) rfl
  have hfile (text : String) (m : Module) (htext : config.files.textAt path = .ok text)
      (hm : Module.ofText path.text text = .ok m) (failure : Option Failure) (s' : CheckState)
      (h : Watches (Found config (Stmt.sitesList .top m.body)) (s.openFile path) failure s') :
      Watches (Elsewhere config) s failure (s.closeFile s') := by
    refine ⟨.closeFile h.situated, h.units, fun placement l hfailure => ?_⟩
    obtain hbreaks | helsewhere := h.blame placement l hfailure
    · exact ⟨path, text, m, htext, hm, hbreaks⟩
    · exact helsewhere
  have hbody (m : Module) := statements_settles hS m.body .top (hs.openFile path)
  apply endsFrom_of_run
  · intro _ s' hrun
    rw [includeFile_run] at hrun
    split at hrun
    · cases hrun
    split at hrun
    · cases hrun
      exact watches_chains.refl s
    split at hrun
    · cases hrun
    split at hrun
    · cases hrun
    split at hrun
    · cases hrun
    · rename_i text htext _ m hm _ body t hstatements
      cases hrun
      have hwatched := hfile text m htext hm none t ((hbody m).ends.ok hstatements)
      refine .blameless { hwatched.situated with } (fun u hu => ?_) rfl
      obtain rfl | hu := mem_insertUnit hu
      · exact .inr ((hbody m).answer body t hstatements)
      · exact hwatched.units u hu
  · intro failure s' hrun
    rw [includeFile_run] at hrun
    split at hrun
    · cases hrun
      exact .blameless (.refl s) (fun _ => .inl) rfl
    split at hrun
    · cases hrun
    split at hrun
    · cases hrun
      exact watches_chains.trans hvisit (watches_chains.fail _ rfl (.inr ⟨_, rfl, trivial⟩))
    split at hrun
    · rename_i hm
      cases hrun
      obtain ⟨hkind, l, hl, _⟩ := Module.ofText_error_inText hm
      exact watches_chains.trans hvisit
        (watches_chains.fail _ (Failure.isCommon_of_ofText hkind) (.inr ⟨l, hl, trivial⟩))
    split at hrun
    · rename_i text htext _ m hm _ failure' t hstatements
      cases hrun
      exact hfile text m htext hm (some failure) t ((hbody m).ends.error hstatements)
    · cases hrun

theorem loadHeader_watches (hS : Trusted config sources) {header : Header}
    (hmem : header ∈ config.headers) : Ends (Watches (Elsewhere config)) (loadHeader sources header) := by
  intro s
  have hclose (m : Module) (hm : Module.ofText header.name header.source = .ok m)
      (failure : Option Failure) (s' : CheckState)
      (h : Watches (Found config (Stmt.sitesList .top m.body)) s.openHeader failure s') :
      Watches (Elsewhere config) s failure (s.closeHeader s') := by
    refine ⟨.closeHeader h.situated, h.units, fun placement l hfailure => ?_⟩
    exact (h.blame placement l hfailure).resolve_left
      (Header.standard_placed (config.mem_standard hmem) hm).not_breaks
  have hbody (m : Module) := (statements_settles hS m.body .top (.openHeader s)).ends
  refine watches_chains.loadHeader (fun _ _ => trivial) (fun m failure s' hm _ hrun => ?_)
    fun m _ s' hm _ hrun => ?_
  · exact hclose m hm _ s' ((hbody m).error hrun)
  · have hclosed := hclose m hm none s' ((hbody m).ok hrun)
    split
    · exact hclosed
    · exact { hclosed with situated := { hclosed.situated with } }

theorem sourcesTo_trusted (config : Config) (depth : Nat) : Trusted config (sourcesTo config depth) := by
  induction depth with
  | zero =>
    have hthrow (s : CheckState) : Watches (Elsewhere config) s (some .exhausted) s :=
      .blameless (.refl s) (fun _ => .inl) rfl
    exact ⟨sourcesTo_secludes config 0, fun _ s => hthrow s, fun _ _ s _ => hthrow s⟩
  | succ depth ih =>
    refine ⟨sourcesTo_secludes config _, loadHeader_watches ih, fun path l s hs => ?_⟩
    show EndsFrom _ (followInclude config (sourcesTo config depth) path l) s
    unfold followInclude
    rw [endsFrom_get_bind]
    dsimp only
    split
    · exact includeFile_watches ih _ l hs
    · split
      · rename_i header hheader
        exact loadHeader_watches ih (mem_of_find?_eq_some hheader) s
      · exact watches_chains.failWith _ _ rfl trivial s

end Check

theorem Failure.eq_of_misplaces {failure : Failure} (h : failure.misplaces) :
    ∃ placement l, failure = .semantic (.misplaced placement) l := by
  unfold misplaces at h
  split at h
  · exact ⟨_, _, rfl⟩
  · cases h

theorem CheckedUnit.startState_at (path : Option Path) : (startState path).At .top := by
  cases path <;> exact ⟨rfl, ⟨fun _ => rfl, fun _ => rfl⟩, ⟨fun _ => by decide, fun _ => rfl⟩⟩

/-- **The rules about places hold, and are the only reason to refuse a place.** In a program that is
accepted, and in each file that it includes, `break` stands in a loop or a clause of a switch with no
function between them, `return` stands in a function, and definitions and includes stand at the top level.
If a program is refused because something is only allowed elsewhere, then at the place that is reported, in
the program or in one of the files around it, stands a statement that breaks these rules. -/
theorem CheckedUnit.ofModule_placed (config : Config) (m : Module) (path : Option Path) :
    (∀ u, CheckedUnit.ofModule config m path = .ok u → u.module.Placed ∧ ∀ included ∈ u.units, included.2.Placed) ∧
    ∀ placement l, CheckedUnit.ofModule config m path = .error (.semantic (.misplaced placement) l) →
      Breaks (Stmt.sitesList .top m.body) placement l ∨
      ∃ file text included, config.files.textAt file = .ok text ∧ Module.ofText file.text text = .ok included ∧
        Breaks (Stmt.sitesList .top included.body) placement l := by
  have hsettles := Check.statements_settles (Check.sourcesTo_trusted config (Check.depthBound config))
    m.body .top (CheckedUnit.startState_at path)
  constructor
  · intro u hu
    unfold CheckedUnit.ofModule at hu
    split at hu
    · rename_i body s hrun
      cases hu
      refine ⟨hsettles.answer body s hrun, fun included hincluded => ?_⟩
      obtain hstart | hplaced := (hsettles.ends.ok hrun).units included hincluded
      · cases path <;> cases hstart
      · exact hplaced
    · cases hu
  · intro placement l hu
    unfold CheckedUnit.ofModule at hu
    split at hu
    · cases hu
    · rename_i failure s hrun
      cases hu
      exact (hsettles.ends.error hrun).blame placement l rfl

/-- A loop that is left from its body, and one that is to be left from the clause behind it. -/
theorem CheckedUnit.ofModule_placed_loops :
    (∃ m u, Module.ofText "a.cu" "while 1: break\n" = .ok m ∧ CheckedUnit.ofModule {} m none = .ok u ∧
      u.module.Placed ∧ ∀ included ∈ u.units, included.2.Placed) ∧
    ∃ m placement l, Module.ofText "a.cu" "while 1: pass\nelse: break\n" = .ok m ∧
      CheckedUnit.ofModule {} m none = .error (.semantic (.misplaced placement) l) ∧
      (Breaks (Stmt.sitesList .top m.body) placement l ∨ ∃ file text included, FileTree.empty.textAt file = .ok text ∧
          Module.ofText file.text text = .ok included ∧
          Breaks (Stmt.sitesList .top included.body) placement l) := by
  constructor
  · have haccepted : (CheckedUnit.ofText {} "a.cu" "while 1: break\n").isOk = true := by decide +kernel
    cases h : CheckedUnit.ofText {} "a.cu" "while 1: break\n" with
    | error failure =>
      rw [h] at haccepted
      cases haccepted
    | ok u =>
      obtain ⟨m, hm, hu⟩ := CheckedUnit.ofText_ok h
      exact ⟨m, u, hm, hu, (CheckedUnit.ofModule_placed {} m none).1 u hu⟩
  · have hread : (Module.ofText "a.cu" "while 1: pass\nelse: break\n").isOk = true := by decide +kernel
    have hrefused : (Except.rec Failure.misplaces (fun _ => false)
        (CheckedUnit.ofText {} "a.cu" "while 1: pass\nelse: break\n") : Bool) = true := by decide +kernel
    unfold CheckedUnit.ofText at hrefused
    cases hm : Module.ofText "a.cu" "while 1: pass\nelse: break\n" with
    | error failure =>
      rw [hm] at hread
      cases hread
    | ok m =>
      rw [hm] at hrefused
      cases hu : CheckedUnit.ofModule {} m none with
      | ok u => simp only [bind, Except.bind, hu, Bool.false_eq_true] at hrefused
      | error failure =>
        simp only [bind, Except.bind, hu] at hrefused
        obtain ⟨placement, l, rfl⟩ := Failure.eq_of_misplaces hrefused
        exact ⟨m, placement, l, rfl, hu, (CheckedUnit.ofModule_placed {} m none).2 placement l hu⟩

end Offside
