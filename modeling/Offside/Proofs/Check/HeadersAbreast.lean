import Offside.Proofs.Check.Context
import Offside.Proofs.Check.Headers
import Offside.Proofs.Check.Restated

/-! Headers, read side by side.

Two checks that go side by side read the same headers in the same places. The headers declare the same
names to both, unless one of the names is that of the function that only the second check knows. The
standard headers declare no names but those they list (`Header.standard_lists`). -/
namespace Offside

open List

/-! ### The lines of headers -/

/-- A head with all its types is written out as it is. -/
theorem FunctionHead.isWhole.restatedAs {head : FunctionHead} (h : head.isWhole)
    {types : List ValueType} (returns : ValueType) (hlen : types.length = head.params.length) :
    head.RestatedAs types returns head := by
  rw [FunctionHead.isWhole, Bool.and_eq_true, all_eq_true] at h
  obtain ⟨written, hwritten⟩ := Option.isSome_iff_exists.mp h.1
  refine ⟨rfl, ?_, written, hwritten, .inl ⟨written, hwritten, rfl⟩⟩
  have hparams := h.2
  generalize head.params = params at hlen hparams
  induction params generalizing types with
  | nil =>
    obtain rfl := length_eq_zero_iff.mp hlen
    exact .nil
  | cons p rest ih =>
    cases types with
    | nil => cases hlen
    | cons type types =>
      obtain ⟨hp, hrest⟩ := forall_mem_cons.mp hparams
      refine .cons ?_ (ih (Nat.succ.inj hlen) hrest)
      obtain ⟨kind, span, found⟩ := p
      cases kind with
      | vararg => exact ⟨rfl, nofun⟩
      | named n declared =>
        obtain ⟨t, rfl⟩ := Option.isSome_iff_exists.mp hp
        exact ⟨rfl, nofun⟩

namespace Check

variable {k : Pairing} {sources : Sources}

/-- A declaration of a variable that says its type. -/
theorem Follows.variableDeclaration (hS : LoadsAbreast k sources) {d d' : VarDecl} (hname : k.Shares d.name)
    (h : d'.blur .bare = d.blur .bare) (hnames : ∀ e ∈ d.init, ∀ n ∈ e.names, k.Shares n) (l l' : Location) :
    Follows k (Check.variableDeclaration sources d l) (Check.variableDeclaration sources d' l') fun _ _ => True := by
  obtain ⟨name, declared, init, type⟩ := d
  obtain ⟨name', declared', init', type'⟩ := d'
  obtain ⟨hname', hdeclared, hinit⟩ : name' = name ∧ declared'.map (·.blur .bare) = declared.map (·.blur .bare) ∧
      init'.map (·.blur .bare) = init.map (·.blur .bare) := by
    simpa [VarDecl.blur] using h
  subst hname'
  cases declared with
  | none =>
    -- A variable without a written type is refused.
    intro s t _ a s' hrun
    obtain ⟨_, _, hvoid, hrest⟩ := run_bind_ok.mp hrun
    cases hvoid
    obtain ⟨_, _, hrequire, _⟩ := run_bind_ok.mp hrest
    cases (require_ok hrequire).1
  | some written =>
    obtain ⟨written', rfl, hwritten⟩ : ∃ written', declared' = some written' ∧
        written'.blur .bare = written.blur .bare := by simpa using hdeclared
    refine (resolve hS hwritten).bind fun type type' htype => ?_
    subst htype
    refine (require id).bind fun _ _ _ => ?_
    cases init with
    | none =>
      obtain rfl : init' = none := by simpa using hinit
      exact (declare hname type l l').bind fun _ _ _ => .pure trivial
    | some e =>
      obtain ⟨e', rfl, he⟩ : ∃ e', init' = some e' ∧ e'.blur .bare = e.blur .bare := by simpa using hinit
      refine bindPair (typed hS e e' he (hnames e rfl)) fun v v' found hv => ?_
      refine (require ?_).bind fun _ _ _ => ?_
      · rw [Expr.origin_of_blur he]
        exact id
      · exact (declare hname type l l').bind fun _ _ _ => .pure trivial

/-- A line of a header that declares shared names only. -/
theorem Follows.headerLine (hS : LoadsAbreast k sources) {known : List String} {line : Stmt}
    (hline : line.isHeaderLine known) (hnames : ∀ n ∈ line.declaredNames, k.Shares n)
    (hwhole : line.announcesWhole) :
    Follows k (statement sources line) (statement sources line) fun _ _ => True := by
  unfold Stmt.isHeaderLine at hline
  split at hline
  · exact .pure trivial
  · exact .pure trivial
  · rename_i m name
    refine (define hS ?_ rfl ?_ _ _).bind fun _ _ _ => .pure trivial <;> simp
  · exact (struct hS _ rfl _ _).bind fun _ _ _ => .pure trivial
  · exact (typedef hS rfl _ _ _).bind fun _ _ _ => .pure trivial
  · rename_i m d
    rw [Bool.and_eq_true, Option.isNone_iff_eq_none] at hline
    have hname : k.Shares d.name := hnames _ mem_cons_self
    refine (variableDeclaration hS hname rfl ?_ _ _).bind fun _ _ _ => .pure trivial
    rw [hline.1]
    exact nofun
  · rename_i m head
    intro s t hst a s' hrun
    obtain ⟨found, s1, hannounce, hdone⟩ := run_bind_ok.mp hrun
    cases hdone
    obtain ⟨types, returns, _, hlen, hagain⟩ := announce_restated hS hst (hnames _ mem_cons_self) hannounce
    obtain ⟨t', hrun', hst'⟩ := hagain head m.span.start (FunctionHead.isWhole.restatedAs hwhole returns hlen)
    exact ⟨_, t', run_bind_ok.mpr ⟨_, t', hrun', rfl⟩, hst', trivial⟩
  · cases hline

/-! ### Reading headers -/

end Check

/-- The pairing inside headers, where there are no results. -/
def Pairing.inHeader (k : Pairing) : Pairing := { ahead := k.ahead }

theorem Scope.Abreast.repair {k : Pairing} {a b : Scope} (h : a.Abreast k b) (k' : Pairing)
    (hk : k'.ahead = k.ahead) : a.Abreast k' b := by
  have hshares : ∀ name, k'.Shares name → k.Shares name := by
    intro name hname
    rwa [Pairing.Shares, ← hk]
  exact { h with
    lookup := fun name hname => h.lookup name (hshares name hname)
    isLocal := fun name hname => h.isLocal name (hshares name hname) }

namespace CheckState.Abreast

variable {k : Pairing} {s s' t t' : CheckState}

variable (h : s.Abreast k t)
include h

/-- The parts of the states that are the same. -/
theorem exists_eq : ∃ e f, t = { s with environment := e, function := f } :=
  ⟨_, _, h.others⟩

theorem openHeader : s.openHeader.Abreast k.inHeader t.openHeader := by
  obtain ⟨e, f, rfl⟩ := h.exists_eq
  have hglobal : s.environment.global.Abreast k e.global := h.global
  exact
    { global := hglobal.repair k.inHeader rfl
      locals := .nil
      ahead := h.ahead
      inside := rfl
      returns := rfl
      others := rfl }

theorem closeHeader (h' : s'.Abreast k.inHeader t') :
    (s.closeHeader s').Abreast k (t.closeHeader t') := by
  obtain ⟨e, f, rfl⟩ := h.exists_eq
  obtain ⟨e', f', rfl⟩ := h'.exists_eq
  have hheader : s'.environment.global.Abreast k.inHeader e'.global := h'.global
  have hglobal : s'.environment.global.Abreast k e'.global := hheader.repair k rfl
  refine
    { global := hglobal
      locals := ?_
      ahead := h'.ahead
      inside := h.inside
      returns := h.returns
      others := rfl }
  exact forall₂_map_left_iff.mpr
    (forall₂_map_right_iff.mpr (h.locals.imp fun _ _ hlocal => hlocal.absorb hglobal))

theorem listHeader (name : String) :
    (if s.headers.contains name then s else { s with headers := s.headers ++ [name] }).Abreast k
      (if t.headers.contains name then t else { t with headers := t.headers ++ [name] }) := by
  obtain ⟨e, f, rfl⟩ := h.exists_eq
  dsimp only
  split
  · exact h
  · exact { h with others := rfl }

end CheckState.Abreast

namespace Check

variable {k : Pairing} {config : Config} {depth : Nat}

/-- An include of a header by its name. -/
def includeHeader (config : Config) (sources : Sources) (path : String) (l : Location) : Check Unit :=
  match Header.named? config.headers path with
  | some header => loadHeader sources header
  | none => fail (.includeMissing path) l

/-- An include of a file, if one was found. -/
def includeFound (config : Config) (sources : Sources) (path : String) (l : Location) : Option Path → Check Unit
  | some file => includeFile config sources file l
  | none => includeHeader config sources path l

/-- An include that means no file. -/
theorem followInclude_header {sources : Sources} {path : String} {l : Location} {s : CheckState}
    (h : s.headerDepth ≠ 0 ∨ findInclude config s.directory path = none) :
    (followInclude config sources path l).run s = (includeHeader config sources path l).run s := by
  rcases h with hdepth | hnone
  · exact followInclude_run config sources path l hdepth
  · have hfile : (if s.headerDepth = 0 then findInclude config s.directory path else none) = none := by
      rw [hnone, ite_self]
    exact congrArg (fun file => EStateM.run (includeFound config sources path l file) s) hfile

theorem include_abreast (hS : LoadsAbreast k (sourcesTo config depth)) {path : String} {m : Mark}
    {s s' t : CheckState} (hpath : s.headerDepth ≠ 0 ∨ findInclude config s.directory path = none)
    (hst : s.Abreast k t) {checked : Stmt}
    (h : (statement (sourcesTo config depth) (.includeFile m path)).run s = .ok checked s') (m' : Mark) :
    ∃ t', (statement (sourcesTo config depth) (.includeFile m' path)).run t = .ok (.includeFile m' path) t' ∧
      s'.Abreast k t' := by
  obtain ⟨_, _, hget, h1⟩ := run_bind_ok.mp h
  cases hget
  obtain ⟨_, _, htop, h2⟩ := run_bind_ok.mp h1
  obtain ⟨htop, rfl⟩ := require_ok htop
  obtain ⟨_, s1, hfollow, h3⟩ := run_bind_ok.mp h2
  cases h3
  suffices hagain : ∃ t', ((sourcesTo config depth).follow path m'.span.start).run t = .ok () t' ∧ s'.Abreast k t' by
    obtain ⟨t', hfollow', hst'⟩ := hagain
    refine ⟨t', run_bind_ok.mpr ⟨t, t, rfl, run_bind_ok.mpr ⟨(), t, ?_, ?_⟩⟩, hst'⟩
    · rw [hst.atTopLevel, htop]
      rfl
    · exact run_bind_ok.mpr ⟨(), t', hfollow', rfl⟩
  cases depth with
  | zero => cases hfollow
  | succ depth =>
    have hpath' : t.headerDepth ≠ 0 ∨ findInclude config t.directory path = none := by
      rwa [hst.others]
    have hfollow : (followInclude config (sourcesTo config depth) path m.span.start).run _ = _ := hfollow
    rw [followInclude_header hpath, includeHeader] at hfollow
    cases hnamed : Header.named? config.headers path with
    | none =>
      rw [hnamed] at hfollow
      cases hfollow
    | some header =>
      rw [hnamed] at hfollow
      obtain ⟨_, t', hload, hst', _⟩ := hS header (mem_of_find?_eq_some hnamed) _ t hst _ _ hfollow
      refine ⟨t', ?_, hst'⟩
      show (followInclude config (sourcesTo config depth) path m'.span.start).run t = _
      rw [followInclude_header hpath', includeHeader, hnamed]
      exact hload

/-- The lines of a header, from a state inside it. -/
theorem lines_abreast (hS : LoadsAbreast k (sourcesTo config depth)) {allowed : List Header} {body : List Stmt}
    {known : List String} (hbody : Header.reads allowed known body)
    (hlists : ∀ line ∈ body, (∀ n ∈ line.declaredNames, k.Shares n) ∧ line.announcesWhole)
    {s s' t : CheckState} (hdepth : s.headerDepth ≠ 0) (hst : s.Abreast k t) {checked : List Stmt}
    (h : (statements (sourcesTo config depth) body).run s = .ok checked s') :
    ∃ again t', (statements (sourcesTo config depth) body).run t = .ok again t' ∧ s'.Abreast k t' := by
  induction body generalizing known s t checked with
  | nil =>
    cases h
    exact ⟨[], t, rfl, hst⟩
  | cons line rest ih =>
    rw [Header.reads, Bool.and_eq_true] at hbody
    obtain ⟨hline, hrest⟩ := hbody
    obtain ⟨⟨hnames, hwhole⟩, hlists⟩ := forall_mem_cons.mp hlists
    obtain ⟨first, s1, hfirst, h1⟩ := run_bind_ok.mp h
    obtain ⟨more, s2, hmore, h2⟩ := run_bind_ok.mp h1
    cases h2
    have hdepth1 : s1.headerDepth ≠ 0 := by
      have hplace := (((situated_tolerates config).respects depth).statement line .any).ok hfirst
      rwa [hplace.header]
    suffices hstep : ∃ again t1, (statement (sourcesTo config depth) line).run t = .ok again t1 ∧
        s1.Abreast k t1 by
      obtain ⟨again, t1, hagain, hst1⟩ := hstep
      obtain ⟨others, t2, hothers, hst2⟩ := ih hrest hlists hdepth1 hst1 hmore
      exact ⟨_, t2, run_bind_ok.mpr ⟨_, t1, hagain, run_bind_ok.mpr ⟨_, t2, hothers, rfl⟩⟩, hst2⟩
    unfold Header.readsLine at hline
    cases hincluded : line.included? with
    | none =>
      rw [hincluded] at hline
      obtain ⟨again, t1, hagain, hst1, _⟩ := Follows.headerLine hS hline hnames hwhole s t hst _ _ hfirst
      exact ⟨again, t1, hagain, hst1⟩
    | some path =>
      obtain ⟨m, rfl⟩ := Stmt.eq_includeFile hincluded
      obtain ⟨t1, hagain, hst1⟩ := include_abreast hS (.inl hdepth) hst hfirst m
      exact ⟨_, t1, hagain, hst1⟩

/-- A header, given that those it includes are read side by side. -/
theorem loadHeader_abreast (hS : LoadsAbreast k.inHeader (sourcesTo config depth)) {header : Header}
    (hmem : header ∈ Header.standard) (hnames : ∀ n ∈ header.names, k.Shares n) :
    Follows k (loadHeader (sourcesTo config depth) header) (loadHeader (sourcesTo config depth) header)
      fun _ _ => True := by
  intro s t hst a s' h
  obtain ⟨_, _, hget, h1⟩ := run_bind_ok.mp h
  cases hget
  have hheaders : t.headers = s.headers := by rw [hst.others]
  unfold loadHeader
  by_cases hread : s.headers.contains header.name
  · simp only [hread] at h1
    cases h1
    refine ⟨(), t, run_bind_ok.mpr ⟨t, t, rfl, ?_⟩, hst, trivial⟩
    simp only [hheaders, hread]
    rfl
  · simp only [Bool.not_eq_true] at hread
    simp only [hread] at h1
    obtain ⟨m, s1, hparsed, h2⟩ := run_bind_ok.mp h1
    obtain ⟨hm, rfl⟩ := parsed_ok hparsed
    obtain ⟨body, s2, hbody, h3⟩ := run_bind_ok.mp h2
    cases h3
    rw [inHeader_run] at hbody
    cases hlines : (statements (sourcesTo config depth) m.body).run s1.openHeader with
    | error failure s3 =>
      rw [hlines] at hbody
      cases hbody
    | ok lines s3 =>
      rw [hlines] at hbody
      cases hbody
      obtain ⟨m', hm', htext, _⟩ := Header.standard_text hmem
      obtain rfl : m = m' := Except.ok.inj (hm.symm.trans hm')
      simp only [Header.isText, Bool.and_eq_true] at htext
      have hlists : ∀ line ∈ m.body, (∀ n ∈ line.declaredNames, k.inHeader.Shares n) ∧ line.announcesWhole := by
        intro line hline
        obtain ⟨⟨hlisted, _⟩, hwhole⟩ := Header.standard_lists hmem hm line hline
        exact ⟨fun n hn => hnames n (hlisted n hn), hwhole⟩
      obtain ⟨again, t3, hagain, hst3⟩ := lines_abreast hS htext.1.1 hlists (Nat.succ_ne_zero _) hst.openHeader hlines
      refine ⟨(), _, run_bind_ok.mpr ⟨t, t, rfl, ?_⟩, (hst.closeHeader hst3).listHeader header.name, trivial⟩
      simp only [hheaders, hread]
      refine run_bind_ok.mpr ⟨m, t, parsed_run hm t, run_bind_ok.mpr ⟨again, t.closeHeader t3, ?_, rfl⟩⟩
      rw [inHeader_run, hagain]

/-- **Headers are read alike by both checks**, unless one of them declares the function ahead. -/
theorem loads_abreast (config : Config) (depth : Nat) (k : Pairing)
    (hclear : ∀ f ∈ k.ahead, Header.ofVariable? config.headers f.1 = none) :
    LoadsAbreast k (sourcesTo config depth) := by
  induction depth generalizing k with
  | zero =>
    intro header _ s t _ a s' h
    cases h
  | succ depth ih =>
    intro header hmem
    refine loadHeader_abreast (ih k.inHeader hclear) (config.mem_standard hmem) fun n hn f hf hname => ?_
    have hnone := find?_eq_none.mp (hclear f hf) header hmem
    rw [hname] at hnone
    exact hnone (contains_iff_mem.mpr hn)

end Check

end Offside
