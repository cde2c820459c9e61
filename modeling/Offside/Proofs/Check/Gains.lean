import Offside.Proofs.Check.Onward

/-! Checking an expression again.

The check of an expression reads headers and does nothing else, so whatever a scope comes to know is declared
by a line of a header that was read (`Check.gathers_sourcesTo`). Headers set no constants; but with what is
new in the global scope the local ones take in all that they miss of it, and a constant that was withdrawn
from a local scope comes back. Where none does, the checked expression is checked again with the same
outcome, and nothing is left to be read (`Check.Reached.typed_again`). -/
namespace Offside

open List

/-- A line of one of the headers declares the name. -/
def Header.Declared (headers : List Header) (kind : NameKind) (name : String) : Prop :=
  ∃ h ∈ headers, ∃ m, Module.ofText h.name h.source = .ok m ∧ ∃ line ∈ m.body, line.declares? = some (kind, name)

/-- What the second scope knows beyond the first is declared by one of the headers, or one of the constants
that are given. -/
structure Scope.Gains (read : List Header) (given : Dictionary Int) (s s' : Scope) : Prop where
  names : ∀ n kind, s'.knows n kind → s.knows n kind ∨ Header.Declared read kind n
  constants : ∀ n v, s'.constants.get? n = some v → s.constants.get? n = some v ∨ given.get? n = some v

namespace Scope.Gains

variable {read more : List Header} {given given' : Dictionary Int} {s s' t g g' : Scope}

theorem refl (s : Scope) : s.Gains read given s := ⟨fun _ _ => .inl, fun _ _ => .inl⟩

theorem trans (h : s.Gains read given t) (h' : t.Gains read given s') : s.Gains read given s' where
  names n kind hn := (h'.names n kind hn).elim (h.names n kind) .inr
  constants n v hn := (h'.constants n v hn).elim (h.constants n v) .inr

theorem mono (h : s.Gains read given s') (hread : read ⊆ more)
    (hgiven : ∀ n v, given.get? n = some v → given'.get? n = some v) : s.Gains more given' s' where
  names n kind hn := (h.names n kind hn).imp_right fun ⟨header, hmem, hdeclared⟩ => ⟨header, hread hmem, hdeclared⟩
  constants n v hn := (h.constants n v hn).imp_right (hgiven n v)

/-- A scope that knows the names of the global one gains what that gains, and constants that it misses. -/
theorem absorb (h : g.Gains read g.constants g') (hs : g.CoveredBy s) :
    s.Gains read g.constants (s.absorb g') where
  names n kind hn := by
    have hcovered (hg : g.knows n kind) : s.knows n kind := by
      cases kind with
      | name => exact hs.names n hg
      | type => exact hs.types n hg
      | guard => exact hs.macros n hg
      | body => exact hs.functions n hg
    have hor : (s.absorb g').knows n kind = (s.knows n kind || g'.knows n kind) := by
      cases kind <;> simp [knows, Scope.absorb, lookup, TypeTable.contains, TypeTable.absorb, Dictionary.contains,
        Dictionary.get?_absorb, NameSet.contains_absorb]
    rw [hor, Bool.or_eq_true] at hn
    exact hn.elim .inl fun hn => (h.names n kind hn).imp_left hcovered
  constants n v hn := by
    simp only [Scope.absorb, Dictionary.get?_absorb, Option.or_eq_some_iff] at hn
    exact hn.imp_right fun hn => (h.constants n v hn.2).elim id id

end Scope.Gains

namespace Check

variable {config : Config} {depth : Nat} {s s' t : CheckState} {inner read more : List Header} {header : Header}

/-- Some of the headers that there are have been read, inside others perhaps, and only what they all declare
is new. -/
structure Brings (config : Config) (inner read : List Header) (s s' : CheckState) : Prop where
  offered : ∀ h ∈ read, h ∈ config.headers
  headers : s'.headers = s.headers ++ read.map Header.name
  global : s.environment.global.Gains (inner ++ read) s.environment.global.constants s'.environment.global
  locals : List.Forall₂ (Scope.Gains (inner ++ read) s.environment.global.constants) s.environment.locals
    s'.environment.locals

theorem Brings.refl (s : CheckState) : Brings config inner [] s s :=
  ⟨nofun, (append_nil _).symm, .refl _, forall₂_same.mpr fun _ _ => .refl _⟩

theorem Brings.trans (h : Brings config inner read s t) (h' : Brings config inner more t s') :
    Brings config inner (read ++ more) s s' := by
  have hfirst {a b : Scope} (hgains : a.Gains (inner ++ read) s.environment.global.constants b) :
      a.Gains (inner ++ (read ++ more)) s.environment.global.constants b := hgains.mono (by simp) fun _ _ => id
  have hsecond {a b : Scope} (hgains : a.Gains (inner ++ more) t.environment.global.constants b) :
      a.Gains (inner ++ (read ++ more)) s.environment.global.constants b :=
    hgains.mono (by simp) fun n v hv => (h.global.constants n v hv).elim id id
  exact
    { offered := forall_mem_append.mpr ⟨h.offered, h'.offered⟩
      headers := by rw [h'.headers, h.headers, map_append, append_assoc]
      global := (hfirst h.global).trans (hsecond h'.global)
      locals := forall₂_trans (fun _ _ _ => .trans) (h.locals.imp fun _ _ => hfirst)
        (h'.locals.imp fun _ _ => hsecond) }

/-- A course on which headers are read only. -/
def Gathers (config : Config) : Course := fun s failure s' =>
  failure = none → s.Furnished → s.Visible → s'.Furnished ∧ s'.Visible ∧ ∃ read, Brings config [] read s s'

theorem gathers_chains (config : Config) : Chains (Gathers config) where
  refl s _ hs hv := ⟨hs, hv, [], .refl s⟩
  trans h h' hfailure hs hv := by
    obtain ⟨ht, hvisible, read, hfirst⟩ := h rfl hs hv
    obtain ⟨hu, hvisible', more, hsecond⟩ := h' hfailure ht hvisible
    exact ⟨hu, hvisible', read ++ more, hfirst.trans hsecond⟩
  fail _ _ _ := nofun

/-- A line of a header brings what it declares. -/
theorem headerLine_brings {m : Module} (hm : Module.ofText header.name header.source = .ok m) {line line' : Stmt}
    (hmem : line ∈ m.body) {known : List String} (hs : AtLine known s) (hline : line.isHeaderLine known)
    (h : (statement (sourcesTo config depth) line).run s = .ok line' s') : Brings config [header] [] s s' := by
  obtain ⟨scope, rfl, htakes⟩ := headerLine_takes (hs.scope ▸ hs.known) hline h
  obtain ⟨⟨locals, global⟩⟩ := s
  obtain rfl : locals = [] := hs.locals
  refine ⟨nofun, (append_nil _).symm, ⟨fun n kind hn => ?_, fun n v hv => ?_⟩, .nil⟩
  · exact ((htakes.knows n kind).mp hn).imp_right fun hnew =>
      ⟨header, mem_singleton.mpr rfl, m, hm, line, hmem, hnew⟩
  · exact .inl (htakes.constants ▸ hv)

/-- Reading headers, at any depth. -/
theorem gathers_sourcesTo (config : Config) (depth : Nat) : Loads (Gathers config) (sourcesTo config depth) := by
  induction depth with
  | zero => exact { gathers_chains config with load := fun _ _ h => by cases h }
  | succ depth ih =>
    refine { gathers_chains config with load := fun {header} hmem s => ?_ }
    refine (gathers_chains config).loadHeader (fun _ _ => trivial) (fun _ _ _ _ _ _ h => by cases h) ?_
    intro m body s' hm hnew hrun _ hs hv
    obtain ⟨m', hm', htext, _⟩ := Header.standard_text (config.mem_standard hmem)
    rw [hm] at hm'
    cases hm'
    simp only [Header.isText, Bool.and_eq_true] at htext
    obtain ⟨read, hread⟩ : ∃ read, Brings config [header] read s.openHeader s' := by
      refine lines_run (R := fun s s' => ∃ read, Brings config [header] read s s') (fun s => ⟨[], .refl s⟩) ?_
        (fun hmem hs hline hrun => ⟨[], headerLine_brings hm hmem hs hline hrun⟩) ?_ (fun _ => id) htext.1.1
        (atLine_openHeader hs) hrun
      · rintro s t u ⟨read, hfirst⟩ ⟨more, hsecond⟩
        exact ⟨read ++ more, hfirst.trans hsecond⟩
      intro known s other s' hmem hs hrun
      have hvisible : s.Visible := by
        rw [CheckState.Visible, hs.locals]
        exact forall_mem_nil _
      obtain ⟨_, _, read, hread⟩ := (ih.load hmem).ok hrun rfl hs.furnished hvisible
      refine ⟨read, hread.offered, hread.headers, hread.global.mono (by simp) fun _ _ => id, ?_⟩
      exact hread.locals.imp fun _ _ hgains => hgains.mono (by simp) fun _ _ => id
    have hclosed {all : List Header} (hall : header :: read ⊆ all) :
        s.environment.global.Gains all s.environment.global.constants s'.environment.global ∧
        List.Forall₂ (Scope.Gains all s.environment.global.constants) s.environment.locals
          (s.closeHeader s').environment.locals := by
      have hglobal := hread.global.mono hall fun _ _ => id
      exact ⟨hglobal, forall₂_map_right_iff.mpr (forall₂_same.mpr fun frame hframe => hglobal.absorb (hv frame hframe))⟩
    have hfurnished := furnished_tolerates config
    have hinside : s.openHeader.Furnished → s'.Furnished :=
      ((hfurnished.respects depth).statements m.body .any).ok hrun
    split
    · rename_i hin
      -- The header was read once more by its own lines, and is on the list for that.
      have hown : header ∈ read := by
        have hin : header.name ∈ s.headers ++ read.map Header.name := hread.headers ▸ contains_iff_mem.mp hin
        obtain ⟨other, hother, hname⟩ := mem_map.mp ((mem_append.mp hin).resolve_left (by simpa using hnew))
        have hoffered := config.mem_standard (hread.offered other hother)
        exact Header.eq_of_name hoffered (config.mem_standard hmem) hname ▸ hother
      obtain ⟨hglobal, hlocals⟩ := hclosed (cons_subset.mpr ⟨hown, fun _ => id⟩)
      exact ⟨hfurnished.header hinside hs, .closeHeader s s', read, hread.offered, hread.headers, hglobal, hlocals⟩
    · rename_i hfirst
      obtain ⟨hglobal, hlocals⟩ := hclosed (show header :: read ⊆ read ++ [header] by simp)
      refine ⟨hfurnished.headerRead hmem hm hrun (by simpa using hfirst) hinside hs,
        (CheckState.Visible.closeHeader s s').congr rfl, read ++ [header], ?_, ?_, hglobal, hlocals⟩
      · exact forall_mem_append.mpr ⟨hread.offered, forall_mem_singleton.mpr hmem⟩
      · show s'.headers ++ [header.name] = _
        rw [hread.headers, map_append, append_assoc]
        rfl

/-- **Checking an expression reads headers, and checking it again does nothing.** Wherever a check stands,
an expression that is in order leaves everything in place but that some headers were read: every scope says
what it said, and what it knows besides is declared by these headers, or a constant of the global scope. The
checked expression carries its type, and if no constant came back to the current scope, it is checked again
with the same outcome, in a state that stays the same. -/
theorem Reached.typed_again (h : Reached config s) {e e' : Expr} {type : ValueType}
    (hrun : (typed (sourcesTo config depth) e).run s = .ok (e', type) s') :
    (∃ read, (∀ h ∈ read, h ∈ config.headers) ∧ s'.headers = s.headers ++ read.map Header.name ∧
      List.Forall₂ Scope.ExtendsTo s.frames s'.frames ∧
      List.Forall₂ (Scope.Gains read s.environment.global.constants) s.frames s'.frames) ∧
    s' = { s with environment := s'.environment, headers := s'.headers } ∧
    e'.type? = some type ∧
    ((∀ n, s'.scope.constants.get? n = s.scope.constants.get? n) →
      (typed (sourcesTo config depth) e').run s' = .ok (e', type) s') := by
  obtain ⟨_, _, read, hread⟩ := ((gathers_sourcesTo config depth).typed e .any).ok hrun rfl h.furnished h.visible
  have heffect := ((reads_sourcesTo config depth).typed e .any).ok hrun h.furnished
  refine ⟨⟨read, hread.offered, hread.headers, ?_, ?_⟩, heffect.others, ?_, fun hconstants => ?_⟩
  · exact List.rel_append heffect.locals (.cons heffect.global .nil)
  · exact List.rel_append hread.locals (.cons hread.global .nil)
  · exact (typed_hasType _ e s _ s' trivial hrun).type?
  · have hgains : s.scope.Gains read s.environment.global.constants s'.scope :=
      CheckState.scope_of_forall₂ hread.locals hread.global
    have hsettled : Settled config s s' := by
      refine ⟨h, fun n hn => (hgains.names n .type hn).imp_right ?_, hconstants⟩
      rintro ⟨header, hmem, m, hm, line, hline, hdeclares⟩
      have hoffered := hread.offered header hmem
      have hlisted := (Header.standard_lists (config.mem_standard hoffered) hm line hline).1.2 n
        (Stmt.declares_type_iff.mp hdeclares)
      exact find?_isSome.mpr ⟨header, hoffered, contains_iff_mem.mpr hlisted⟩
    have hF : Footing config (sourcesTo config depth) True := ⟨reads_sourcesTo config depth, fun _ => ⟨depth, rfl⟩⟩
    exact ((typed_learns hF e s _ s' h.furnished hrun).2.2 s' (.refl _) fun _ => hsettled).2.again trivial

/-- The call of a function that a header declares, at the beginning of a program. -/
theorem typed_again_abs : ∃ e' type s',
    (typed (sourcesTo {} 2) (.call default (.name default "abs") [.int default 1])).run (CheckedUnit.startState none) =
      .ok (e', type) s' ∧ s'.headers = ["stdlib.h"] ∧ (typed (sourcesTo {} 2) e').run s' = .ok (e', type) s' := by
  have hread : (match (typed (sourcesTo {} 2) (.call default (.name default "abs") [.int default 1])).run
      (CheckedUnit.startState none) with
    | .ok _ s' => s'.headers == ["stdlib.h"] && s'.scope.constants.entries.isEmpty
    | .error _ _ => false) = true := by decide +kernel
  split at hread
  · rename_i r s' hrun
    rw [Bool.and_eq_true, beq_iff_eq, List.isEmpty_iff] at hread
    refine ⟨r.1, r.2, s', hrun, hread.1, (Reached.typed_again (.start none) hrun).2.2.2 fun n => ?_⟩
    rw [Dictionary.get?, hread.2]
    rfl
  · cases hread

/-- A constant that a function has withdrawn comes back when a header is read: the type that is written the
same before and behind is not the same. -/
theorem withdrawn_constant_returns :
    (match CheckedUnit.ofText {} "t.cu" ("define N 2\ndef f(x: int, p: void[]) -> int:\n    define N x\n" ++
        "    q: int[N][] = <int[N][]> p\n    abs(1)\n    r: int[N][] = q\n    return 0\n") with
      | .error (.semantic (.mismatch (.initialization name) expected found) _) =>
        name == "r" && expected.text == "int[2][]" && found.text == "int[N][]"
      | _ => false) = true := by
  decide +kernel

end Check

end Offside
