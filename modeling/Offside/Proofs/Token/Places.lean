import Offside.Proofs.Grammar.Rows
import Offside.Proofs.Token.Coverage

/-! Where the tokens of a text stand.

A place in a text is the line and the column of one of its offsets (`Location.Within`). Tokens start and
stop at such places, those that open and close blocks included, and a fault of the characters or of the
layout is reported at one, behind all tokens before it: `TokenStream.ofText_located`. -/
namespace Offside

open List

/-! ### Places of a text -/

/-- The place at an offset of a text. -/
def Location.ofOffset (file : String) (text : List Char) (n : Nat) : Location := ⟨file, .ofOffset text n⟩

/-- The place is that of an offset of the text, at most the given one. -/
def Location.Within (file : String) (text : List Char) (n : Nat) (l : Location) : Prop :=
  ∃ k ≤ n, l = ofOffset file text k

/-- The place is that of an offset of the text of a file, as it is read: with its line ends folded. -/
def Location.InText (file text : String) (l : Location) : Prop :=
  ∃ n ≤ (foldLineEnds text.toList).length, l = ofOffset file (foldLineEnds text.toList) n

namespace Location

variable {file : String} {text : List Char} {m n : Nat} {l : Location}

theorem within_ofOffset (h : m ≤ n) : Within file text n (ofOffset file text m) := ⟨m, h, rfl⟩

theorem Within.mono (h : Within file text m l) (hmn : m ≤ n) : Within file text n l := by
  obtain ⟨k, hk, hl⟩ := h
  exact ⟨k, Nat.le_trans hk hmn, hl⟩

theorem upTo_ofOffset (file : String) (text : List Char) (h : m ≤ n) :
    (ofOffset file text m).UpTo (ofOffset file text n) := by
  refine ⟨rfl, ?_⟩
  have hsplit : Position.ofOffset text n = (Position.ofOffset text m).afterAll ((text.drop m).take (n - m)) := by
    rw [Position.ofOffset, Position.ofOffset, ← Position.behind_append, ← take_add, Nat.add_sub_cancel' h]
  show (Position.ofOffset text m).precedes (Position.ofOffset text n)
  rw [hsplit]
  exact Position.precedes_afterAll _ _

theorem Within.upTo (h : Within file text n l) : l.UpTo (ofOffset file text n) := by
  obtain ⟨k, hk, rfl⟩ := h
  exact upTo_ofOffset file text hk

end Location

/-! ### One token -/

namespace Scanner

variable {s after : Scanner} {file : String} {text : List Char} {n : Nat} {failure : Failure}

theorem Stands.skipTrivia (h : s.Stands file text n) : ∃ k, n ≤ k ∧ s.skipTrivia.Stands file text k :=
  ⟨_, Nat.le_add_right _ _, h.advance (triviaLength_le _ _ _ _)⟩

/-- Moving on stops at the end of the text. -/
theorem Stands.advance_location (h : s.Stands file text n) (k : Nat) :
    ∃ m, n ≤ m ∧ m ≤ text.length ∧ (s.advance k).location = .ofOffset file text m := by
  by_cases hk : k ≤ s.rest.length
  · have hstands := h.advance hk
    exact ⟨_, Nat.le_add_right _ _, hstands.inside, hstands.location⟩
  · have hstands := h.advance (Nat.le_refl s.rest.length)
    have hend : (s.advance k).location = (s.advance s.rest.length).location := by
      unfold Scanner.advance Scanner.location
      rw [take_of_length_le (by omega), take_length]
    rw [hend]
    exact ⟨_, Nat.le_add_right _ _, hstands.inside, hstands.location⟩

/-- A fault of the characters is reported inside the text, not before the scanner. -/
theorem next_error_location (hs : s.Stands file text n) (h : s.next = (.error failure, after)) :
    ∃ m, n ≤ m ∧ m ≤ text.length ∧ failure.location? = some (.ofOffset file text m) := by
  unfold next take at h
  cases hfront : (front s.skipTrivia.rest).outcome with
  | ok kind => simp [hfront] at h
  | error e =>
    obtain ⟨fault, offset⟩ := e
    simp only [hfront, Prod.mk.injEq, Except.error.injEq] at h
    obtain ⟨k, hk, hskip⟩ := hs.skipTrivia
    obtain ⟨m, hm, hinside, hl⟩ := hskip.advance_location offset
    refine ⟨m, Nat.le_trans hk hm, hinside, ?_⟩
    rw [← h.1, ← hl]
    rfl

end Scanner

/-! ### Layout -/

namespace Indentation

variable {s : Indentation} {m : MarkedToken}

/-- A token of a step is the one that was pushed, or one that takes up no text before it. -/
theorem mem_push_out {u : Token} (h : u ∈ (s.push m).out) : u = m.token ∨ u.span = Span.point m.token.start := by
  obtain hout | ⟨front, hfront, hout⟩ := s.push_out m
  · rw [hout] at h
    cases h
  · rw [hout, mem_append, mem_singleton] at h
    rcases h with h | h
    · exact .inr (hfront u h)
    · exact .inl h

/-- Layout makes up no end of the file. -/
theorem endOfFile_push {u : Token} (h : u ∈ (s.push m).out) (hu : u.kind = .endOfFile) :
    m.token.kind = .endOfFile := by
  have hclosing {n : Nat} (h : u ∈ replicate n (Token.atPoint .dedent m.token.start) ++ [m.token]) :
      m.token.kind = .endOfFile := by
    rcases mem_append.mp h with h | h
    · rw [eq_of_mem_replicate h] at hu
      cases hu
    · rw [← mem_singleton.mp h, hu]
  have halone (h : u ∈ [m.token]) : m.token.kind = .endOfFile := by
    rw [← mem_singleton.mp h, hu]
  unfold push closeTo at h
  dsimp only at h
  split at h
  · cases h
  · dsimp only at h
    split at h
    · cases h
    · exact halone h
  · split at h
    · split at h
      · cases h
      · rcases mem_cons.mp h with rfl | h
        · cases hu
        · exact halone h
    · split at h
      · assumption
      · split at h
        · split at h
          · cases h
          · split at h
            · split at h
              · exact hclosing h
              · cases h
            · exact halone h
        · exact halone h

/-- A fault of the layout is reported where the token starts. -/
theorem push_failure_location {failure : Failure} (h : (s.push m).failure = some failure) :
    failure.location? = some m.token.start := by
  unfold push at h
  dsimp only at h
  split at h
  · cases h
  · cases h
  · repeat' split at h
    all_goals cases h <;> rfl

end Indentation

/-! ### Streams -/

namespace TokenStream

/-- Tokens that were found in a text from an offset on, up to the offset where something cut them short or
to the end of the file. -/
structure Located (file : String) (text : List Char) (n stop : Nat) (found : List Token × Option Failure) :
    Prop where
  behind : n ≤ stop
  inside : stop ≤ text.length
  tokens : ∀ t ∈ found.1, t.span.start.Within file text stop ∧ t.span.stop.Within file text stop
  failure : ∀ f ∈ found.2, f.location? = some (.ofOffset file text stop)
  unended : found.2 ≠ none → ∀ t ∈ found.1, t.kind ≠ .endOfFile

variable {file : String} {text : List Char} {n stop : Nat} {failure : Failure}

/-- Nothing is found before a fault. -/
theorem Located.fault (hn : n ≤ stop) (hstop : stop ≤ text.length)
    (h : failure.location? = some (.ofOffset file text stop)) :
    Located file text n stop ([], some failure) where
  behind := hn
  inside := hstop
  tokens := forall_mem_nil _
  failure f hf := by
    obtain rfl : failure = f := by simpa using hf
    exact h
  unended _ := forall_mem_nil _

/-- The tokens that one raw token brings out stand at its two ends. -/
theorem within_push {layout : Layout} {t : Token} (hstart : t.span.start.Within file text stop)
    (hstop : t.span.stop.Within file text stop) :
    ∀ u ∈ (layout.push t).2.1.out, u.span.start.Within file text stop ∧ u.span.stop.Within file text stop := by
  intro u hu
  rw [Layout.push_eq] at hu
  have hu := Indentation.mem_push_out hu
  rw [LineState.mark_token] at hu
  rcases hu with rfl | hu
  · exact ⟨hstart, hstop⟩
  · rw [hu]
    exact ⟨hstart, hstart⟩

theorem collect_located (fuel : Nat) {scanner : Scanner} (layout : Layout) (hs : scanner.Stands file text n) :
    ∃ stop, Located file text n stop (collect fuel scanner layout) := by
  induction fuel generalizing scanner layout n with
  | zero =>
    refine ⟨n, Nat.le_refl n, hs.inside, forall_mem_nil _, ?_, fun _ => forall_mem_nil _⟩
    simp [collect]
  | succ fuel ih =>
    rw [collect_succ]
    cases hnext : scanner.next with
    | mk outcome after =>
    cases outcome with
    | error failure =>
      obtain ⟨m, hm, hinside, hl⟩ := Scanner.next_error_location hs hnext
      exact ⟨m, .fault hm hinside hl⟩
    | ok t =>
      obtain ⟨start, stop, hplace, hafter, _⟩ := Scanner.next_occupies hs hnext
      have hbehind := hplace.behind
      have hordered := hplace.ordered
      have hspan : t.span = ⟨.ofOffset file text start, .ofOffset file text stop⟩ := hplace.span
      dsimp only
      cases hpush : (layout.push t).2.1.failure with
      | some failure =>
        rw [Layout.push_eq] at hpush
        have hl := Indentation.push_failure_location hpush
        rw [LineState.mark_token, Token.start, hspan] at hl
        exact ⟨start, .fault hbehind (Nat.le_trans hordered hafter.inside) hl⟩
      | none =>
        have hout {last : Nat} (hlast : stop ≤ last) : ∀ u ∈ (layout.push t).2.1.out,
              u.span.start.Within file text last ∧ u.span.stop.Within file text last := by
          apply within_push
          · rw [hspan]
            exact Location.within_ofOffset (Nat.le_trans hordered hlast)
          · rw [hspan]
            exact Location.within_ofOffset hlast
        dsimp only
        split
        · refine ⟨stop, by omega, hafter.inside, hout (Nat.le_refl stop), by simp, ?_⟩
          exact fun h => absurd rfl h
        · rename_i hend
          obtain ⟨last, hrest⟩ := ih (layout.push t).2.2 hafter
          have hnone : ∀ u ∈ (layout.push t).2.1.out, u.kind ≠ .endOfFile := by
            intro u hu hkind
            rw [Layout.push_eq] at hu
            have ht := Indentation.endOfFile_push hu hkind
            rw [LineState.mark_token] at ht
            exact hend ht
          refine ⟨last, by have := hrest.behind; omega, hrest.inside, ?_, hrest.failure, ?_⟩
          · exact forall_mem_append.mpr ⟨hout hrest.behind, hrest.tokens⟩
          · exact fun hf => forall_mem_append.mpr ⟨hnone, hrest.unended hf⟩

/-- **Where the tokens of a text stand.** -/
theorem ofText_located (file text : String) : ∃ stop, Located file (foldLineEnds text.toList) 0 stop
      ((ofText file text).tokens, (ofText file text).failure) := by
  have hstart : (Scanner.ofText file text).Stands file (foldLineEnds text.toList) 0 := ⟨rfl, rfl, rfl, Nat.zero_le _⟩
  exact collect_located ((Scanner.ofText file text).rest.length + 1) {} hstart

end TokenStream

end Offside
