import Offside.Proofs.Token.Lexeme
import Offside.Token.Scanner

/-! One step of the scanner.

`Scanner.next` either stands at the end of the text and says so, or uses up at least one character. Its
answer is one of three (`next_cases`); what the layout of lines needs to know of it is that blanks are a
token only at the start of a line (`atLineStart_of_whitespace`), and how a token moves the scanner's own
idea of where lines start (`atLineStart_next`). -/
namespace Offside

open Text List

/-! ### Characters without meaning -/

/-- Where blanks mean nothing, none is left behind what is passed over. -/
theorem isBlank_head_drop_triviaLength (newlines comment : Bool) (text : List Char) {c : Char}
    (h : (text.drop (triviaLength true newlines comment text)).head? = some c) :
    isBlank c = false := by
  fun_induction triviaLength true newlines comment text with
  | case1 => simp at h
  | case2 _ _ hn ih => exact ih (by simpa using h)
  | case3 =>
    simp only [drop_zero, head?_cons, Option.some.injEq] at h
    subst h
    rfl
  | case4 _ _ _ ih => exact ih (by simpa using h)
  | case5 _ ih => exact ih (by simpa using h)
  | case6 _ ih => exact ih (by simpa using h)
  | case7 _ _ _ _ _ _ ih => exact ih (by simpa using h)
  | case8 _ _ _ _ _ hb =>
    simp only [drop_zero, head?_cons, Option.some.injEq] at h
    subst h
    simpa using hb

namespace Scanner

variable {after s : Scanner} {t : Token}

@[simp] theorem advance_rest (s : Scanner) (n : Nat) : (s.advance n).rest = s.rest.drop n := rfl

@[simp] theorem advance_atLineStart (s : Scanner) (n : Nat) : (s.advance n).atLineStart = s.atLineStart := rfl

@[simp] theorem advance_brackets (s : Scanner) (n : Nat) : (s.advance n).brackets = s.brackets := rfl

@[simp] theorem advance_file (s : Scanner) (n : Nat) : (s.advance n).file = s.file := rfl

@[simp] theorem skipTrivia_atLineStart (s : Scanner) : s.skipTrivia.atLineStart = s.atLineStart := rfl

@[simp] theorem skipTrivia_brackets (s : Scanner) : s.skipTrivia.brackets = s.brackets := rfl

@[simp] theorem note_rest (s : Scanner) (kind : TokenKind) : (s.note kind).rest = s.rest := by
  unfold note
  split <;> rfl

theorem skipTrivia_rest_length (s : Scanner) : s.skipTrivia.rest.length ≤ s.rest.length := by
  simp [skipTrivia]

/-! ### The lexeme at the front -/

/-- What stands at the front of a text that has not ended. -/
theorem front_cases (c : Char) (rest : List Char) :
    (∃ w, 0 < w ∧ isBlank c ∧ front (c :: rest) = .ok (.whitespace w) w) ∨
      (∃ n, 0 < n ∧ front (c :: rest) = .ok .newline n) ∨ (front (c :: rest)).Sound := by
  unfold front
  simp only
  by_cases hb : isBlank c
  · left
    refine ⟨_, ?_, hb, if_pos hb⟩
    rw [takeWhile_cons_of_pos hb]
    exact Nat.succ_pos _
  · rw [if_neg hb]
    by_cases hn : c = '\n'
    · right; left
      subst hn
      exact ⟨_, by simp, if_pos rfl⟩
    · right; right
      rw [if_neg hn]
      exact Lexeme.ofText_sound c rest

theorem front_progress (c : Char) (rest : List Char) : 0 < (front (c :: rest)).length := by
  obtain ⟨w, hw, _, h⟩ | ⟨n, hn, h⟩ | h := front_cases c rest
  · rw [h]; exact hw
  · rw [h]; exact hn
  · exact h.progress

theorem front_ne_endOfFile (c : Char) (rest : List Char) : (front (c :: rest)).outcome ≠ .ok .endOfFile := by
  intro he
  obtain ⟨w, _, _, h⟩ | ⟨n, _, h⟩ | h := front_cases c rest
  · rw [h] at he; cases he
  · rw [h] at he; cases he
  · exact absurd (h.substance _ he) (by decide)

/-- The layout a text itself can hold is blanks and newlines. -/
theorem front_genuine {text : List Char} {kind : TokenKind} (he : (front text).outcome = .ok kind) :
    kind.Genuine ∧ kind ≠ .indent ∧ kind ≠ .dedent := by
  cases text with
  | nil =>
    cases he
    exact ⟨trivial, by decide, by decide⟩
  | cons c rest =>
    obtain ⟨w, _, _, h⟩ | ⟨n, _, h⟩ | h := front_cases c rest
    · rw [h] at he
      cases he
      exact ⟨trivial, by simp, by simp⟩
    · rw [h] at he
      cases he
      exact ⟨trivial, by decide, by decide⟩
    · have hs := h.substance kind he
      refine ⟨h.genuine kind he, ?_, ?_⟩ <;> rintro rfl <;> cases hs

/-! ### One step -/

/-- What a step can do: stop at the end, find a token, or report a fault. -/
theorem next_cases (s : Scanner) :
    (s.skipTrivia.rest = [] ∧ ∃ span, s.next = (.ok ⟨.endOfFile, span⟩, s.skipTrivia)) ∨
    (∃ kind span, (front s.skipTrivia.rest).outcome = .ok kind ∧ kind ≠ .endOfFile ∧
      s.next = (.ok ⟨kind, span⟩,
        (s.skipTrivia.advance (front s.skipTrivia.rest).length).note kind) ∧
      s.skipTrivia.rest ≠ []) ∨
    (∃ failure after, s.next = (.error failure, after)) := by
  unfold next
  simp only [take]
  cases hr : s.skipTrivia.rest with
  | nil =>
    refine .inl ⟨rfl, Span.point s.skipTrivia.location, ?_⟩
    have hnil : s.skipTrivia.advance 0 = s.skipTrivia := by
      unfold advance
      rw [drop_zero, take_zero]
      rfl
    simp only [front, Lexeme.ok, hnil, note]
    rfl
  | cons c rest =>
    right
    cases ho : (front (c :: rest)).outcome with
    | ok kind =>
      have hne : kind ≠ .endOfFile := by
        rintro rfl
        exact front_ne_endOfFile c rest ho
      exact .inl ⟨kind, _, rfl, hne, rfl, by simp⟩
    | error e => exact .inr ⟨_, _, rfl⟩

/-- A step that finds a token other than the end of the file makes the rest shorter. -/
theorem next_progress (h : s.next = (.ok t, after))
    (ht : t.kind ≠ .endOfFile) : after.rest.length < s.rest.length := by
  obtain ⟨_, _, hn⟩ | ⟨kind, span, _, _, hn, hne⟩ | ⟨_, _, hn⟩ := s.next_cases <;> rw [hn] at h
  · cases h
    exact absurd rfl ht
  · cases h
    obtain ⟨c, rest, hr⟩ := exists_cons_of_ne_nil hne
    have hp := front_progress c rest
    have hl := s.skipTrivia_rest_length
    rw [note_rest, advance_rest, hr, length_drop]
    rw [hr] at hl
    simp only [length_cons] at hl ⊢
    omega
  · cases h

/-- Behind a step, whatever it answers, the text goes on behind the lexeme that stood in front. -/
theorem next_rest (s : Scanner) : s.next.2.rest = s.skipTrivia.rest.drop (front s.skipTrivia.rest).length := by
  unfold next
  simp only [take]
  cases (front s.skipTrivia.rest).outcome with
  | ok kind => exact note_rest _ _
  | error e => rfl

variable (h : s.next = (.ok t, after))
include h

theorem next_genuine : t.kind.Genuine ∧ t.kind ≠ .indent ∧ t.kind ≠ .dedent := by
  obtain ⟨_, _, hn⟩ | ⟨kind, span, ho, _, hn, _⟩ | ⟨_, _, hn⟩ := s.next_cases <;> rw [hn] at h
  · cases h
    exact ⟨trivial, by simp, by simp⟩
  · cases h
    exact front_genuine ho
  · cases h

/-- Blanks are a token only at the start of a line. -/
theorem atLineStart_of_whitespace {w : Nat} (ht : t.kind = .whitespace w) : s.atLineStart := by
  obtain ⟨_, _, hn⟩ | ⟨kind, span, ho, _, hn, hne⟩ | ⟨_, _, hn⟩ := s.next_cases <;> rw [hn] at h
  · cases h
    cases ht
  · cases h
    obtain ⟨c, rest, hr⟩ := exists_cons_of_ne_nil hne
    rw [hr] at ho
    have hblank : isBlank c := by
      obtain ⟨_, _, hb, _⟩ | ⟨_, _, hf⟩ | hf := front_cases c rest
      · exact hb
      · rw [hf] at ho
        cases ho
        cases ht
      · have hs := hf.substance _ ho
        rw [show kind = .whitespace w from ht] at hs
        cases hs
    by_contra hline
    have hline : s.atLineStart = false := by simpa using hline
    have hskip : s.skipTrivia.rest = s.rest.drop (triviaLength true s.brackets.isOpen false s.rest) := by
      simp [skipTrivia, hline]
    have hhead := isBlank_head_drop_triviaLength s.brackets.isOpen false s.rest (c := c) (by rw [← hskip, hr]; rfl)
    rw [hblank] at hhead
    cases hhead
  · cases h

/-- Whether the next token starts a line, as the scanner sees it. -/
theorem atLineStart_next : after.atLineStart = match t.kind with
      | .whitespace _ | .endOfFile => s.atLineStart
      | .newline => true
      | _ => false := by
  obtain ⟨_, _, hn⟩ | ⟨kind, span, _, _, hn, _⟩ | ⟨_, _, hn⟩ := s.next_cases <;> rw [hn] at h
  · cases h
    rfl
  · cases h
    unfold note
    simp only
    split <;> simp
  · cases h

end Scanner

end Offside
