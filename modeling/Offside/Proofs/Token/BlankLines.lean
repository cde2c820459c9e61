import Offside.Proofs.Token.LastLine

/-! Blank lines and comments leave no trace.

A line of blanks, perhaps with a comment, can stand between any two lines of a text: the kinds of the tokens
are the same without it, and so is the failure, if there is one, up to its place
(`TokenStream.ofText_blankLine`). Where a line begins, outside brackets, the scanner forgets what came
before it, and so does the layout up to one flag that it does not look at there (`Layout.Like`). What
remains of a text can therefore be compared by its outline (`TokenStream.outline`): the kinds of its tokens
and a failure without its place. -/
namespace Offside

open List

variable {a b : Layout} {line text : List Char} {fuel n : Nat} {file : String} {t : Token}

/-- The failure as it would be reported at an unknown place. -/
def Failure.unplaced : Failure → Failure
  | lexical fault _ => lexical fault .unknown
  | layout fault _ => layout fault .unknown
  | grammar fault _ => grammar fault .unknown
  | semantic fault _ => semantic fault .unknown
  | other => other

/-! ### Scanners that read alike -/

/-- How many characters the scanner passes over before the next token. -/
def Scanner.skipped (s : Scanner) : Nat :=
  triviaLength (!s.atLineStart || s.brackets.isOpen) s.brackets.isOpen false s.rest

/-- The second scanner stands like the first one, with more text behind. -/
structure Scanner.Extends (s s' : Scanner) (more : List Char) : Prop where
  rest : s'.rest = s.rest ++ more
  brackets : s'.brackets = s.brackets
  atLineStart : s'.atLineStart = s.atLineStart

namespace Scanner

variable {s s' after : Scanner} {more : List Char} {t : Token}

theorem skipTrivia_rest (s : Scanner) : s.skipTrivia.rest = s.rest.drop s.skipped := rfl

theorem length_skipTrivia (s : Scanner) : s.skipTrivia.rest.length = s.rest.length - s.skipped := by
  rw [skipTrivia_rest, length_drop]

theorem next_of_outcome {kind : TokenKind} (h : (front s.skipTrivia.rest).outcome = .ok kind) : ∃ span, s.next =
      (.ok ⟨kind, span⟩, (s.skipTrivia.advance (front s.skipTrivia.rest).length).note kind) := by
  unfold next take
  simp only [h]
  exact ⟨_, rfl⟩

theorem next_of_fault {fault : LexicalFault} {offset : Nat}
    (h : (front s.skipTrivia.rest).outcome = .error (fault, offset)) :
    ∃ l after, s.next = (.error (.lexical fault l), after) := by
  unfold next take
  simp only [h]
  exact ⟨_, _, rfl⟩

namespace Extends

section

variable (h : s.Extends s' more)
include h

/-- Moving on by the same number of characters, as far as the shorter text goes. -/
theorem advance (hn : n ≤ s.rest.length) : (s.advance n).Extends (s'.advance n) more where
  rest := by rw [advance_rest, advance_rest, h.rest, drop_append_of_le_length hn]
  brackets := h.brackets
  atLineStart := h.atLineStart

theorem note (kind : TokenKind) : (s.note kind).Extends (s'.note kind) more where
  rest := by rw [note_rest, note_rest, h.rest]
  brackets := by rw [brackets_note, brackets_note, h.brackets]
  atLineStart := by
    unfold Scanner.note
    split
    · exact h.atLineStart
    · exact h.atLineStart
    · rfl
    · rfl

theorem skipTrivia (hsame : s'.skipped = s.skipped) : s.skipTrivia.Extends s'.skipTrivia more := by
  show (s.advance s.skipped).Extends (s'.advance s'.skipped) more
  rw [hsame]
  exact h.advance (triviaLength_le _ _ _ _)

/-- What is passed over before the end of the last line does not depend on what follows it. -/
theorem skipped (hline : EndsLine s.rest) (hshort : s.skipped < s.rest.length) : s'.skipped = s.skipped := by
  unfold Scanner.skipped at hshort ⊢
  have hlone := hline.drop hshort
  rw [h.atLineStart, h.brackets, h.rest]
  refine (triviaLength_swap ?_ ?_ more).trans (by rw [append_nil])
  · rwa [append_nil]
  · rw [append_nil]
    intro heq
    rw [EndsLine, heq] at hlone
    cases hlone

/-- A token that is found before the last line ends is found in the longer text too. -/
theorem next (hline : EndsLine s.rest) (hnext : s.next = (.ok t, after))
    (hafter : after.rest ≠ []) : ∃ t' after', s'.next = (.ok t', after') ∧ t'.kind = t.kind ∧
      after.Extends after' more := by
  obtain ⟨kind, hfront, rfl, rfl⟩ := next_ok hnext
  rw [note_rest, advance_rest] at hafter
  have hshort : (front s.skipTrivia.rest).length < s.skipTrivia.rest.length := by
    by_contra hlong
    exact hafter (drop_eq_nil_of_le (Nat.le_of_not_lt hlong))
  have hskipped : s.skipped < s.rest.length := by
    rw [length_skipTrivia] at hshort
    omega
  have hskip := h.skipTrivia (h.skipped hline hskipped)
  have hsame : front s'.skipTrivia.rest = front s.skipTrivia.rest := by
    obtain ⟨text, htext⟩ := getLast?_eq_some_iff.mp (hline.drop hskipped)
    rw [← skipTrivia_rest] at htext
    -- A run of newlines that went to the end of the text would not be short of it.
    have hother : ∃ c ∈ text, c ≠ '\n' := by
      by_contra hall
      push Not at hall
      have hrun : front (text ++ ['\n'] ++ []) = _ :=
        front_newlines (by simp) (by simpa [or_imp, forall_and] using hall) (by simp)
      rw [htext, ← append_nil (text ++ ['\n']), hrun, append_nil] at hshort
      exact Nat.lt_irrefl _ hshort
    rw [htext] at hfront
    rw [hskip.rest, htext, append_assoc]
    refine front_swap (.inr (.inl rfl)) (fun c hc => .inl (Option.some.inj hc).symm) ?_ hfront fun _ => hother
    obtain ⟨c, hc, _⟩ := hother
    exact ne_nil_of_mem hc
  obtain ⟨span, hnext'⟩ := next_of_outcome (s := s') (hsame ▸ hfront)
  rw [hsame] at hnext'
  exact ⟨_, _, hnext', rfl, (hskip.advance (Nat.le_of_lt hshort)).note kind⟩

end

/-- Scanners that have the same text before them find the same. -/
theorem next_alike (h : s.Extends s' []) :
    (∃ t t' after after', s.next = (.ok t, after) ∧ s'.next = (.ok t', after') ∧ t'.kind = t.kind ∧
      after.Extends after' []) ∨
    ∃ failure failure' after after', s.next = (.error failure, after) ∧
      s'.next = (.error failure', after') ∧ failure'.unplaced = failure.unplaced := by
  have hskipped : s'.skipped = s.skipped := by
    unfold Scanner.skipped
    rw [h.atLineStart, h.brackets, h.rest, append_nil]
  have hskip := h.skipTrivia hskipped
  have hsame : front s'.skipTrivia.rest = front s.skipTrivia.rest := by rw [hskip.rest, append_nil]
  cases hfront : (front s.skipTrivia.rest).outcome with
  | ok kind =>
    obtain ⟨span, hnext⟩ := next_of_outcome hfront
    obtain ⟨span', hnext'⟩ := next_of_outcome (s := s') (hsame ▸ hfront)
    obtain ⟨front', back, hsplit, hlength, _⟩ := front_finds _ kind hfront
    have hfit : (front s.skipTrivia.rest).length ≤ s.skipTrivia.rest.length := by
      rw [hlength, hsplit, length_append]
      omega
    rw [hsame] at hnext'
    exact .inl ⟨_, _, _, _, hnext, hnext', rfl, (hskip.advance hfit).note kind⟩
  | error fault =>
    obtain ⟨fault, offset⟩ := fault
    obtain ⟨l, after, hnext⟩ := next_of_fault hfront
    obtain ⟨l', after', hnext'⟩ := next_of_fault (s := s') (hsame ▸ hfront)
    exact .inr ⟨_, _, _, _, hnext, hnext', rfl⟩

end Extends

end Scanner

/-! ### Layouts that go on alike -/

/-- The two go on alike. At the start of a line it makes no difference whether there were blanks. -/
structure Layout.Like (a b : Layout) : Prop where
  line : b.line = a.line
  levels : b.indentation.levels = a.indentation.levels
  width : b.indentation.width = a.indentation.width
  afterBlanks : a.line.atLineStart = false → b.indentation.afterBlanks = a.indentation.afterBlanks

/-- The machines of the layout go by the kinds of tokens. -/
theorem LineState.mark_kind (s : LineState) {t' : Token} (ht : t'.kind = t.kind) :
    (s.mark t').1.mustIndent = (s.mark t).1.mustIndent ∧ (s.mark t').2 = (s.mark t).2 := by
  unfold LineState.mark
  rw [ht]
  split <;> exact ⟨rfl, rfl⟩

/-- The two steps tell the same, up to places. -/
structure Indentation.Step.Like (a b : Indentation.Step) : Prop where
  out : b.out.map Token.kind = a.out.map Token.kind
  failure : b.failure.map Failure.unplaced = a.failure.map Failure.unplaced

namespace Indentation

theorem push_substance (s : Indentation) (blanks : Bool) (m m' : MarkedToken)
    (hkind : m'.token.kind = m.token.kind) (hline : m'.atLineStart = m.atLineStart)
    (hmust : m'.mustIndent = m.mustIndent) (hw : ∀ w, m.token.kind ≠ .whitespace w)
    (hn : m.token.kind ≠ .newline) :
    (s.push m).Like (push { s with afterBlanks := blanks } m') ∧
      (push { s with afterBlanks := blanks } m').state = (s.push m).state := by
  unfold push
  simp only [hkind, hline, hmust]
  split
  · split
    · exact ⟨⟨rfl, rfl⟩, rfl⟩
    · exact ⟨⟨by simp [Token.atPoint, hkind], rfl⟩, rfl⟩
  · split
    · exact ⟨⟨by simp [closeTo, Token.atPoint, hkind], rfl⟩, rfl⟩
    · split
      · split
        · exact ⟨⟨rfl, rfl⟩, rfl⟩
        · split
          · split
            · exact ⟨⟨by simp [closeTo, Token.atPoint, hkind], rfl⟩, rfl⟩
            · exact ⟨⟨rfl, rfl⟩, rfl⟩
          · exact ⟨⟨by simp [hkind], rfl⟩, rfl⟩
      · exact ⟨⟨by simp [hkind], rfl⟩, rfl⟩

end Indentation

namespace Layout

variable {t : Token}

theorem Like.refl (a : Layout) : a.Like a := ⟨rfl, rfl, rfl, fun _ => rfl⟩

theorem Like.symm (h : a.Like b) : b.Like a :=
  ⟨h.line.symm, h.levels.symm, h.width.symm, fun hstart => (h.afterBlanks (h.line ▸ hstart)).symm⟩

theorem push_newline (s : Layout) (ht : t.kind = .newline) :
    (s.push t).2 =
      (⟨if s.indentation.afterBlanks || s.line.atLineStart then [] else [t], none,
          { s.indentation with width := 0 }⟩,
        ⟨⟨true, s.line.announced.atNewline⟩, { s.indentation with width := 0 }⟩) := by
  simp [push, LineState.mark, Indentation.push, Announcement.atNewline, ht]

theorem push_whitespace (s : Layout) {w : Nat} (ht : t.kind = .whitespace w) :
    (s.push t).2 =
      (⟨[], none, { s.indentation with width := w, afterBlanks := true }⟩,
        ⟨s.line, { s.indentation with width := w, afterBlanks := true }⟩) := by
  simp [push, LineState.mark, Indentation.push, ht]

/-- Layouts that go on alike tell the same of a token, and go on alike behind it. -/
theorem Like.push (h : a.Like b) {t' : Token} (ht : t'.kind = t.kind) :
    (a.push t).2.1.Like (b.push t').2.1 ∧ (a.push t).2.2.Like (b.push t').2.2 := by
  obtain ⟨line, levels, width, blanks⟩ := a
  obtain ⟨line', levels', width', blanks'⟩ := b
  obtain ⟨hline, hlevels, hwidth, hblanks⟩ := h
  dsimp only at hline hlevels hwidth hblanks
  subst hline hlevels hwidth
  by_cases hn : t.kind = .newline
  · rw [push_newline _ hn, push_newline _ (ht.trans hn)]
    refine ⟨⟨?_, rfl⟩, rfl, rfl, rfl, fun hstart => Bool.noConfusion hstart⟩
    cases hstart : line'.atLineStart with
    | true => simp
    | false =>
      rw [hblanks hstart]
      split <;> simp [ht]
  · by_cases hw : ∃ w, t.kind = .whitespace w
    · obtain ⟨w, hw⟩ := hw
      rw [push_whitespace _ hw, push_whitespace _ (ht.trans hw)]
      exact ⟨⟨rfl, rfl⟩, rfl, rfl, rfl, fun _ => rfl⟩
    · obtain ⟨hmust, hmark⟩ := line'.mark_kind ht
      obtain ⟨hstep, hstate⟩ := Indentation.push_substance ⟨levels', width', blanks⟩ blanks'
        (line'.mark t).1 (line'.mark t').1 (by simp [ht]) (by simp) hmust
        (by simpa using hw) (by simpa using hn)
      exact ⟨hstep, ⟨hmark, congrArg Indentation.levels hstate, congrArg Indentation.width hstate,
        fun _ => congrArg Indentation.afterBlanks hstate⟩⟩

end Layout

/-! ### Outlines -/

namespace TokenStream

/-- What the stream of a text tells from a scanner and a layout on, places left aside. -/
def outline (scanner : Scanner) (layout : Layout) : List TokenKind × Option Failure :=
  let result := collect (scanner.rest.length + 1) scanner layout
  (result.1.map Token.kind, result.2.map Failure.unplaced)

section

variable {s s' after after' : Scanner} {a b : Layout} {t t' : Token}

theorem outline_error {failure : Failure} (hnext : s.next = (.error failure, after)) :
    outline s a = ([], some failure.unplaced) := by
  unfold outline
  rw [collect_succ, hnext]
  rfl

section

variable (hnext : s.next = (.ok t, after))
include hnext

theorem outline_fault {failure : Failure}
    (hfail : (a.push t).2.1.failure = some failure) : outline s a = ([], some failure.unplaced) := by
  unfold outline
  rw [collect_succ, hnext]
  simp only [hfail]
  rfl

theorem outline_end (hfail : (a.push t).2.1.failure = none)
    (hend : t.kind = .endOfFile) : outline s a = ((a.push t).2.1.out.map Token.kind, none) := by
  unfold outline
  rw [collect_succ, hnext]
  simp only [hfail, if_pos hend]
  rfl

theorem outline_token (hfail : (a.push t).2.1.failure = none) (hend : t.kind ≠ .endOfFile) :
    outline s a = ((a.push t).2.1.out.map Token.kind ++ (outline after (a.push t).2.2).1,
      (outline after (a.push t).2.2).2) := by
  unfold outline
  have hshorter := Scanner.next_progress hnext hend
  rw [collect_succ, hnext]
  simp only [hfail, if_neg hend,
    collect_fuel (after.rest.length + 1) (a.push t).2.2 hshorter (Nat.lt_succ_self _), map_append]

/-- One token of the same kind on both sides. -/
theorem outline_step (hnext' : s'.next = (.ok t', after')) (ht : t'.kind = t.kind) (h : a.Like b)
    (hafter : t.kind ≠ .endOfFile → outline after' (b.push t').2.2 = outline after (a.push t).2.2) :
    outline s' b = outline s a := by
  obtain ⟨hstep, _⟩ := h.push ht
  have hfailure := hstep.failure
  cases hfail : (a.push t).2.1.failure with
  | some failure =>
    rw [hfail] at hfailure
    obtain ⟨failure', hfail', hsame⟩ := Option.map_eq_some_iff.mp hfailure
    rw [outline_fault hnext hfail, outline_fault hnext' hfail', hsame]
  | none =>
    rw [hfail] at hfailure
    have hfail' := Option.map_eq_none_iff.mp hfailure
    by_cases hend : t.kind = .endOfFile
    · rw [outline_end hnext hfail hend, outline_end hnext' hfail' (ht.trans hend), hstep.out]
    · rw [outline_token hnext hfail hend, outline_token hnext' hfail' (ht ▸ hend), hstep.out, hafter hend]

end

/-- The outline depends on what is left of the text, and not on where that stands. -/
theorem outline_alike (hs : s.Extends s' []) (h : a.Like b) : outline s' b = outline s a := by
  induction hlength : s.rest.length using Nat.strong_induction_on generalizing s s' a b with
  | _ n ih =>
  obtain ⟨t, t', after, after', hnext, hnext', ht, hafter⟩ | ⟨_, _, _, _, hnext, hnext', hsame⟩ := hs.next_alike
  · refine outline_step hnext hnext' ht h fun hend => ?_
    exact ih _ (hlength ▸ Scanner.next_progress hnext hend) hafter (h.push ht).2 rfl
  · rw [outline_error hnext, outline_error hnext', hsame]

end

end TokenStream

/-! ### Where lines begin -/

/-- Text that makes up a line without tokens: blanks, and perhaps a comment. -/
inductive IsBlankLine : List Char → Prop where
  | blank {blanks : List Char} : (∀ c ∈ blanks, isBlank c = true) → IsBlankLine (blanks ++ ['\n'])
  | comment {blanks note : List Char} : (∀ c ∈ blanks, isBlank c = true) → (∀ c ∈ note, c ≠ '\n') →
      IsBlankLine (blanks ++ '#' :: note ++ ['\n'])

/-- A comment is passed over up to the end of its line. -/
theorem triviaLength_note (blanks : Bool) {note : List Char} (hnote : ∀ c ∈ note, c ≠ '\n')
    (rest : List Char) : triviaLength blanks false true (note ++ '\n' :: rest) = note.length := by
  induction note with
  | nil => rfl
  | cons c note ih =>
    obtain ⟨hc, hnote⟩ := forall_mem_cons.mp hnote
    rw [cons_append, triviaLength, ih hnote, length_cons]
    exact hc

/-- Such a line is blanks, then what is passed over, then its end. -/
theorem IsBlankLine.split (h : IsBlankLine line) :
    ∃ blanks gap, line = blanks ++ (gap ++ ['\n']) ∧ (∀ c ∈ blanks, isBlank c) ∧
      ∀ text, triviaLength false false false (gap ++ '\n' :: text) = gap.length ∧
        ∀ c ∈ (gap ++ '\n' :: text).head?, isBlank c = false := by
  cases h with
  | @blank blanks hblanks =>
    refine ⟨blanks, [], rfl, hblanks, fun text => ⟨rfl, fun c hc => ?_⟩⟩
    cases hc
    rfl
  | @comment blanks note hblanks hnote =>
    refine ⟨blanks, '#' :: note, by simp, hblanks, fun text => ⟨?_, fun c hc => ?_⟩⟩
    · rw [cons_append, triviaLength, triviaLength_note false hnote, length_cons]
    · cases hc
      rfl

theorem Brackets.eq_of_closed {b : Brackets} (h : b.isOpen = false) : b = {} := by
  obtain ⟨parens, squares, braces⟩ := b
  simp only [isOpen, gt_iff_lt, decide_eq_false_iff_not, Nat.not_lt, Nat.le_zero] at h
  obtain ⟨rfl, rfl, rfl⟩ : parens = 0 ∧ squares = 0 ∧ braces = 0 := by omega
  rfl

namespace Scanner

variable {s s' : Scanner} {text : List Char}

theorem AtLine.alike (h : s.AtLine text) (h' : s'.AtLine text) : s.Extends s' [] where
  rest := by rw [h'.rest, h.rest, append_nil]
  brackets := by rw [Brackets.eq_of_closed h.closed, Brackets.eq_of_closed h'.closed]
  atLineStart := by rw [h.atLineStart, h'.atLineStart]

/-- A run of newlines, perhaps behind a comment, is one token up to the next character. -/
theorem next_lineEnd {gap : List Char} (hrest : s.rest = gap ++ '\n' :: text)
    (hgap : s.skipped = gap.length) (hclosed : s.brackets.isOpen = false) :
    ∃ t after, s.next = (.ok t, after) ∧ t.kind = .newline ∧ after.AtLine (text.dropWhile (· == '\n')) := by
  have hskip : s.skipTrivia.rest = '\n' :: text := by
    rw [skipTrivia_rest, hgap, hrest, drop_left]
  have hfront : front s.skipTrivia.rest = .ok .newline (('\n' :: text).takeWhile (· == '\n')).length := by
    rw [hskip]
    rfl
  obtain ⟨span, hnext⟩ := next_of_outcome (s := s) (by rw [hfront]; rfl)
  refine ⟨_, _, hnext, rfl, ?_, rfl, hclosed⟩
  rw [note_rest, advance_rest, hfront, hskip]
  show ('\n' :: text).drop (('\n' :: text).takeWhile (· == '\n')).length = _
  rw [takeWhile_cons_of_pos rfl, length_cons, drop_succ_cons]
  have hsplit := takeWhile_append_dropWhile (p := (· == '\n')) (l := text)
  calc text.drop (text.takeWhile (· == '\n')).length
    _ = (text.takeWhile (· == '\n') ++ text.dropWhile (· == '\n')).drop
          (text.takeWhile (· == '\n')).length := by rw [hsplit]
    _ = text.dropWhile (· == '\n') := drop_left

/-- The blanks that start a line are one token. -/
theorem next_blanks {blanks : List Char} (hblanks : ∀ c ∈ blanks, isBlank c = true) (hne : blanks ≠ [])
    (htext : ∀ c ∈ text.head?, isBlank c = false) (hs : s.AtLine (blanks ++ text)) :
    ∃ t after, s.next = (.ok t, after) ∧ t.kind = .whitespace blanks.length ∧ after.AtLine text := by
  obtain ⟨c, more, rfl⟩ := exists_cons_of_ne_nil hne
  have hc : isBlank c := hblanks c mem_cons_self
  have hskip : s.skipTrivia = s := by
    have htrivia : triviaLength false false false (c :: more ++ text) = 0 := by
      rcases Bool.or_eq_true_iff.mp hc with h | h
      · rw [beq_iff_eq.mp h]
        rfl
      · rw [beq_iff_eq.mp h]
        rfl
    unfold skipTrivia
    rw [hs.rest, hs.closed, hs.atLineStart]
    show s.advance (triviaLength false false false (c :: more ++ text)) = s
    rw [htrivia]
    exact s.advance_zero
  have hfront : front s.rest = .ok (.whitespace (c :: more).length) (c :: more).length := by
    have hrun := takeWhile_append_eq hblanks htext
    rw [cons_append] at hrun
    rw [hs.rest, cons_append, front, if_pos hc, hrun]
  obtain ⟨span, hnext⟩ := next_of_front hskip hfront
  refine ⟨_, _, hnext, rfl, ?_, hs.atLineStart, hs.closed⟩
  rw [note_rest, advance_rest, hs.rest, drop_left]

end Scanner

/-- At the start of a line: if a block was announced, it is due. -/
structure Layout.AtLine (s : Layout) : Prop where
  atLineStart : s.line.atLineStart = true
  announced : s.line.announced ≠ .possible

/-- The layout with no blanks at the start of its line. -/
def Layout.unindented (s : Layout) : Layout := { s with indentation := { s.indentation with width := 0 } }

namespace Layout

theorem AtLine.push_newline {s : Layout} (h : s.AtLine) (ht : t.kind = .newline) :
    (s.push t).2 = (⟨[], none, s.unindented.indentation⟩, s.unindented) := by
  have hline : (⟨true, s.line.announced.atNewline⟩ : LineState) = s.line := by
    rw [Announcement.atNewline, if_neg h.announced, ← h.atLineStart]
  rw [Layout.push_newline s ht, h.atLineStart, Bool.or_true, if_pos rfl, hline]
  rfl

theorem atLine_push_newline (s : Layout) (ht : t.kind = .newline) :
    (s.push t).2.2.AtLine ∧ (s.push t).2.2.unindented = (s.push t).2.2 := by
  rw [push_newline s ht]
  refine ⟨⟨rfl, ?_⟩, rfl⟩
  show (if s.line.announced = .possible then .due else s.line.announced) ≠ Announcement.possible
  split
  · simp
  · assumption

end Layout

namespace TokenStream

variable {s s' : Scanner} {a b : Layout} {text line : List Char}

/-- Newlines at the start of a line only end its indentation. -/
theorem outline_lineEnd (gap : List Char) (hs : s.AtLine (gap ++ '\n' :: text))
    (hgap : triviaLength false false false (gap ++ '\n' :: text) = gap.length) (ha : a.AtLine) :
    ∃ after, after.AtLine (text.dropWhile (· == '\n')) ∧ outline s a = outline after a.unindented := by
  have hskipped : s.skipped = gap.length := by
    unfold Scanner.skipped
    rw [hs.rest, hs.atLineStart, hs.closed]
    exact hgap
  obtain ⟨t, after, hnext, ht, hafter⟩ := Scanner.next_lineEnd hs.rest hskipped hs.closed
  have hpush := ha.push_newline ht
  refine ⟨after, hafter, ?_⟩
  rw [outline_token hnext (by rw [hpush]) (by rw [ht]; simp), hpush]
  rfl

/-- Newlines before a line make no difference to it. -/
theorem outline_newlines (hs : s.AtLine text) (hs' : s'.AtLine (text.dropWhile (· == '\n')))
    (ha : a.AtLine) (hflat : a.unindented = a) (h : a.Like b) : outline s' b = outline s a := by
  cases text with
  | nil => exact outline_alike (hs.alike hs') h
  | cons c text =>
    by_cases hc : c = '\n'
    · subst hc
      obtain ⟨after, hafter, houtline⟩ := outline_lineEnd [] hs rfl ha
      rw [houtline, hflat]
      exact outline_alike (hafter.alike hs') h
    · rw [dropWhile_cons_of_neg (by simpa using hc)] at hs'
      exact outline_alike (hs.alike hs') h

theorem unindented_of_like (h : a.Like b) (hflat : a.unindented = a) : b.unindented = b := by
  have hwidth : a.indentation.width = 0 := by
    rw [← hflat]
    rfl
  unfold Layout.unindented
  rw [← hwidth, ← h.width]

/-- Neither does a line without tokens. -/
theorem outline_blankLine (hline : IsBlankLine line) (hs : s.AtLine (line ++ text)) (hs' : s'.AtLine text)
    (ha : a.AtLine) (hflat : a.unindented = a) (h : a.Like b) : outline s' b = outline s a := by
  obtain ⟨blanks, gap, rfl, hblanks, hgap⟩ := hline.split
  obtain ⟨htrivia, hhead⟩ := hgap text
  have hb : b.AtLine := by
    constructor
    · rw [h.line]
      exact ha.atLineStart
    · rw [h.line]
      exact ha.announced
  have hflat' : b.unindented = b := unindented_of_like h hflat
  have hrest : blanks ++ (gap ++ ['\n']) ++ text = blanks ++ (gap ++ '\n' :: text) := by simp
  rw [hrest] at hs
  by_cases hne : blanks = []
  · subst hne
    obtain ⟨after, hafter, houtline⟩ := outline_lineEnd gap hs htrivia ha
    rw [houtline, hflat]
    exact (outline_newlines hs' hafter hb hflat' h.symm).symm
  · obtain ⟨t, s1, hnext, ht, hs1⟩ := Scanner.next_blanks hblanks hne hhead hs
    have hpush := a.push_whitespace ht
    have ha1 : (a.push t).2.2.AtLine := by
      rw [hpush]
      exact ⟨ha.atLineStart, ha.announced⟩
    obtain ⟨after, hafter, houtline⟩ := outline_lineEnd gap hs1 htrivia ha1
    have hlike : b.Like (a.push t).2.2.unindented := by
      rw [hpush]
      refine ⟨h.line.symm, h.levels.symm, ?_, fun hstart => ?_⟩
      · rw [← hflat']
        rfl
      · rw [hb.atLineStart] at hstart
        cases hstart
    rw [outline_token hnext (by rw [hpush]) (by rw [ht]; simp), houtline, hpush]
    rw [hpush] at hlike
    exact (outline_newlines hs' hafter hb hflat' hlike).symm

end TokenStream

/-! ### Behind the last line of a text -/

theorem Position.eq_nil_of_behind {more : List Char} (h : behind (text ++ more) = behind text) : more = [] := by
  unfold behind at h
  rw [reverse_append, count_append] at h
  obtain ⟨hcount, hcolumn⟩ := Position.mk.inj h
  have hnone : ∀ c ∈ more.reverse, (c != '\n') = true := by
    have hcount : more.count '\n' = 0 := by omega
    intro c hc
    have hne : c ≠ '\n' := by
      rintro rfl
      exact count_eq_zero.mp hcount (mem_reverse.mp hc)
    simpa using hne
  rw [takeWhile_append_of_pos hnone, length_append, length_reverse] at hcolumn
  exact length_eq_zero_iff.mp (by omega)

/-- Inside brackets no newline is left behind what is passed over. -/
theorem newline_head_drop_triviaLength (blanks comment : Bool) (text : List Char) :
    (text.drop (triviaLength blanks true comment text)).head? ≠ some '\n' := by
  fun_induction triviaLength blanks true comment text with
  | case1 => simp
  | case2 _ _ _ ih => simpa using ih
  | case3 _ _ h => exact absurd rfl h
  | case4 _ _ _ ih => simpa using ih
  | case5 _ ih => simpa using ih
  | case6 _ ih => simpa using ih
  | case7 _ _ _ _ _ _ ih => simpa using ih
  | case8 c _ hc => simpa using hc

namespace Scanner

variable {s s' after : Scanner} {more : List Char} {t : Token}

/-- The newline at the end of a text goes on into the longer text. -/
theorem Extends.next_last (h : s.Extends s' more) (hline : EndsLine s.rest)
    (hnext : s.next = (.ok t, after)) (ht : t.kind = .newline) (hafter : after.rest = []) :
    ∃ t' after', s'.next = (.ok t', after') ∧ t'.kind = .newline ∧ after'.AtLine (more.dropWhile (· == '\n')) := by
  obtain ⟨kind, hfront, rfl, rfl⟩ := next_ok hnext
  obtain ⟨ends, back, hsplit, hlength, hwrites⟩ := front_finds _ kind hfront
  obtain rfl : kind = .newline := ht
  cases hwrites with
  | newline hne hends =>
  rw [note_rest, advance_rest, hlength, hsplit, drop_left] at hafter
  rw [hafter, append_nil] at hsplit
  obtain ⟨c, tail, rfl⟩ := exists_cons_of_ne_nil hne
  obtain ⟨rfl, htail⟩ := forall_mem_cons.mp hends
  have hclosed : s.brackets.isOpen = false := by
    by_contra hopen
    rw [Bool.not_eq_false] at hopen
    refine newline_head_drop_triviaLength (!s.atLineStart || s.brackets.isOpen) false s.rest ?_
    rw [skipTrivia_rest, Scanner.skipped, hopen] at hsplit
    rw [hopen, hsplit]
    rfl
  have hskipped : s.skipped < s.rest.length := by
    have hpositive : 0 < s.skipTrivia.rest.length := by simp [hsplit]
    rw [length_skipTrivia] at hpositive
    omega
  have hrest : s'.rest = s.rest.take s.skipped ++ '\n' :: (tail ++ more) := by
    rw [h.rest, ← cons_append, ← hsplit, skipTrivia_rest, ← append_assoc, take_append_drop]
  have hgap : s'.skipped = (s.rest.take s.skipped).length := by
    rw [h.skipped hline hskipped, length_take_of_le (Nat.le_of_lt hskipped)]
  obtain ⟨t', after', hnext', ht', hline'⟩ := next_lineEnd hrest hgap (h.brackets.symm ▸ hclosed)
  rw [dropWhile_append_of_pos fun c hc => by simp [htail c hc]] at hline'
  exact ⟨t', after', hnext', ht', hline'⟩

/-- The first token of a run that goes on behind it. -/
theorem run_cons {first : Token} {rest : List Token} (hrest : rest ≠ [])
    (h : (run fuel s).1 = (first :: rest).map .ok) :
    s.rest ≠ [] ∧ ∃ fuel' after, s.next = (.ok first, after) ∧ (run fuel' after).1 = rest.map .ok := by
  cases fuel with
  | zero => cases h
  | succ fuel =>
    unfold run at h
    cases hnext : s.next with
    | mk outcome after =>
    rw [hnext] at h
    cases outcome with
    | error failure => cases h
    | ok t =>
      by_cases hend : t.kind = .endOfFile
      · simp only [hend, if_true, map_cons, cons.injEq, nil_eq, map_eq_nil_iff] at h
        exact absurd h.2 hrest
      · simp only [hend, if_false, map_cons, cons.injEq, Except.ok.injEq] at h
        obtain ⟨rfl, h⟩ := h
        refine ⟨fun hnil => ?_, fuel, after, rfl, h⟩
        have hshorter := next_progress hnext hend
        simp [hnil] at hshorter

/-- A token of a run is found by a scanner that stands somewhere in the text. -/
theorem run_stands {tokens rest : List Token}
    {last : Token} (hs : s.Stands file text n) (hrest : rest ≠ [])
    (h : (run fuel s).1 = (tokens ++ last :: rest).map .ok) :
    ∃ (s' : Scanner) (n' : Nat) (after : Scanner),
      s'.Stands file text n' ∧ s'.next = (.ok last, after) := by
  induction tokens generalizing s n fuel with
  | nil =>
    obtain ⟨_, _, after, hnext, _⟩ := run_cons hrest h
    exact ⟨s, n, after, hs, hnext⟩
  | cons first tokens ih =>
    obtain ⟨_, _, after, hnext, hrun⟩ := run_cons (by simp) h
    obtain ⟨_, _, _, hafter, _⟩ := next_occupies hs hnext
    exact ih hafter hrun

/-- The text alone is scanned without a fault, and its last token is a newline that ends where the text
ends. Such a text ends outside brackets, literals, comments and continued lines. -/
def EndsWithNewline (file text : String) : Prop :=
  ∃ tokens last ending, (Scanner.ofText file text).all.1 = (tokens ++ [last, ending]).map .ok ∧
    last.kind = .newline ∧ last.span.stop = ⟨file, .behind (foldLineEnds text.toList)⟩

theorem eq_length_of_ofOffset (hn : n ≤ text.length)
    (h : Position.ofOffset text n = .behind text) : n = text.length := by
  have hall : Position.behind (text.take n ++ text.drop n) = .behind (text.take n) := by
    rw [take_append_drop]
    exact h.symm
  exact Nat.le_antisymm hn (drop_eq_nil_iff.mp (Position.eq_nil_of_behind hall))

theorem EndsWithNewline.endsLine {text : String} (h : EndsWithNewline file text) :
    EndsLine (foldLineEnds text.toList) := by
  obtain ⟨tokens, last, ending, hall, hlast, hstop⟩ := h
  have hstart : (Scanner.ofText file text).Stands file (foldLineEnds text.toList) 0 := ⟨rfl, rfl, rfl, Nat.zero_le _⟩
  obtain ⟨s, n, after, hs, hnext⟩ := run_stands hstart (cons_ne_nil _ _) hall
  obtain ⟨start, stop, hplace, hafter, _⟩ := next_occupies hs hnext
  have hend : stop = (foldLineEnds text.toList).length := by
    rw [hplace.span] at hstop
    exact eq_length_of_ofOffset hafter.inside (Location.mk.inj hstop).2
  have hwrites := hplace.written
  rw [hlast, hend, extract, take_of_length_le (by simp)] at hwrites
  generalize foldLineEnds text.toList = text at hwrites
  cases hwrites with
  | newline hne hends =>
    have hlast := getLast?_eq_some_getLast hne
    rw [hends _ (getLast_mem hne), getLast?_drop] at hlast
    split at hlast
    · cases hlast
    · exact hlast

end Scanner

/-- What two longer texts have behind a text that ends with a newline decides whether they differ. -/
theorem TokenStream.outline_extends {s q q' : Scanner}
    {more more' : List Char} {tokens : List Token} {last ending : Token}
    (hs : s.Stands file text n) (htext : EndsLine text)
    (hrun : (s.run fuel).1 = (tokens ++ [last, ending]).map .ok) (hlast : last.kind = .newline)
    (hstop : last.span.stop = ⟨file, .behind text⟩) (hq : s.Extends q more) (hq' : s.Extends q' more')
    (h : a.Like b)
    (hafter : ∀ {r r' : Scanner} {x y : Layout}, r.AtLine (more.dropWhile (· == '\n')) →
      r'.AtLine (more'.dropWhile (· == '\n')) → x.AtLine → x.unindented = x → x.Like y →
      outline r' y = outline r x) : outline q' b = outline q a := by
  have hline {s : Scanner} {n : Nat} (hs : s.Stands file text n) (hne : s.rest ≠ []) :
      EndsLine s.rest := by
    rw [hs.rest] at hne ⊢
    exact htext.drop (by simpa using hne)
  induction tokens generalizing s n fuel q q' a b with
  | nil =>
    obtain ⟨hne, _, after, hfirst, _⟩ := Scanner.run_cons (cons_ne_nil _ _) hrun
    have hlines := hline hs hne
    obtain ⟨_, stop, hplace, hstands, _⟩ := Scanner.next_occupies hs hfirst
    have hend : after.rest = [] := by
      rw [hplace.span] at hstop
      rw [hstands.rest, Scanner.eq_length_of_ofOffset hstands.inside (Location.mk.inj hstop).2,
        drop_length]
    obtain ⟨t, r, hnext, ht, hr⟩ := hq.next_last hlines hfirst hlast hend
    obtain ⟨t', r', hnext', ht', hr'⟩ := hq'.next_last hlines hfirst hlast hend
    obtain ⟨ha, hflat⟩ := a.atLine_push_newline ht
    exact outline_step hnext hnext' (ht'.trans ht.symm) h fun _ =>
      hafter hr hr' ha hflat (h.push (ht'.trans ht.symm)).2
  | cons first tokens ih =>
    have hmore : tokens ++ [last, ending] ≠ [] := by simp
    obtain ⟨hne, _, after, hfirst, hrest⟩ := Scanner.run_cons hmore hrun
    have hlines := hline hs hne
    obtain ⟨_, stop, _, hstands, _⟩ := Scanner.next_occupies hs hfirst
    have hgoesOn : after.rest ≠ [] := by
      obtain ⟨second, others, hsecond⟩ := exists_cons_of_ne_nil hmore
      have hothers : others ≠ [] := by
        have hlength := congrArg length hsecond
        intro hnil
        simp [hnil] at hlength
      rw [hsecond] at hrest
      exact (Scanner.run_cons hothers hrest).1
    obtain ⟨t, r, hnext, ht, hr⟩ := hq.next hlines hfirst hgoesOn
    obtain ⟨t', r', hnext', ht', hr'⟩ := hq'.next hlines hfirst hgoesOn
    refine outline_step hnext hnext' (ht'.trans ht.symm) h fun _ => ?_
    exact ih hstands hrest hr hr' (h.push (ht'.trans ht.symm)).2

/-! ### Line ends that are folded -/

theorem getLast?_foldLineEnds (text : List Char) : (foldLineEnds text).getLast? = text.getLast? := by
  fun_induction foldLineEnds text with
  | case1 rest ih => simp [getLast?_cons, ih]
  | case2 c rest _ ih => rw [getLast?_cons, getLast?_cons, ih]
  | case3 => rfl

theorem foldLineEnds_cons {c : Char} {rest : List Char} (h : c = '\r' → ∀ more, rest ≠ '\n' :: more) :
    foldLineEnds (c :: rest) = c :: foldLineEnds rest := by
  rw [foldLineEnds]
  exact fun more hc hmore => h hc more hmore

/-- Folding does not reach over the end of a line. -/
theorem foldLineEnds_append (h : EndsLine text) (rest : List Char) :
    foldLineEnds (text ++ rest) = foldLineEnds text ++ foldLineEnds rest := by
  fun_induction foldLineEnds text with
  | case1 more ih =>
    rw [cons_append, cons_append, foldLineEnds]
    by_cases hmore : more = []
    · subst hmore
      rfl
    · rw [ih ((h.tail (cons_ne_nil _ _)).tail hmore), cons_append]
  | case2 c more hc ih =>
    by_cases hmore : more = []
    · subst hmore
      obtain rfl := Option.some.inj h
      exact foldLineEnds_cons fun hr => absurd hr (by decide)
    · obtain ⟨d, more, rfl⟩ := exists_cons_of_ne_nil hmore
      rw [cons_append, foldLineEnds_cons, ih (h.tail hmore), cons_append]
      intro hr tail htail
      exact hc more hr (by rw [(cons.inj htail).1])
  | case3 => cases h

theorem foldLineEnds_plain {front : List Char} (h : ∀ c ∈ front, c ≠ '\r') (rest : List Char) :
    foldLineEnds (front ++ rest) = front ++ foldLineEnds rest := by
  induction front with
  | nil => rfl
  | cons c front ih =>
    obtain ⟨hc, h⟩ := forall_mem_cons.mp h
    rw [cons_append, foldLineEnds_cons (fun hr => absurd hr hc), ih h, cons_append]

/-- A comment may lose a carriage return at its end. -/
theorem foldLineEnds_note {note : List Char} (h : ∀ c ∈ note, c ≠ '\n') :
    ∃ note', (∀ c ∈ note', c ≠ '\n') ∧ foldLineEnds (note ++ ['\n']) = note' ++ ['\n'] := by
  induction note with
  | nil => exact ⟨[], forall_mem_nil _, rfl⟩
  | cons c note ih =>
    obtain ⟨hc, h⟩ := forall_mem_cons.mp h
    obtain ⟨note', hnote', hfold⟩ := ih h
    by_cases hlast : c = '\r' ∧ note = []
    · obtain ⟨rfl, rfl⟩ := hlast
      exact ⟨[], forall_mem_nil _, rfl⟩
    · refine ⟨c :: note', forall_mem_cons.mpr ⟨hc, hnote'⟩, ?_⟩
      rw [cons_append, foldLineEnds_cons, hfold, cons_append]
      intro hr more hmore
      cases note with
      | nil => exact hlast ⟨hr, rfl⟩
      | cons d note => exact h d mem_cons_self (cons.inj hmore).1

theorem ne_return_of_isBlank {c : Char} (h : isBlank c = true) : c ≠ '\r' := by
  rintro rfl
  cases h

theorem IsBlankLine.folded (h : IsBlankLine line) : IsBlankLine (foldLineEnds line) := by
  cases h with
  | @blank blanks hblanks =>
    rw [foldLineEnds_plain fun c hc => ne_return_of_isBlank (hblanks c hc)]
    exact .blank hblanks
  | @comment blanks note hblanks hnote =>
    obtain ⟨note', hnote', hfold⟩ := foldLineEnds_note hnote
    have hsame : foldLineEnds (blanks ++ '#' :: note ++ ['\n']) = blanks ++ '#' :: note' ++ ['\n'] := by
      rw [append_assoc, foldLineEnds_plain fun c hc => ne_return_of_isBlank (hblanks c hc),
        cons_append, foldLineEnds_cons fun hr => absurd hr (by decide), hfold]
      simp
    rw [hsame]
    exact .comment hblanks hnote'

theorem IsBlankLine.endsLine (h : IsBlankLine line) : EndsLine line := by
  cases h with
  | blank => exact getLast?_concat
  | comment => exact getLast?_concat

/-- The tokens of two texts whose outlines are the same. -/
theorem TokenStream.toList_of_outline {text text' : String}
    (h : outline (.ofText file text) {} = outline (.ofText file text') {}) :
    ((ofText file text).toList.map (map Token.kind)).mapError Failure.unplaced =
      ((ofText file text').toList.map (map Token.kind)).mapError Failure.unplaced := by
  have hkinds : (ofText file text).tokens.map Token.kind = (ofText file text').tokens.map Token.kind :=
    congrArg Prod.fst h
  have hfailure : (ofText file text).failure.map Failure.unplaced =
      (ofText file text').failure.map Failure.unplaced := congrArg Prod.snd h
  unfold toList
  cases hleft : (ofText file text).failure with
  | none =>
    rw [hleft] at hfailure
    rw [Option.map_eq_none_iff.mp hfailure.symm]
    exact congrArg Except.ok hkinds
  | some failure =>
    rw [hleft] at hfailure
    obtain ⟨failure', hright, hsame⟩ := Option.map_eq_some_iff.mp hfailure.symm
    rw [hright]
    exact congrArg Except.error hsame.symm

/-- **Blank lines and comments are invisible.** Let a text be empty, or be scanned without a fault up to a
newline at its very end. A line of blanks, with or without a comment, can then be put between it and any
other text: the stream fails with the line exactly if it fails without it, with the same fault, and otherwise
gives tokens of the same kinds, the openings and closings of blocks included. -/
theorem TokenStream.ofText_blankLine (file before line after : String) (hline : IsBlankLine line.toList)
    (hbefore : before = "" ∨ Scanner.EndsWithNewline file before) :
    ((TokenStream.ofText file (before ++ line ++ after)).toList.map (List.map Token.kind)).mapError Failure.unplaced =
      ((TokenStream.ofText file (before ++ after)).toList.map (List.map Token.kind)).mapError Failure.unplaced := by
  apply toList_of_outline
  have hfold (rest : List Char) : foldLineEnds (line.toList ++ rest) =
      foldLineEnds line.toList ++ foldLineEnds rest := foldLineEnds_append hline.endsLine rest
  have hstart : ({} : Layout).AtLine := ⟨rfl, by decide⟩
  rcases hbefore with rfl | hbefore
  · have hwith : (Scanner.ofText file ("" ++ line ++ after)).AtLine
        (foldLineEnds line.toList ++ foldLineEnds after.toList) :=
      ⟨by simp [Scanner.ofText, hfold], rfl, rfl⟩
    have hwithout : (Scanner.ofText file ("" ++ after)).AtLine (foldLineEnds after.toList) :=
      ⟨by simp [Scanner.ofText], rfl, rfl⟩
    exact (outline_blankLine hline.folded hwith hwithout hstart rfl (.refl _)).symm
  · have hends := hbefore.endsLine
    have hlast : EndsLine before.toList := by
      rw [EndsLine, getLast?_foldLineEnds] at hends
      exact hends
    obtain ⟨tokens, last, ending, hall, hnewline, hstop⟩ := hbefore
    have hwith : (Scanner.ofText file before).Extends (.ofText file (before ++ line ++ after))
        (foldLineEnds line.toList ++ foldLineEnds after.toList) :=
      ⟨by simp [Scanner.ofText, foldLineEnds_append hlast, hfold], rfl, rfl⟩
    have hwithout : (Scanner.ofText file before).Extends (.ofText file (before ++ after))
        (foldLineEnds after.toList) := ⟨by simp [Scanner.ofText, foldLineEnds_append hlast], rfl, rfl⟩
    have hstands : (Scanner.ofText file before).Stands file (foldLineEnds before.toList) 0 :=
      ⟨rfl, rfl, rfl, Nat.zero_le _⟩
    refine outline_extends hstands hends hall hnewline hstop hwithout hwith (.refl _) ?_
    -- Both texts go on at the start of a line, behind the newlines that stand there.
    intro r r' x y hr hr' hx hflat hlike
    have hu : (Scanner.ofText file after).AtLine (foldLineEnds after.toList) := ⟨rfl, rfl, rfl⟩
    have hv : (Scanner.ofText file (line ++ after)).AtLine (foldLineEnds line.toList ++ foldLineEnds after.toList) :=
      ⟨by simp [Scanner.ofText, hfold], rfl, rfl⟩
    calc outline r' y
      _ = outline (.ofText file (line ++ after)) x := outline_newlines hv hr' hx hflat hlike
      _ = outline (.ofText file after) x := (outline_blankLine hline.folded hv hu hx hflat (.refl x)).symm
      _ = outline r x := (outline_newlines hu hr hx hflat (.refl x)).symm

/-- A comment between a colon and the block that it announces. -/
theorem TokenStream.ofText_blankLine_block :
    IsBlankLine "\t # c\r\n".toList ∧ Scanner.EndsWithNewline "t.cu" "if a:\n" ∧
      ((TokenStream.ofText "t.cu" ("if a:\n" ++ "\t # c\r\n" ++ "  pass\n")).toList.map
          (List.map Token.kind)).mapError Failure.unplaced =
        ((TokenStream.ofText "t.cu" ("if a:\n" ++ "  pass\n")).toList.map
          (List.map Token.kind)).mapError Failure.unplaced := by
  have hline : IsBlankLine "\t # c\r\n".toList := by
    have htext : "\t # c\r\n".toList = ['\t', ' '] ++ '#' :: [' ', 'c', '\r'] ++ ['\n'] := by decide
    rw [htext]
    exact .comment (by simp [isBlank]) (by simp)
  have hends : Scanner.EndsWithNewline "t.cu" "if a:\n" := ⟨[⟨.keyword .if_, ⟨⟨"t.cu", ⟨1, 1⟩⟩, ⟨"t.cu", ⟨1, 3⟩⟩⟩⟩,
        ⟨.identifier "a", ⟨⟨"t.cu", ⟨1, 4⟩⟩, ⟨"t.cu", ⟨1, 5⟩⟩⟩⟩,
        ⟨.symbol .colon, ⟨⟨"t.cu", ⟨1, 5⟩⟩, ⟨"t.cu", ⟨1, 6⟩⟩⟩⟩],
      ⟨.newline, ⟨⟨"t.cu", ⟨1, 6⟩⟩, ⟨"t.cu", ⟨2, 1⟩⟩⟩⟩,
      ⟨.endOfFile, ⟨⟨"t.cu", ⟨2, 1⟩⟩, ⟨"t.cu", ⟨2, 1⟩⟩⟩⟩, rfl, rfl, by decide⟩
  exact ⟨hline, hends, TokenStream.ofText_blankLine _ _ _ _ hline (.inr hends)⟩

end Offside
