import Offside.Proofs.Token.Spelling
import Offside.Proofs.Token.Stream

/-! Lines of a text and the tokens of their layout.

A text of lines with four blanks for each step of depth is described by `LaidOut`: each line is a row of
lexemes, a line that ends with a colon is followed by one a step deeper, and blocks are closed before the
lines that stand further out. `LaidOut.tokens` says that the stream of such a text has the tokens of the
lines, with the openings and closings of blocks between them, and no fault. -/
namespace Offside

open List

variable {text : List Char} {levels : List Nat} {kinds : List TokenKind} {depth inner : Nat} {scanner : Scanner}

/-! ### Steps of the scanner -/

theorem triviaLength_solid {c : Char} (blanks newlines : Bool) (rest : List Char) (hn : c ≠ '\n')
    (hc : c ≠ '#') (hb : c ≠ '\\') (hblank : isBlank c = false) :
    triviaLength blanks newlines false (c :: rest) = 0 := by
  unfold triviaLength
  split <;> simp_all

namespace Scanner

variable {s : Scanner} {text : List Char}

theorem advance_zero (s : Scanner) : s.advance 0 = s := by
  unfold advance
  rw [drop_zero, take_zero]
  rfl

theorem skipTrivia_solid {c : Char} (hrest : s.rest = c :: text) (hn : c ≠ '\n') (hc : c ≠ '#')
    (hb : c ≠ '\\') (hblank : isBlank c = false) : s.skipTrivia = s := by
  unfold skipTrivia
  rw [hrest, triviaLength_solid _ _ text hn hc hb hblank]
  exact s.advance_zero

/-- What the next step finds where nothing is passed over. -/
theorem next_of_front (hskip : s.skipTrivia = s) {kind : TokenKind} {length : Nat}
    (hfront : front s.rest = .ok kind length) :
    ∃ span, s.next = (.ok ⟨kind, span⟩, (s.advance length).note kind) := by
  unfold next
  rw [hskip]
  simp only [take, hfront]
  exact ⟨_, rfl⟩

/-- A step over a lexeme inside a line or at its start. -/
theorem next_spelled {lexeme : List Char} {kind : TokenKind} (hrest : s.rest = lexeme ++ text)
    (h : Spelled lexeme kind text) : ∃ span after, s.next = (.ok ⟨kind, span⟩, after) ∧
      after.rest = text ∧ after.atLineStart = false ∧ after.brackets = s.brackets.after kind := by
  have hsolid := h.substance
  obtain ⟨c, more, rfl, hblank, hc, hb⟩ := h.start
  have hn : c ≠ '\n' := (h.clean c mem_cons_self).1
  have hskip : s.skipTrivia = s := skipTrivia_solid (by rw [hrest]; rfl) hn hc hb hblank
  have hfront : front s.rest = .ok kind (c :: more).length := by
    rw [hrest, ← h.found]
    simp [front, hblank, hn]
  obtain ⟨span, hnext⟩ := next_of_front hskip hfront
  refine ⟨span, _, hnext, ?_, ?_, ?_⟩
  · rw [note_rest, advance_rest, hrest, drop_left]
  · cases kind <;> first | rfl | cases hsolid
  · cases kind <;> rfl

/-- Inside a line a blank is passed over. -/
theorem next_blank (hrest : s.rest = ' ' :: text) (hline : s.atLineStart = false) : s.next = (s.advance 1).next := by
  have hskip : s.skipTrivia = (s.advance 1).skipTrivia := by
    have hblank (newlines : Bool) : triviaLength true newlines false (' ' :: text) =
        triviaLength true newlines false text + 1 := by simp [triviaLength, isBlank]
    unfold skipTrivia
    simp only [advance_rest, advance_atLineStart, advance_brackets, hline, hrest, Bool.not_false,
      Bool.true_or, hblank, drop_succ_cons, drop_zero]
    unfold advance
    simp only [hrest]
    rfl
  unfold next
  rw [hskip]

/-- A step over the end of a line outside brackets. -/
theorem next_newline (hrest : s.rest = '\n' :: text) (htext : ∀ c ∈ text.head?, c ≠ '\n')
    (hbrackets : s.brackets.isOpen = false) : ∃ span after, s.next = (.ok ⟨.newline, span⟩, after) ∧
      after.rest = text ∧ after.atLineStart ∧ after.brackets = s.brackets := by
  have hskip : s.skipTrivia = s := by
    unfold skipTrivia
    rw [hrest, hbrackets]
    exact s.advance_zero
  have hfront : front s.rest = .ok .newline 1 := by
    rw [hrest]
    show Lexeme.ok .newline ((['\n'] ++ text).takeWhile (· == '\n')).length = _
    rw [takeWhile_append_eq (by simp) (by simpa using htext)]
    rfl
  obtain ⟨span, hnext⟩ := next_of_front hskip hfront
  refine ⟨span, _, hnext, ?_, rfl, rfl⟩
  rw [note_rest, advance_rest, hrest]
  rfl

/-- A step over the blanks that start a line. -/
theorem next_indentation {n : Nat} (hn : 0 < n) (hrest : s.rest = replicate n ' ' ++ text)
    (htext : ∀ c ∈ text.head?, isBlank c = false) (hline : s.atLineStart)
    (hbrackets : s.brackets.isOpen = false) : ∃ span after,
      s.next = (.ok ⟨.whitespace n, span⟩, after) ∧ after.rest = text ∧ after.atLineStart ∧
      after.brackets = s.brackets := by
  obtain ⟨n, rfl⟩ := Nat.exists_eq_add_one_of_ne_zero (Nat.pos_iff_ne_zero.mp hn)
  have hskip : s.skipTrivia = s := by
    unfold skipTrivia
    rw [hrest, hbrackets, hline]
    exact s.advance_zero
  have hfront : front s.rest = .ok (.whitespace (n + 1)) (n + 1) := by
    have hblanks : (replicate (n + 1) ' ' ++ text).takeWhile isBlank = replicate (n + 1) ' ' :=
      takeWhile_append_eq (by simp [isBlank]) htext
    rw [replicate_succ, cons_append] at hblanks
    rw [hrest, replicate_succ, cons_append, front]
    simp only [hblanks]
    simp [isBlank]
  obtain ⟨span, hnext⟩ := next_of_front hskip hfront
  refine ⟨span, _, hnext, ?_, hline, rfl⟩
  rw [note_rest, advance_rest, hrest]
  exact drop_left' (length_replicate ..)

theorem next_end (hrest : s.rest = []) : ∃ span after, s.next = (.ok ⟨.endOfFile, span⟩, after) := by
  have hskip : s.skipTrivia = s := by
    unfold skipTrivia
    rw [hrest]
    exact s.advance_zero
  have hfront : front s.rest = .ok .endOfFile 0 := by rw [hrest]; rfl
  obtain ⟨span, hnext⟩ := next_of_front hskip hfront
  exact ⟨span, _, hnext⟩

end Scanner

/-! ### Steps of the layout -/

/-- What a token announces for the end of its line. -/
def TokenKind.announces (k : TokenKind) : Announcement := if k = .symbol .colon then .possible else .none

theorem TokenKind.announces_ne_due (k : TokenKind) : k.announces ≠ .due := by
  unfold TokenKind.announces
  split <;> decide

namespace LineState

variable {s : LineState} {t : Token}

theorem mark_substance (h : t.kind.isLayout = false) (hdue : s.announced ≠ .due) :
    s.mark t = (⟨t, s.atLineStart, false⟩, ⟨false, t.kind.announces⟩) := by
  unfold mark TokenKind.announces
  split <;> simp_all [TokenKind.isLayout]

/-- The first token of a block. -/
theorem mark_due (h : t.kind.isLayout = false) (hcolon : t.kind ≠ .symbol .colon)
    (hdue : s.announced = .due) :
    s.mark t = (⟨t, s.atLineStart, true⟩, ⟨false, t.kind.announces⟩) := by
  unfold mark TokenKind.announces
  split <;> simp_all [TokenKind.isLayout]

end LineState

/-- The widths that are open at a depth, with four blanks for each step. -/
def levelsAt : Nat → List Nat
  | 0 => [0]
  | depth + 1 => 4 * (depth + 1) :: levelsAt depth

theorem levelsAt_headD (depth : Nat) : (levelsAt depth).headD 0 = 4 * depth := by
  cases depth <;> rfl

theorem length_levelsAt (depth : Nat) : (levelsAt depth).length = depth + 1 := by
  induction depth with
  | zero => rfl
  | succ depth ih => rw [levelsAt, length_cons, ih]

theorem mem_levelsAt (h : depth ≤ inner) : 4 * depth ∈ levelsAt inner := by
  induction inner with
  | zero =>
    cases h
    exact mem_singleton.mpr rfl
  | succ inner ih =>
    rcases Nat.lt_or_eq_of_le h with hlt | rfl
    · exact mem_cons_of_mem _ (ih (Nat.lt_succ_iff.mp hlt))
    · exact mem_cons_self

/-- Closing blocks down to a depth leaves the widths of that depth. -/
theorem dropWhile_levelsAt (h : depth ≤ inner) : (levelsAt inner).dropWhile (· != 4 * depth) = levelsAt depth := by
  induction inner with
  | zero =>
    cases h
    rfl
  | succ inner ih =>
    rcases Nat.lt_or_eq_of_le h with hlt | rfl
    · rw [levelsAt, dropWhile_cons_of_pos (by simp; omega), ih (Nat.lt_succ_iff.mp hlt)]
    · rw [levelsAt, dropWhile_cons_of_neg (by simp)]

theorem drop_levelsAt (depth : Nat) : (levelsAt depth).drop ((levelsAt depth).length - 1) = [0] := by
  induction depth with
  | zero => rfl
  | succ depth ih =>
    rw [length_levelsAt] at ih ⊢
    rw [levelsAt]
    exact ih

namespace Indentation

variable {t : Token}

/-- A token of substance that does not start a line. -/
theorem push_inside (levels : List Nat) (width : Nat) (blanks : Bool) (h : t.kind.isLayout = false) :
    (Indentation.mk levels width blanks).push ⟨t, false, false⟩ = ⟨[t], none, ⟨levels, width, false⟩⟩ := by
  obtain ⟨kind, span⟩ := t
  cases kind <;> first | rfl | cases h

/-- The first token of a line that closes some blocks or none. -/
theorem push_outer (hle : depth ≤ inner) (blanks : Bool)
    (h : t.kind.isLayout = false) :
    (Indentation.mk (levelsAt inner) (4 * depth) blanks).push ⟨t, true, false⟩ =
      ⟨replicate (inner - depth) (Token.atPoint .dedent t.start) ++ [t], none,
        ⟨levelsAt depth, 4 * depth, false⟩⟩ := by
  have hne : t.kind ≠ .endOfFile := by
    intro he
    rw [he] at h
    cases h
  have hlevel (b : Bool) : (Indentation.mk (levelsAt inner) (4 * depth) b).level = 4 * inner :=
    levelsAt_headD inner
  have hcontains : (levelsAt inner).contains (4 * depth) := by simpa using mem_levelsAt hle
  have hclose : (Indentation.mk (levelsAt inner) (4 * depth) false).closeTo
      ((levelsAt inner).dropWhile (· != 4 * depth)) t.start =
      (replicate (inner - depth) (Token.atPoint .dedent t.start),
        ⟨levelsAt depth, 4 * depth, false⟩) := by
    rw [dropWhile_levelsAt hle, closeTo, length_levelsAt, length_levelsAt,
      Nat.add_sub_add_right]
  unfold push
  simp only
  split
  · rename_i hw
    rw [hw] at h
    cases h
  · rename_i hn
    rw [hn] at h
    cases h
  · rw [if_neg (by decide), if_neg hne, if_pos trivial, hlevel, if_neg (by omega)]
    split
    · rw [hclose]
    · have hsame : inner = depth := by omega
      subst hsame
      rw [Nat.sub_self]
      rfl

/-- The first token of a line that has to open a block. -/
theorem push_opening (depth : Nat) (blanks : Bool) (h : t.kind.isLayout = false) :
    (Indentation.mk (levelsAt depth) (4 * (depth + 1)) blanks).push ⟨t, true, true⟩ =
      ⟨[Token.atPoint .indent t.start] ++ [t], none, ⟨levelsAt (depth + 1), 4 * (depth + 1), false⟩⟩ := by
  have hlevel (b : Bool) : (Indentation.mk (levelsAt depth) (4 * (depth + 1)) b).level = 4 * depth :=
    levelsAt_headD depth
  unfold push
  simp only
  split
  · rename_i hw
    rw [hw] at h
    cases h
  · rename_i hn
    rw [hn] at h
    cases h
  · rw [if_pos trivial, hlevel, if_neg]
    · rfl
    · simp only [Bool.or_eq_true, decide_eq_true_eq]
      rintro (hle | he)
      · omega
      · rw [he] at h
        cases h

/-- The end of the file closes all blocks. -/
theorem push_end (depth width : Nat) (blanks : Bool) (h : t.kind = .endOfFile) :
    (Indentation.mk (levelsAt depth) width blanks).push ⟨t, true, false⟩ =
      ⟨replicate depth (Token.atPoint .dedent t.start) ++ [t], none, ⟨[0], width, false⟩⟩ := by
  have hclose : (Indentation.mk (levelsAt depth) width false).closeTo
      ((levelsAt depth).drop ((levelsAt depth).length - 1)) t.start =
      (replicate depth (Token.atPoint .dedent t.start), ⟨[0], width, false⟩) := by
    rw [drop_levelsAt, closeTo, length_levelsAt]
    rfl
  unfold push
  simp only [h]
  rw [if_neg (by decide), if_pos trivial, hclose]

end Indentation

/-! ### Rows and lines -/

/-- From here on the stream gives tokens of these kinds, and no fault. -/
def Streams (scanner : Scanner) (layout : Layout) (kinds : List TokenKind) : Prop :=
  ∀ fuel, scanner.rest.length < fuel → (TokenStream.collect fuel scanner layout).2 = none ∧
    (TokenStream.collect fuel scanner layout).1.map Token.kind = kinds

/-- One raw token, and what comes behind it. -/
theorem Streams.step {after : Scanner} {line line' : LineState} {state state' : Indentation}
    {t : Token} {m : MarkedToken} {out : List Token}
    (hnext : scanner.next = (.ok t, after)) (hne : t.kind ≠ .endOfFile)
    (hmark : line.mark t = (m, line')) (hpush : state.push m = ⟨out, none, state'⟩)
    (h : Streams after ⟨line', state'⟩ kinds) :
    Streams scanner ⟨line, state⟩ (out.map Token.kind ++ kinds) := by
  intro fuel hfuel
  cases fuel with
  | zero => exact absurd hfuel (Nat.not_lt_zero _)
  | succ fuel =>
    have hprogress := Scanner.next_progress hnext hne
    obtain ⟨hfailure, hkinds⟩ := h fuel (by omega)
    have hlayout : (Layout.mk line state).push t = (m, ⟨out, none, state'⟩, ⟨line', state'⟩) := by
      rw [Layout.push_eq, hmark, hpush]
    rw [TokenStream.collect_succ, hnext]
    simp only [hlayout, if_neg hne, map_append]
    exact ⟨hfailure, by rw [hkinds]⟩

/-- The last raw token. -/
theorem Streams.ending {after : Scanner} {line line' : LineState} {state state' : Indentation}
    {t : Token} {m : MarkedToken} {out : List Token} (hnext : scanner.next = (.ok t, after))
    (hend : t.kind = .endOfFile) (hmark : line.mark t = (m, line'))
    (hpush : state.push m = ⟨out, none, state'⟩) :
    Streams scanner ⟨line, state⟩ (out.map Token.kind) := by
  intro fuel hfuel
  cases fuel with
  | zero => exact absurd hfuel (Nat.not_lt_zero _)
  | succ fuel =>
    have hlayout : (Layout.mk line state).push t = (m, ⟨out, none, state'⟩, ⟨line', state'⟩) := by
      rw [Layout.push_eq, hmark, hpush]
    rw [TokenStream.collect_succ, hnext]
    simp only [hlayout, if_pos hend, and_self]

/-- Blanks inside a line change nothing. -/
theorem Streams.blank {layout : Layout} (hrest : scanner.rest = ' ' :: text) (hline : scanner.atLineStart = false)
    (h : Streams (scanner.advance 1) layout kinds) : Streams scanner layout kinds := by
  intro fuel hfuel
  have hlength : (scanner.advance 1).rest.length < fuel := by
    rw [Scanner.advance_rest, length_drop]
    omega
  have hstep := h fuel hlength
  cases fuel with
  | zero => exact absurd hfuel (Nat.not_lt_zero _)
  | succ fuel =>
    rw [TokenStream.collect_succ] at hstep ⊢
    rw [Scanner.next_blank hrest hline]
    exact hstep

/-- What the tokens of a line announce for its end. -/
def announcedBehind (a : Announcement) (kinds : List TokenKind) : Announcement :=
  kinds.foldl (fun _ k => k.announces) a

/-- Whether the next line has to open a block. -/
def Announcement.atNewline (a : Announcement) : Announcement := if a = .possible then .due else a

/-- A scanner where a line starts, outside brackets. -/
structure Scanner.AtLine (s : Scanner) (text : List Char) : Prop where
  rest : s.rest = text
  atLineStart : s.atLineStart = true
  closed : s.brackets.isOpen = false

/-- A row of lexemes inside a line, up to its end. -/
theorem Streams.row {rest : List Char} {more : List TokenKind} {width : Nat} (hrest : ∀ c ∈ rest.head?, c ≠ '\n')
    (h : Spells ('\n' :: rest) text kinds) (scanner : Scanner) (a : Announcement) (ha : a ≠ .due)
    (htext : scanner.rest = text ++ '\n' :: rest) (hline : scanner.atLineStart = false)
    (hclosed : (kinds.foldl Brackets.after scanner.brackets).isOpen = false)
    (hmore : ∀ s : Scanner, s.AtLine rest →
      Streams s ⟨⟨true, (announcedBehind a kinds).atNewline⟩, ⟨levels, 0, false⟩⟩ more) :
    Streams scanner ⟨⟨false, a⟩, ⟨levels, width, false⟩⟩ (kinds ++ .newline :: more) := by
  induction h generalizing scanner a with
  | nil =>
    obtain ⟨span, after, hnext, hafter, hstart, hbrackets⟩ := Scanner.next_newline htext hrest hclosed
    have hpush : (Indentation.mk levels width false).push ⟨⟨.newline, span⟩, false, false⟩ =
        ⟨[⟨.newline, span⟩], none, ⟨levels, 0, false⟩⟩ := rfl
    have hafter' : after.AtLine rest := ⟨hafter, hstart, by rw [hbrackets]; exact hclosed⟩
    have hmark : (LineState.mk false a).mark ⟨.newline, span⟩ =
        (⟨⟨.newline, span⟩, false, false⟩, ⟨true, a.atNewline⟩) := rfl
    exact Streams.step hnext nofun hmark hpush (hmore after hafter')
  | blank _ ih =>
    refine .blank htext hline (ih (scanner.advance 1) a ha ?_ hline hclosed hmore)
    rw [Scanner.advance_rest, htext]
    rfl
  | @token lexeme text kind kinds hlexeme _ ih =>
    rw [append_assoc] at htext
    obtain ⟨span, after, hnext, hafter, hstart, hbrackets⟩ := Scanner.next_spelled htext hlexeme
    have hsolid : kind.isLayout = false := hlexeme.substance
    have hmark := LineState.mark_substance (s := ⟨false, a⟩) (t := ⟨kind, span⟩) hsolid ha
    have hpush := Indentation.push_inside (t := ⟨kind, span⟩) levels width false hsolid
    have hne : kind ≠ .endOfFile := by
      rintro rfl
      cases hsolid
    have htail := ih after kind.announces kind.announces_ne_due hafter hstart (by rw [hbrackets]; exact hclosed) hmore
    exact Streams.step hnext hne hmark hpush htail

/-- A row of lexemes that can be a line of its own. -/
structure IsLine (text : List Char) (kinds : List TokenKind) : Prop where
  spells : ∀ rest, Spells ('\n' :: rest) text kinds
  solid : ∀ c ∈ text.head?, c ≠ ' '
  balanced : ∀ b : Brackets, kinds.foldl Brackets.after b = b
  start : ∃ k ks, kinds = k :: ks ∧ k ≠ .symbol .colon

/-- A line starts with a lexeme. -/
theorem IsLine.exists_lexeme (h : IsLine text kinds)
    (rest : List Char) : ∃ lexeme text' kind kinds', text = lexeme ++ text' ∧ kinds = kind :: kinds' ∧
      Spelled lexeme kind (text' ++ '\n' :: rest) ∧ Spells ('\n' :: rest) text' kinds' := by
  have hspells := h.spells rest
  cases hspells with
  | nil =>
    obtain ⟨_, _, hcons, _⟩ := h.start
    cases hcons
  | blank => exact absurd rfl (h.solid ' ' rfl)
  | token hlexeme hmore => exact ⟨_, _, _, _, rfl, rfl, hlexeme, hmore⟩

/-- A whole line. The blocks that its first token closes or opens are given. -/
theorem Streams.line {rest : List Char} {front more : List TokenKind} {levels' : List Nat} {due : Bool}
    (h : IsLine text kinds)
    (hrest : ∀ c ∈ rest.head?, c ≠ '\n') (scanner : Scanner)
    (hscanner : scanner.AtLine (replicate (4 * depth) ' ' ++ text ++ '\n' :: rest))
    (hplace : ∀ (t : Token) (blanks : Bool), t.kind.isLayout = false → ∃ out,
      (Indentation.mk levels (4 * depth) blanks).push ⟨t, true, due⟩ =
        ⟨out ++ [t], none, ⟨levels', 4 * depth, false⟩⟩ ∧ out.map Token.kind = front)
    (hmore : ∀ s : Scanner, s.AtLine rest →
      Streams s ⟨⟨true, (announcedBehind .none kinds).atNewline⟩, ⟨levels', 0, false⟩⟩ more) :
    Streams scanner ⟨⟨true, if due then .due else .none⟩, ⟨levels, 0, false⟩⟩
      (front ++ (kinds ++ .newline :: more)) := by
  obtain ⟨lexeme, text', kind, kinds', rfl, rfl, hlexeme, hspells⟩ := h.exists_lexeme rest
  have hsolid := hlexeme.substance
  have hne : kind ≠ .endOfFile := by
    rintro rfl
    cases hsolid
  have hcolon : kind ≠ .symbol .colon := by
    obtain ⟨k, ks, hcons, hk⟩ := h.start
    cases hcons
    exact hk
  -- The first token, behind the blanks if there are any.
  have hfirst (s : Scanner) (blanks : Bool) (hs : s.rest = lexeme ++ (text' ++ '\n' :: rest))
      (hclosed : s.brackets.isOpen = false) :
      Streams s ⟨⟨true, if due then .due else .none⟩, ⟨levels, 4 * depth, blanks⟩⟩
        (front ++ (kind :: kinds' ++ .newline :: more)) := by
    obtain ⟨span, after, hnext, hafter, hstart, hbrackets⟩ := Scanner.next_spelled hs hlexeme
    obtain ⟨out, hpush, rfl⟩ := hplace ⟨kind, span⟩ blanks hsolid
    have hmark : (LineState.mk true (if due then .due else .none)).mark ⟨kind, span⟩ =
        (⟨⟨kind, span⟩, true, due⟩, ⟨false, kind.announces⟩) := by
      cases due with
      | true => exact LineState.mark_due hsolid hcolon rfl
      | false => exact LineState.mark_substance hsolid nofun
    have hrow : Streams after ⟨⟨false, kind.announces⟩, ⟨levels', 4 * depth, false⟩⟩
        (kinds' ++ .newline :: more) :=
      .row hrest hspells after kind.announces kind.announces_ne_due hafter hstart
        (by rw [hbrackets]; exact (h.balanced s.brackets).symm ▸ hclosed) hmore
    simpa using Streams.step hnext hne hmark hpush hrow
  obtain ⟨htext, hline, hclosed⟩ := hscanner
  cases depth with
  | zero => exact hfirst scanner false (by simpa using htext) hclosed
  | succ depth =>
    have htext : scanner.rest = replicate (4 * (depth + 1)) ' ' ++
        (lexeme ++ (text' ++ '\n' :: rest)) := by simpa using htext
    have hnonblank : ∀ c ∈ (lexeme ++ (text' ++ '\n' :: rest)).head?, isBlank c = false := by
      obtain ⟨c, tail, rfl, hblank, _⟩ := hlexeme.start
      rintro d ⟨⟩
      exact hblank
    obtain ⟨span, after, hnext, hafter, hstart, hbrackets⟩ :=
      Scanner.next_indentation (by omega) htext hnonblank hline hclosed
    have hrow := hfirst after true hafter (by rw [hbrackets]; exact hclosed)
    have hpush : (Indentation.mk levels 0 false).push
        ⟨⟨.whitespace (4 * (depth + 1)), span⟩, true, false⟩ =
        ⟨[], none, ⟨levels, 4 * (depth + 1), true⟩⟩ := rfl
    exact Streams.step hnext nofun rfl hpush hrow

/-! ### Texts of lines -/

/-- A text of lines from a line at a depth on, which has to open a block or not, and its tokens. -/
inductive LaidOut : (due : Bool) → (depth : Nat) → List Char → List TokenKind → Prop where
  | done : LaidOut false 0 [] [.endOfFile]
  | line {due : Bool} {depth : Nat} {text rest : List Char} {kinds more : List TokenKind} :
      IsLine text kinds → kinds.getLast? ≠ some (.symbol .colon) → LaidOut false depth rest more →
      LaidOut due depth (List.replicate (4 * depth) ' ' ++ text ++ '\n' :: rest) (kinds ++ .newline :: more)
  /-- A colon at the end of a line announces a block. -/
  | opening {due : Bool} {depth : Nat} {text rest : List Char} {kinds more : List TokenKind} :
      IsLine text kinds → kinds.getLast? = some (.symbol .colon) → LaidOut true (depth + 1) rest more →
      LaidOut due depth (List.replicate (4 * depth) ' ' ++ text ++ '\n' :: rest)
        (kinds ++ .newline :: .indent :: more)
  | closing {depth : Nat} {rest : List Char} {more : List TokenKind} :
      LaidOut false depth rest more → LaidOut false (depth + 1) rest (.dedent :: more)

/-- What the first token of a line at a depth does, given the widths that are open: it closes blocks, or
it opens the one that is due. -/
inductive Placing (depth : Nat) : (due : Bool) → List Nat → List TokenKind → Prop where
  | outer (inner : Nat) : depth ≤ inner →
      Placing depth false (levelsAt inner) (List.replicate (inner - depth) .dedent)
  | opening (around : Nat) : depth = around + 1 → Placing depth true (levelsAt around) [.indent]

theorem Placing.push {depth : Nat} {due : Bool} {levels : List Nat} {front : List TokenKind}
    (h : Placing depth due levels front) (t : Token) (blanks : Bool) (ht : t.kind.isLayout = false) :
    ∃ out, (Indentation.mk levels (4 * depth) blanks).push ⟨t, true, due⟩ =
      ⟨out ++ [t], none, ⟨levelsAt depth, 4 * depth, false⟩⟩ ∧ out.map Token.kind = front := by
  cases h with
  | outer inner hle => exact ⟨_, Indentation.push_outer hle blanks ht, map_replicate⟩
  | opening around hdepth =>
    subst hdepth
    exact ⟨_, Indentation.push_opening around blanks ht, rfl⟩

theorem announcedBehind_of_getLast? {k : TokenKind}
    (h : kinds.getLast? = some k) (a : Announcement) : announcedBehind a kinds = k.announces := by
  obtain ⟨init, rfl⟩ := getLast?_eq_some_iff.mp h
  rw [announcedBehind, foldl_append]
  rfl

namespace LaidOut

variable {due : Bool} {depth : Nat} {text : List Char} {kinds : List TokenKind}

variable (h : LaidOut due depth text kinds)
include h

theorem clean : ∀ c ∈ text, c ≠ '\r' := by
  have hline {depth : Nat} {text rest : List Char} {kinds : List TokenKind} (hline : IsLine text kinds)
      (hrest : ∀ c ∈ rest, c ≠ '\r') :
      ∀ c ∈ replicate (4 * depth) ' ' ++ text ++ '\n' :: rest, c ≠ '\r' := by
    intro c hc
    simp only [mem_append, mem_cons] at hc
    rcases hc with (hc | hc) | rfl | hc
    · rw [(mem_replicate.mp hc).2]
      decide
    · exact ((hline.spells []).clean c hc).2
    · decide
    · exact hrest c hc
  induction h with
  | done => nofun
  | line h _ _ ih => exact hline h ih
  | opening h _ _ ih => exact hline h ih
  | closing _ ih => exact ih

/-- The text does not start with an empty line. -/
theorem head_ne_newline : ∀ c ∈ text.head?, c ≠ '\n' := by
  have hline {depth : Nat} {text rest : List Char} {kinds : List TokenKind} (hline : IsLine text kinds) :
      ∀ c ∈ (replicate (4 * depth) ' ' ++ text ++ '\n' :: rest).head?, c ≠ '\n' := by
    obtain ⟨lexeme, text', _, _, rfl, _, hlexeme, _⟩ := hline.exists_lexeme rest
    obtain ⟨c, more, rfl, _⟩ := hlexeme.start
    cases depth with
    | zero =>
      rintro d ⟨⟩
      exact (hlexeme.clean c mem_cons_self).1
    | succ depth =>
      rintro d ⟨⟩
      decide
  induction h with
  | done => nofun
  | line h _ _ ih => exact hline h
  | opening h _ _ ih => exact hline h
  | closing _ ih => exact ih

/-- From the start of any line on, the stream has the tokens of the layout. -/
theorem streams {front : List TokenKind}
    (hplacing : Placing depth due levels front) (s : Scanner) (hs : s.AtLine text) :
    Streams s ⟨⟨true, if due then .due else .none⟩, ⟨levels, 0, false⟩⟩ (front ++ kinds) := by
  induction h generalizing levels front s with
  | done =>
    cases hplacing with
    | outer inner =>
      obtain ⟨span, after, hnext⟩ := Scanner.next_end hs.rest
      have hpush := Indentation.push_end (t := ⟨.endOfFile, span⟩) inner 0 false rfl
      have hmark : (LineState.mk true .none).mark ⟨.endOfFile, span⟩ =
          (⟨⟨.endOfFile, span⟩, true, false⟩, ⟨false, .none⟩) := rfl
      simpa [Token.atPoint] using Streams.ending hnext rfl hmark hpush
  | @line due depth text rest kinds more hline hcolon hrest ih =>
    refine .line hline hrest.head_ne_newline s hs hplacing.push fun s' hs' => ?_
    obtain ⟨k, ks, hcons, _⟩ := hline.start
    have hlast : kinds.getLast? = some (kinds.getLast (by rw [hcons]; exact cons_ne_nil k ks)) :=
      getLast?_eq_some_getLast _
    have hnone : (announcedBehind .none kinds).atNewline = .none := by
      rw [announcedBehind_of_getLast? hlast, TokenKind.announces, if_neg]
      · rfl
      · intro heq
        rw [hlast, heq] at hcolon
        exact hcolon rfl
    have hmore := ih (.outer depth (Nat.le_refl depth)) s' hs'
    rw [Nat.sub_self] at hmore
    rw [hnone]
    exact hmore
  | @opening due depth text rest kinds more hline hcolon hrest ih =>
    refine .line hline hrest.head_ne_newline s hs hplacing.push fun s' hs' => ?_
    have hdue : (announcedBehind .none kinds).atNewline = .due := by
      rw [announcedBehind_of_getLast? hcolon]
      rfl
    rw [hdue]
    exact ih (.opening depth rfl) s' hs'
  | @closing depth rest more _ ih =>
    cases hplacing with
    | outer inner hle =>
      have hmore := ih (.outer inner (Nat.le_of_succ_le hle)) s hs
      have hcount : inner - depth = inner - (depth + 1) + 1 := by omega
      rw [hcount, replicate_succ', append_assoc] at hmore
      exact hmore

end LaidOut

theorem foldLineEnds_eq_self (h : ∀ c ∈ text, c ≠ '\r') : foldLineEnds text = text := by
  induction text with
  | nil => rfl
  | cons c text ih =>
    have hc : c ≠ '\r' := h c mem_cons_self
    have hrest := ih fun d hd => h d (mem_cons_of_mem _ hd)
    unfold foldLineEnds
    split
    · rename_i heq
      exact absurd (cons.inj heq).1 hc
    · rename_i heq
      obtain ⟨rfl, rfl⟩ := cons.inj heq
      rw [hrest]
    · contradiction

/-- The stream of a text of lines has the tokens of its layout, and no fault. -/
theorem LaidOut.tokens {text : String} (h : LaidOut false 0 text.toList kinds)
    (file : String) : (TokenStream.ofText file text).failure = none ∧
      (TokenStream.ofText file text).tokens.map Token.kind = kinds := by
  have hrest : (Scanner.ofText file text).rest = text.toList := foldLineEnds_eq_self h.clean
  have hstreams := h.streams (.outer 0 (Nat.le_refl 0)) (Scanner.ofText file text) ⟨hrest, rfl, rfl⟩
  exact hstreams _ (Nat.lt_succ_self _)

end Offside
