import Mathlib.Data.List.Induction
import Offside.Proofs.Token.Scanner
import Offside.Proofs.Token.Writing

/-! Scanning loses nothing.

The raw tokens of a text without faults lie in it one behind the other, up to its end. Each of them knows
where it stands, each is written there, and what lies between two of them is of no meaning (`Gap`): the main
statement is `Scanner.all_covers`. A step of the scanner shows this for one token (`Scanner.next_occupies`)
and keeps the scanner at an offset of the text (`Scanner.Stands`). -/
namespace Offside

open Text List

/-! ### Offsets and positions -/

/-- Line and column behind a text, both counted from one. -/
def Position.behind (text : List Char) : Position :=
  ⟨1 + text.count '\n', 1 + (text.reverse.takeWhile (· != '\n')).length⟩

theorem Position.behind_snoc (text : List Char) (c : Char) : behind (text ++ [c]) = (behind text).after c := by
  unfold behind after
  rw [reverse_append, reverse_singleton, singleton_append, count_append]
  by_cases hc : c = '\n'
  · subst hc
    rw [takeWhile_cons_of_neg (by simp)]
    simp [Nat.add_assoc]
  · rw [takeWhile_cons_of_pos (by simpa using hc)]
    simp [hc, Nat.add_assoc]

theorem Position.start_afterAll (text : List Char) : start.afterAll text = behind text := by
  induction text using reverseRecOn with
  | nil => rfl
  | append_singleton text c ih => rw [afterAll_append, ih, behind_snoc]; rfl

theorem Position.behind_append (text more : List Char) : behind (text ++ more) = (behind text).afterAll more := by
  rw [← start_afterAll, afterAll_append, start_afterAll]

/-- Line and column at an offset of a text. -/
def Position.ofOffset (text : List Char) (n : Nat) : Position := behind (text.take n)

/-! ### Gaps -/

/-- What carries no meaning before `rest`: blanks, continued lines, comments up to the ends of their lines,
and newlines where these are said to mean nothing. -/
inductive Gap (newlines : Bool) (rest : List Char) : List Char → Prop where
  | nil : Gap newlines rest []
  | blank {c : Char} {gap : List Char} : isBlank c = true → Gap newlines rest gap → Gap newlines rest (c :: gap)
  | continued {gap : List Char} : Gap newlines rest gap → Gap newlines rest ('\\' :: '\n' :: gap)
  | newline {gap : List Char} : newlines = true → Gap newlines rest gap → Gap newlines rest ('\n' :: gap)
  | comment {text gap : List Char} : (∀ c ∈ text, c ≠ '\n') → (∀ c ∈ (gap ++ rest).head?, c = '\n') →
      Gap newlines rest gap → Gap newlines rest ('#' :: text ++ gap)

/-- What is passed over is a gap, and inside a comment the rest of the comment and a gap. -/
theorem gap_triviaLength (blanks newlines comment : Bool) (text : List Char) :
    ∃ inside gap, text.take (triviaLength blanks newlines comment text) = inside ++ gap ∧
      Gap newlines (text.drop (triviaLength blanks newlines comment text)) gap ∧
      (comment = false → inside = []) ∧ (∀ c ∈ inside, c ≠ '\n') ∧
      (comment → ∀ c ∈ (gap ++ text.drop (triviaLength blanks newlines comment text)).head?, c = '\n') := by
  fun_induction triviaLength blanks newlines comment text with
  | case1 =>
    refine ⟨[], [], rfl, .nil, fun _ => rfl, forall_mem_nil _, fun _ => ?_⟩
    rintro c ⟨⟩
  | case2 comment rest hnewlines ih =>
    obtain ⟨inside, gap, htake, hgap, hinside, _, _⟩ := ih
    obtain rfl := hinside rfl
    refine ⟨[], '\n' :: gap, ?_, .newline hnewlines hgap, fun _ => rfl, forall_mem_nil _, fun _ => ?_⟩
    · rw [take_succ_cons, htake]
      rfl
    · rintro c ⟨⟩
      rfl
  | case3 comment rest =>
    refine ⟨[], [], rfl, .nil, fun _ => rfl, forall_mem_nil _, fun _ => ?_⟩
    rintro c ⟨⟩
    rfl
  | case4 c rest hc ih =>
    obtain ⟨inside, gap, htake, hgap, _, hinside, hline⟩ := ih
    refine ⟨c :: inside, gap, ?_, hgap, fun h => Bool.noConfusion h, forall_mem_cons.mpr ⟨hc, hinside⟩, hline⟩
    rw [take_succ_cons, htake]
    rfl
  | case5 rest ih =>
    obtain ⟨inside, gap, htake, hgap, _, hinside, hline⟩ := ih
    refine ⟨[], '#' :: inside ++ gap, ?_, .comment hinside (hline rfl) hgap, fun _ => rfl,
      forall_mem_nil _, fun h => Bool.noConfusion h⟩
    rw [take_succ_cons, htake]
    rfl
  | case6 rest ih =>
    obtain ⟨inside, gap, htake, hgap, hinside, _, _⟩ := ih
    obtain rfl := hinside rfl
    refine ⟨[], '\\' :: '\n' :: gap, ?_, .continued hgap, fun _ => rfl, forall_mem_nil _, fun h => Bool.noConfusion h⟩
    rw [take_succ_cons, take_succ_cons, htake]
    rfl
  | case7 c rest _ _ _ hblank ih =>
    obtain ⟨inside, gap, htake, hgap, hinside, _, _⟩ := ih
    obtain rfl := hinside rfl
    have hblank : isBlank c := (Bool.and_eq_true_iff.mp hblank).2
    refine ⟨[], c :: gap, ?_, .blank hblank hgap, fun _ => rfl, forall_mem_nil _, fun h => Bool.noConfusion h⟩
    rw [take_succ_cons, htake]
    rfl
  | case8 =>
    exact ⟨[], [], rfl, .nil, fun _ => rfl, forall_mem_nil _, fun h => Bool.noConfusion h⟩

theorem triviaLength_le (blanks newlines comment : Bool) (text : List Char) :
    triviaLength blanks newlines comment text ≤ text.length := by
  fun_induction triviaLength blanks newlines comment text <;> simp_all

/-- The brackets open behind some tokens. -/
def Brackets.behind (b : Brackets) (tokens : List Token) : Brackets := tokens.foldl (fun b t => b.after t.kind) b

/-! ### One token -/

/-- The token stands in a text between two offsets, behind a gap that starts at `before`. -/
structure Token.Occupies (t : Token) (file : String) (text : List Char) (newlines : Bool)
    (before start stop : Nat) : Prop where
  behind : before ≤ start
  ordered : start ≤ stop
  span : t.span = ⟨⟨file, .ofOffset text start⟩, ⟨file, .ofOffset text stop⟩⟩
  written : t.kind.Writes (text.extract start stop)
  gap : Gap newlines (text.drop start) (text.extract before start)

namespace Scanner

/-- The scanner has read the text up to an offset. -/
structure Stands (s : Scanner) (file : String) (text : List Char) (n : Nat) : Prop where
  file : s.file = file
  rest : s.rest = text.drop n
  position : s.position = .ofOffset text n
  inside : n ≤ text.length

variable {s after : Scanner} {file : String} {text : List Char} {n : Nat} {t : Token}

theorem Stands.location (h : s.Stands file text n) : s.location = ⟨file, .ofOffset text n⟩ := by
  rw [Scanner.location, h.file, h.position]

theorem Stands.advance (h : s.Stands file text n) {k : Nat} (hk : k ≤ s.rest.length) :
    (s.advance k).Stands file text (n + k) where
  file := h.file
  rest := by rw [advance_rest, h.rest, drop_drop]
  position := by
    show s.position.afterAll (s.rest.take k) = _
    rw [h.position, h.rest, Position.ofOffset, Position.ofOffset, take_add, Position.behind_append]
  inside := by
    have hinside := h.inside
    rw [h.rest, length_drop] at hk
    omega

theorem Stands.note (h : s.Stands file text n) (kind : TokenKind) : (s.note kind).Stands file text n := by
  unfold Scanner.note
  split <;> exact ⟨h.file, h.rest, h.position, h.inside⟩

theorem brackets_note (s : Scanner) (kind : TokenKind) : (s.note kind).brackets = s.brackets.after kind := by
  unfold Scanner.note
  split <;> rfl

/-- A step that finds a token, taken apart. -/
theorem next_ok (h : s.next = (.ok t, after)) : ∃ kind, (front s.skipTrivia.rest).outcome = .ok kind ∧
      t = ⟨kind, ⟨s.skipTrivia.location, (s.skipTrivia.advance (front s.skipTrivia.rest).length).location⟩⟩ ∧
      after = (s.skipTrivia.advance (front s.skipTrivia.rest).length).note kind := by
  unfold next take at h
  cases hfront : (front s.skipTrivia.rest).outcome with
  | error e => simp [hfront] at h
  | ok kind =>
    simp only [hfront, Prod.mk.injEq, Except.ok.injEq] at h
    exact ⟨kind, rfl, h.1.symm, h.2.symm⟩

/-- A token that is found occupies its place, and the scanner stands behind it. -/
theorem next_occupies (hs : s.Stands file text n) (h : s.next = (.ok t, after)) :
    ∃ start stop, t.Occupies file text s.brackets.isOpen n start stop ∧ after.Stands file text stop ∧
      after.brackets = s.brackets.after t.kind ∧ (t.kind = .endOfFile → stop = text.length) := by
  obtain ⟨kind, hfront, rfl, rfl⟩ := next_ok h
  let skipped := triviaLength (!s.atLineStart || s.brackets.isOpen) s.brackets.isOpen false s.rest
  have hskip : s.skipTrivia.Stands file text (n + skipped) := hs.advance (triviaLength_le _ _ _ _)
  obtain ⟨front', back, hsplit, hlength, hwrites⟩ := front_finds _ kind hfront
  have hfit : (front s.skipTrivia.rest).length ≤ s.skipTrivia.rest.length := by
    rw [hlength, hsplit, length_append]
    omega
  have hafter := hskip.advance hfit
  rw [hlength] at hafter ⊢
  refine ⟨n + skipped, n + skipped + front'.length, ⟨by omega, by omega, ?_, ?_, ?_⟩, hafter.note kind,
    brackets_note _ _, ?_⟩
  · rw [hskip.location, hafter.location]
  · have hextract : text.extract (n + skipped) (n + skipped + front'.length) = front' := by
      rw [extract, ← hskip.rest, hsplit, Nat.add_sub_cancel_left, take_left]
    rw [hextract]
    exact hwrites
  · obtain ⟨inside, gap, htake, hgap, hinside, _⟩ :=
      gap_triviaLength (!s.atLineStart || s.brackets.isOpen) s.brackets.isOpen false s.rest
    obtain rfl := hinside rfl
    rw [extract, Nat.add_sub_cancel_left, ← drop_drop, ← hs.rest, htake]
    exact hgap
  · rintro rfl
    cases hrest : s.skipTrivia.rest with
    | cons c rest =>
      rw [hrest] at hfront
      exact absurd hfront (front_ne_endOfFile c rest)
    | nil =>
      have hend := hskip.rest
      rw [hrest] at hend hsplit
      have hfull := drop_eq_nil_iff.mp hend.symm
      have hempty : front'.length = 0 := by simp_all
      have hinside := hskip.inside
      omega

/-! ### All tokens -/

/-- From an offset to the end. The two functions give the offsets at which tokens start, and those at which
the gaps before them do. -/
theorem run_covers (fuel : Nat) (hs : s.Stands file text n) (hfuel : s.rest.length < fuel)
    {tokens : List Token} (h : (run fuel s).1 = tokens.map .ok) :
    tokens.getLast?.map Token.kind = some .endOfFile ∧
      ∃ start stop : Nat → Nat, stop 0 = n ∧ stop tokens.length = text.length ∧
        ∀ (i : Nat) (t : Token), tokens[i]? = some t →
          t.Occupies file text (s.brackets.behind (tokens.take i)).isOpen (stop i) (start i)
            (stop (i + 1)) := by
  induction fuel generalizing s n tokens with
  | zero => exact absurd hfuel (Nat.not_lt_zero _)
  | succ fuel ih =>
    unfold run at h
    cases hnext : s.next with
    | mk outcome after =>
    rw [hnext] at h
    cases outcome with
    | error failure =>
      cases tokens <;> cases h
    | ok first =>
      obtain ⟨a, b, hfirst, hafter, hbrackets, hend⟩ := next_occupies hs hnext
      by_cases hlast : first.kind = .endOfFile
      · simp only [hlast, if_true] at h
        obtain ⟨t, rfl, ht⟩ := map_eq_singleton_iff.mp h.symm
        obtain rfl := Except.ok.inj ht
        refine ⟨by simp [hlast], fun _ => a, fun i => if i = 0 then n else b, rfl, hend hlast, ?_⟩
        intro i t ht
        cases i with
        | zero =>
          cases ht
          exact hfirst
        | succ i => cases ht
      · simp only [hlast, if_false] at h
        obtain ⟨t, rest, rfl, ht, hrest⟩ := map_eq_cons_iff.mp h.symm
        obtain rfl := Except.ok.inj ht
        have hshorter := next_progress hnext hlast
        obtain ⟨hfinal, start, stop, hstart, hstop, hcovers⟩ := ih hafter (by omega) hrest.symm
        -- The offsets of the rest are moved up by one, behind those of the first token.
        refine ⟨?_, fun i => if i = 0 then a else start (i - 1), fun i => if i = 0 then n else stop (i - 1),
          rfl, hstop, ?_⟩
        · cases rest with
          | nil => cases hfinal
          | cons _ _ => rw [getLast?_cons_cons]; exact hfinal
        · intro i t ht
          cases i with
          | zero =>
            cases ht
            show Token.Occupies _ file text _ n a (stop 0)
            rw [hstart]
            exact hfirst
          | succ i =>
            rw [hbrackets] at hcovers
            exact hcovers i t ht

/-- **The scanner loses nothing and knows where it is.** If every raw token of a text up to the end of the
file is found without a fault, the last token is that end, and there are offsets, none before the one in
front of it, from the start of the text to its end: each token lies between two of them with the lines and
columns of these as its span, the text there is what it is written as, and the text between a token and the
one before it is a gap, with newlines in it only where the tokens before it leave a bracket open. -/
theorem all_covers (file text : String) (tokens : List Token)
    (h : (Scanner.ofText file text).all.1 = tokens.map .ok) :
    tokens.getLast?.map Token.kind = some .endOfFile ∧
      ∃ start stop : Nat → Nat, stop 0 = 0 ∧ stop tokens.length = (foldLineEnds text.toList).length ∧
        ∀ (i : Nat) (t : Token), tokens[i]? = some t → t.Occupies file (foldLineEnds text.toList)
            (Brackets.behind {} (tokens.take i)).isOpen (stop i) (start i) (stop (i + 1)) := by
  have hstart : (Scanner.ofText file text).Stands file (foldLineEnds text.toList) 0 := ⟨rfl, rfl, rfl, Nat.zero_le _⟩
  exact run_covers _ hstart (Nat.lt_succ_self _) h

/-- A call over two lines with a comment behind it. -/
theorem all_covers_call : ∃ tokens : List Token,
    (Scanner.ofText "t.cu" "f(1,\r\n 0x1F) # c\n").all.1 = tokens.map .ok ∧
    tokens.map Token.kind =
      [.identifier "f", .symbol .leftParen, .int 1, .symbol .comma, .int 31, .symbol .rightParen, .newline,
        .endOfFile] ∧
    ∃ start stop : Nat → Nat, stop 0 = 0 ∧ stop tokens.length = 16 ∧ ∀ (i : Nat) (t : Token), tokens[i]? = some t →
        t.Occupies "t.cu" "f(1,\n 0x1F) # c\n".toList
          (Brackets.behind {} (tokens.take i)).isOpen (stop i) (start i) (stop (i + 1)) := by
  have htokens : (Scanner.ofText "t.cu" "f(1,\r\n 0x1F) # c\n").all.1 =
      ([⟨.identifier "f", ⟨⟨"t.cu", ⟨1, 1⟩⟩, ⟨"t.cu", ⟨1, 2⟩⟩⟩⟩,
        ⟨.symbol .leftParen, ⟨⟨"t.cu", ⟨1, 2⟩⟩, ⟨"t.cu", ⟨1, 3⟩⟩⟩⟩,
        ⟨.int 1, ⟨⟨"t.cu", ⟨1, 3⟩⟩, ⟨"t.cu", ⟨1, 4⟩⟩⟩⟩,
        ⟨.symbol .comma, ⟨⟨"t.cu", ⟨1, 4⟩⟩, ⟨"t.cu", ⟨1, 5⟩⟩⟩⟩,
        ⟨.int 31, ⟨⟨"t.cu", ⟨2, 2⟩⟩, ⟨"t.cu", ⟨2, 6⟩⟩⟩⟩,
        ⟨.symbol .rightParen, ⟨⟨"t.cu", ⟨2, 6⟩⟩, ⟨"t.cu", ⟨2, 7⟩⟩⟩⟩,
        ⟨.newline, ⟨⟨"t.cu", ⟨2, 11⟩⟩, ⟨"t.cu", ⟨3, 1⟩⟩⟩⟩,
        ⟨.endOfFile, ⟨⟨"t.cu", ⟨3, 1⟩⟩, ⟨"t.cu", ⟨3, 1⟩⟩⟩⟩] : List Token).map .ok := by
    rfl
  have hfold : foldLineEnds "f(1,\r\n 0x1F) # c\n".toList = "f(1,\n 0x1F) # c\n".toList := by decide
  have hcovers := (all_covers "t.cu" "f(1,\r\n 0x1F) # c\n" _ htokens).2
  rw [hfold] at hcovers
  exact ⟨_, htokens, rfl, hcovers⟩

end Scanner

end Offside
