import Offside.Proofs.Token.Lexeme
import Offside.Token.Layout
import Mathlib.Data.List.Infix

/-! The discipline that layout imposes on tokens.

`Tidy` says what the machines of `Token/Layout` keep up while tokens come out of them: no blanks are
left, blocks close only after they opened, a block opens only behind a colon and a newline, and there are
no empty lines. `push_cases` says all that one step without fault can put out; `Laid` ties what has come
out so far to the state of the machines, and `Laid.push` is its step lemma. The widths of the open
blocks grow inwards from zero whatever is pushed, faulty steps included (`nested_run`). -/
namespace Offside

open List

variable {w : Nat}

/-! ### Widths of open blocks -/

/-- Open blocks, innermost first: each is wider than the one around it, and the outermost is the file
itself. -/
structure Nested (levels : List Nat) : Prop where
  wider : levels.Pairwise (· > ·)
  outermost : levels.getLast? = some 0

namespace Nested

variable {levels : List Nat}

variable (h : Nested levels)
include h

theorem ne_nil : levels ≠ [] := by
  rintro rfl
  cases h.outermost

theorem length_pos : 0 < levels.length := length_pos_iff.mpr h.ne_nil

theorem cons (hw : levels.headD 0 < w) : Nested (w :: levels) := by
  refine ⟨pairwise_cons.mpr ⟨fun a ha => ?_, h.wider⟩, ?_⟩
  · cases levels with
    | nil => cases ha
    | cons b rest =>
      rcases mem_cons.mp ha with rfl | ha
      · exact hw
      · exact Nat.lt_trans ((pairwise_cons.mp h.wider).1 a ha) hw
  · rw [getLast?_cons_of_ne_nil h.ne_nil]
    exact h.outermost

/-- Closing blocks leaves the outer ones. -/
theorem suffix {outer : List Nat} (hs : outer <:+ levels) (hne : outer ≠ []) : Nested outer := by
  refine ⟨h.wider.sublist hs.sublist, ?_⟩
  obtain ⟨inner, rfl⟩ := hs
  rw [← h.outermost, getLast?_append_of_ne_nil _ hne]

end Nested

theorem dropWhile_ne_nil_of_contains {levels : List Nat} (h : levels.contains w) :
    levels.dropWhile (· != w) ≠ [] := by
  intro he
  have hall := dropWhile_eq_nil_iff.mp he
  simpa using hall w (by simpa using h)

namespace Indentation

variable {s : Indentation}

/-- What a step does with a token of substance or the end of the file. -/
inductive Placed (s : Indentation) (m : MarkedToken) : Step → Prop where
  /-- The token opens a block. -/
  | opens : m.mustIndent = true → m.token.kind ≠ .endOfFile → s.level < s.width →
      Placed s m ⟨[Token.atPoint .indent m.token.start, m.token], none,
        { s with afterBlanks := false, levels := s.width :: s.levels }⟩
  /-- The token stands in one of the open blocks, and all blocks inside that one are closed. -/
  | closes (n : Nat) (levels : List Nat) : m.mustIndent = false → levels <:+ s.levels → levels ≠ [] →
      n + levels.length = s.levels.length → (m.token.kind = .endOfFile → levels.length = 1) →
      Placed s m ⟨List.replicate n (Token.atPoint .dedent m.token.start) ++ [m.token], none,
        { s with afterBlanks := false, levels := levels }⟩
  | fails (failure : Failure) : Placed s m ⟨[], some failure, { s with afterBlanks := false }⟩

theorem placed_closeTo {m : MarkedToken} {levels : List Nat}
    (hm : m.mustIndent = false) (hs : levels <:+ s.levels) (hne : levels ≠ [])
    (hend : m.token.kind = .endOfFile → levels.length = 1) :
    Placed s m ⟨replicate (s.levels.length - levels.length)
        (Token.atPoint .dedent m.token.start) ++ [m.token], none,
      { s with afterBlanks := false, levels := levels }⟩ := by
  refine .closes _ levels hm hs hne ?_ hend
  have := hs.length_le
  omega

/-- The token stands in the innermost block. -/
theorem placed_here {m : MarkedToken} (hl : Nested s.levels)
    (hm : m.mustIndent = false) (hk : m.token.kind ≠ .endOfFile) :
    Placed s m ⟨[m.token], none, { s with afterBlanks := false }⟩ :=
  .closes 0 s.levels hm (suffix_refl _) hl.ne_nil (Nat.zero_add _) fun h => absurd h hk

/-- All that a step can do. -/
theorem push_cases (s : Indentation) (m : MarkedToken) (hl : Nested s.levels) :
    (∃ w, m.token.kind = .whitespace w ∧
      s.push m = ⟨[], none, { s with width := w, afterBlanks := true }⟩) ∨
    (m.token.kind = .newline ∧ s.push m =
      ⟨if s.afterBlanks || m.atLineStart then [] else [m.token], none, { s with width := 0 }⟩) ∨
    ((∀ w, m.token.kind ≠ .whitespace w) ∧ m.token.kind ≠ .newline ∧ Placed s m (s.push m)) := by
  unfold push
  simp only
  split
  · rename_i w hw
    exact .inl ⟨w, hw, rfl⟩
  · rename_i hn
    exact .inr (.inl ⟨hn, rfl⟩)
  · rename_i hw hn
    refine .inr (.inr ⟨fun w h => hw w h, fun h => hn h, ?_⟩)
    split
    · rename_i hmust
      split
      · exact .fails _
      · rename_i hfits
        simp only [Bool.or_eq_true, decide_eq_true_eq, not_or, Nat.not_le] at hfits
        exact .opens hmust hfits.2 hfits.1
    · rename_i hmust
      have hmust : m.mustIndent = false := by simpa using hmust
      split
      · -- At the end of the file only the outermost block is left.
        have hpos := hl.length_pos
        have hlen : (s.levels.drop (s.levels.length - 1)).length = 1 := by
          rw [length_drop]
          omega
        exact placed_closeTo hmust (drop_suffix _ _)
          (ne_nil_of_length_pos (by omega)) fun _ => hlen
      · rename_i hend
        split
        · split
          · exact .fails _
          · split
            · split
              · rename_i hc
                exact placed_closeTo hmust (dropWhile_suffix _)
                  (dropWhile_ne_nil_of_contains hc) fun h => absurd h hend
              · exact .fails _
            · exact placed_here hl hmust hend
        · exact placed_here hl hmust hend

theorem nested_push (m : MarkedToken) (hl : Nested s.levels) : Nested (s.push m).state.levels := by
  obtain ⟨w, _, h⟩ | ⟨_, h⟩ | ⟨_, _, h⟩ := s.push_cases m hl
  · rw [h]
    exact hl
  · rw [h]
    exact hl
  · generalize s.push m = step at h ⊢
    cases h with
    | opens _ _ hw => exact hl.cons hw
    | closes _ levels _ hs hne => exact hl.suffix hs hne
    | fails => exact hl

end Indentation

namespace Layout

/-- Both machines after a row of raw tokens, going on behind faults. -/
def run (s : Layout) (raw : List Token) : Layout := raw.foldl (fun s t => (s.push t).2.2) s

theorem nested_run (raw : List Token) (s : Layout) (hl : Nested s.indentation.levels) :
    Nested (s.run raw).indentation.levels := by
  induction raw generalizing s with
  | nil => exact hl
  | cons t rest ih => exact ih _ (Indentation.nested_push _ hl)

end Layout

/-! ### Rows of tokens -/

theorem eq_cons_of_snoc_eq {α : Type} {out front back : List α} {k x : α} (h : out ++ [k] = front ++ x :: back) :
    (front = out ∧ x = k) ∨ ∃ b, out = front ++ x :: b := by
  rcases eq_nil_or_concat back with rfl | ⟨b, y, rfl⟩
  · obtain ⟨rfl, hk⟩ := append_inj' h rfl
    exact .inl ⟨rfl, (singleton_inj.mp hk).symm⟩
  · rw [concat_eq_append, ← cons_append, ← append_assoc] at h
    exact .inr ⟨b, (append_inj' h rfl).1⟩

/-- What is true of the tokens put out so far. -/
structure Tidy (ks : List TokenKind) : Prop where
  noBlanks : ∀ w, .whitespace w ∉ ks
  /-- No block closes that has not opened. -/
  closing : ∀ front, front <+: ks → front.count .dedent ≤ front.count .indent
  /-- A block opens behind a colon and a newline. -/
  opening : ∀ front back, ks = front ++ .indent :: back →
    ∃ f, front = f ++ [.symbol .colon, .newline]
  /-- A newline ends a line that holds something. -/
  lines : ∀ front back, ks = front ++ .newline :: back →
    ∃ f k, front = f ++ [k] ∧ k ≠ .newline ∧ k ≠ .indent ∧ k ≠ .dedent

namespace Tidy

variable {ks : List TokenKind}

theorem nil : Tidy [] where
  noBlanks := by simp
  closing := by
    intro front h
    rw [prefix_nil.mp h]
    exact Nat.le_refl _
  opening := by simp
  lines := by simp

/-- One more token. -/
theorem snoc (h : Tidy ks) (k : TokenKind) (hblank : ∀ w, k ≠ .whitespace w)
    (hclose : k = .dedent → ks.count .dedent < ks.count .indent)
    (hopen : k = .indent → ∃ f, ks = f ++ [.symbol .colon, .newline])
    (hline : k = .newline → ∃ f j, ks = f ++ [j] ∧ j ≠ .newline ∧ j ≠ .indent ∧ j ≠ .dedent) :
    Tidy (ks ++ [k]) where
  noBlanks := by
    intro w hw
    rcases mem_append.mp hw with hw | hw
    · exact h.noBlanks w hw
    · exact hblank w (mem_singleton.mp hw).symm
  closing := by
    intro front hf
    rcases prefix_concat_iff.mp (by simpa using hf) with rfl | hf
    · have := h.closing ks (prefix_refl ks)
      by_cases hk : k = .dedent
      · have := hclose hk
        subst hk
        simp only [count_append, count_singleton]
        simp
        omega
      · simp [hk, count_singleton]
        omega
    · exact h.closing front hf
  opening := by
    intro front back he
    obtain ⟨rfl, hk⟩ | ⟨b, hb⟩ := eq_cons_of_snoc_eq he
    · exact hopen hk.symm
    · exact h.opening front b hb
  lines := by
    intro front back he
    obtain ⟨rfl, hk⟩ | ⟨b, hb⟩ := eq_cons_of_snoc_eq he
    · exact hline hk.symm
    · exact h.lines front b hb

/-- A token of substance or the end of the file may stand anywhere. -/
theorem solid (h : Tidy ks) {k : TokenKind} (hk : k.isLayout = false ∨ k = .endOfFile) : Tidy (ks ++ [k]) := by
  refine h.snoc k ?_ ?_ ?_ ?_
  · rintro w rfl
    simp [TokenKind.isLayout] at hk
  all_goals
    rintro rfl
    simp [TokenKind.isLayout] at hk

/-- Closing blocks, no more than are open. -/
theorem dedents (h : Tidy ks) (n : Nat)
    (hn : ks.count .dedent + n ≤ ks.count .indent) : Tidy (ks ++ replicate n .dedent) := by
  induction n with
  | zero => simpa using h
  | succ n ih =>
    rw [replicate_succ', ← append_assoc]
    refine (ih (by omega)).snoc _ (by simp) (fun _ => ?_) (by simp) (by simp)
    simp only [count_append, count_replicate_self]
    rw [count_replicate]
    simp
    omega

end Tidy

/-! ### From state to state -/

namespace LineState

variable {s : LineState} {t : Token}

@[simp] theorem mark_token (s : LineState) (t : Token) : (s.mark t).1.token = t := by
  unfold mark
  split <;> rfl

@[simp] theorem mark_atLineStart (s : LineState) (t : Token) : (s.mark t).1.atLineStart = s.atLineStart := by
  unfold mark
  split <;> rfl

theorem due_of_mustIndent (h : (s.mark t).1.mustIndent) : s.announced = .due ∧ t.kind ≠ .symbol .colon := by
  unfold mark at h
  split at h
  all_goals simp_all

theorem mark_whitespace (h : t.kind = .whitespace w) : (s.mark t).2 = s := by
  simp [mark, h]

theorem mark_newline (h : t.kind = .newline) :
    (s.mark t).2 = ⟨true, if s.announced = .possible then .due else s.announced⟩ := by
  simp [mark, h]

/-- Behind anything else no line starts, and only a colon announces a block. -/
theorem mark_solid (hw : ∀ w, t.kind ≠ .whitespace w) (hn : t.kind ≠ .newline) :
    (s.mark t).2 = ⟨false, if t.kind = .symbol .colon then .possible else .none⟩ := by
  unfold mark
  split
  · rename_i h
    simp [h]
  · rename_i h
    exact absurd h hn
  · rename_i w h
    exact absurd h (hw w)
  · rename_i h _ _
    rw [if_neg h]

end LineState

/-- A line that holds something is not at its start. -/
def Busy (out : List TokenKind) : Prop := ∃ f k, out = f ++ [k] ∧ k ≠ .newline ∧ k ≠ .indent ∧ k ≠ .dedent

/-- What has come out so far, and the machines behind it. -/
structure Laid (out : List TokenKind) (s : Layout) : Prop where
  tidy : Tidy out
  nested : Nested s.indentation.levels
  depth : out.count .indent + 1 = out.count .dedent + s.indentation.levels.length
  unended : .endOfFile ∉ out
  /-- Blanks count at the start of a line only, so inside a line none are pending. -/
  inside : s.line.atLineStart = false → s.indentation.afterBlanks = false ∧ Busy out
  possible : s.line.announced = .possible → s.line.atLineStart = false ∧ ∃ f, out = f ++ [.symbol .colon]
  due : s.line.announced = .due → s.line.atLineStart = true ∧ ∃ f, out = f ++ [.symbol .colon, .newline]

/-- The tokens of a text without fault. -/
structure Disciplined (ks : List TokenKind) : Prop extends Tidy ks where
  ended : ∃ front, ks = front ++ [.endOfFile] ∧ .endOfFile ∉ front
  balanced : ks.count .indent = ks.count .dedent

namespace Laid

variable {out : List TokenKind} {s : Layout} {t : Token} {levels : List Nat}

theorem start : Laid [] {} where
  tidy := .nil
  nested := ⟨pairwise_singleton _ _, rfl⟩
  depth := rfl
  unended := by simp
  inside := by simp
  possible := by simp
  due := by simp

variable (h : Laid out s)
include h

theorem whitespace (ht : t.kind = .whitespace w)
    (hline : s.line.atLineStart) :
    Laid out ⟨(s.line.mark t).2, { s.indentation with width := w, afterBlanks := true }⟩ := by
  rw [LineState.mark_whitespace ht]
  refine ⟨h.tidy, h.nested, h.depth, h.unended, fun hf => ?_, h.possible, h.due⟩
  rw [hline] at hf
  cases hf

/-- A newline comes out at the end of a line that holds something. -/
theorem newline (ht : t.kind = .newline) :
    Laid (out ++ (if s.indentation.afterBlanks || s.line.atLineStart then [] else [t]).map Token.kind)
      ⟨(s.line.mark t).2, { s.indentation with width := 0 }⟩ := by
  rw [LineState.mark_newline ht]
  by_cases hq : (s.indentation.afterBlanks || s.line.atLineStart)
  · simp only [hq, if_true, map_nil, append_nil]
    -- Only the start of a line swallows a newline, so no colon stands right before it.
    have hline : s.line.atLineStart := by
      by_contra hf
      have hf : s.line.atLineStart = false := by simpa using hf
      rw [(h.inside hf).1, hf] at hq
      cases hq
    have hnp : s.line.announced ≠ .possible := by
      intro hp
      rw [(h.possible hp).1] at hline
      cases hline
    refine ⟨h.tidy, h.nested, h.depth, h.unended, by simp, ?_, ?_⟩
    · simp [hnp]
    · simp only [hnp, if_false]
      exact fun hd => ⟨trivial, (h.due hd).2⟩
  · rw [if_neg hq, map_singleton, ht]
    simp only [Bool.or_eq_true, not_or, Bool.not_eq_true] at hq
    have hbusy := (h.inside hq.2).2
    have hnd : s.line.announced ≠ .due := by
      intro hd
      rw [(h.due hd).1] at hq
      cases hq.2
    refine ⟨h.tidy.snoc _ (by simp) (by simp) (by simp) (fun _ => hbusy), h.nested, ?_, ?_, by simp,
      ?_, ?_⟩
    · simpa using h.depth
    · simpa using h.unended
    · split <;> simp_all
    · intro hd
      refine ⟨rfl, ?_⟩
      split at hd
      · rename_i hp
        obtain ⟨_, f, hf⟩ := h.possible hp
        exact ⟨f, by simp [hf]⟩
      · exact absurd hd hnd

/-- The token that opens a block. -/
theorem opens (hdue : s.line.announced = .due) (hsolid : t.kind.isLayout = false)
    (hl : Nested levels)
    (hlen : levels.length = s.indentation.levels.length + 1) :
    Laid (out ++ [.indent, t.kind]) ⟨⟨false, .none⟩,
      { s.indentation with afterBlanks := false, levels := levels }⟩ := by
  obtain ⟨_, hf⟩ := h.due hdue
  have hne : t.kind ≠ .newline ∧ t.kind ≠ .indent ∧ t.kind ≠ .dedent ∧ t.kind ≠ .endOfFile := by
    refine ⟨?_, ?_, ?_, ?_⟩ <;> intro he <;> rw [he] at hsolid <;> cases hsolid
  have htidy : Tidy (out ++ [.indent]) :=
    h.tidy.snoc _ (by simp) (by simp) (fun _ => hf) (by simp)
  have happ : out ++ [.indent, t.kind] = out ++ [.indent] ++ [t.kind] := by simp
  have hdepth := h.depth
  refine ⟨?_, hl, ?_, ?_, fun _ => ⟨rfl, ?_⟩, by simp, by simp⟩
  · rw [happ]
    exact htidy.solid (.inl hsolid)
  · rw [happ]
    simp only [count_append, count_singleton, hlen]
    simp [hne]
    omega
  · simp [h.unended, Ne.symm hne.2.2.2]
  · rw [happ]
    exact ⟨_, _, rfl, hne.1, hne.2.1, hne.2.2.1⟩

/-- Closing blocks up to the one a token stands in. -/
theorem closes (n : Nat) (hl : levels ≠ []) (hn : n + levels.length = s.indentation.levels.length) :
    Tidy (out ++ replicate n .dedent) ∧ (out ++ replicate n TokenKind.dedent).count .indent + 1 =
        (out ++ replicate n TokenKind.dedent).count .dedent + levels.length := by
  have hdepth := h.depth
  have hpos := length_pos_iff.mpr hl
  refine ⟨h.tidy.dedents n (by omega), ?_⟩
  simp [count_replicate]
  omega

theorem solid (hsolid : t.kind.isLayout = false) (n : Nat)
    (hl : Nested levels) (hn : n + levels.length = s.indentation.levels.length) :
    Laid (out ++ (replicate n .dedent ++ [t.kind]))
      ⟨⟨false, if t.kind = .symbol .colon then .possible else .none⟩,
        { s.indentation with afterBlanks := false, levels := levels }⟩ := by
  obtain ⟨htidy, hdepth⟩ := h.closes n hl.ne_nil hn
  have hne : t.kind ≠ .newline ∧ t.kind ≠ .indent ∧ t.kind ≠ .dedent ∧ t.kind ≠ .endOfFile := by
    refine ⟨?_, ?_, ?_, ?_⟩ <;> intro he <;> rw [he] at hsolid <;> cases hsolid
  rw [← append_assoc]
  refine ⟨htidy.solid (.inl hsolid), hl, ?_, ?_, fun _ => ⟨rfl, _, _, rfl, hne.1, hne.2.1, hne.2.2.1⟩,
    ?_, ?_⟩
  · simp only [count_append, count_singleton] at hdepth ⊢
    simpa [hne] using hdepth
  · simp [h.unended, Ne.symm hne.2.2.2]
  · intro hp
    refine ⟨rfl, out ++ replicate n .dedent, ?_⟩
    split at hp
    · rename_i hc
      rw [hc]
    · cases hp
  · split <;> simp

/-- The end of the file closes all blocks. -/
theorem endOfFile (n : Nat) (hl : levels.length = 1) (hn : n + levels.length = s.indentation.levels.length) :
    Disciplined (out ++ (replicate n .dedent ++ [.endOfFile])) := by
  obtain ⟨htidy, hdepth⟩ := h.closes n (ne_nil_of_length_pos (by omega)) hn
  rw [← append_assoc]
  refine ⟨htidy.solid (.inr rfl), ⟨_, rfl, ?_⟩, ?_⟩
  · simp [h.unended]
  · rw [hl] at hdepth
    simp only [count_append, count_singleton] at hdepth ⊢
    simpa using hdepth

end Laid

end Offside
