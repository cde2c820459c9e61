import Offside.Grammar.Cursor
import Offside.Proofs.Outcome
import Offside.Proofs.Token.Stream

/-! What the steps of reading stand before.

The tokens of a text carry values that some text has, and a block that opens holds something. A cursor
over such tokens is sound; the single steps of reading say which token they find. -/
namespace Offside

/-! ### Tokens of a text -/

/-- Tokens that can stand before a cursor. -/
def SoundTokens : List Token → Prop
  | [] => True
  | t :: rest => t.kind.Genuine ∧
    (t.kind = .indent → ∃ first more, rest = first :: more ∧ first.kind.isLayout = false) ∧
    SoundTokens rest

theorem soundTokens_append {front back : List Token} (hf : SoundTokens front)
    (hb : SoundTokens back) : SoundTokens (front ++ back) := by
  induction front with
  | nil => exact hb
  | cons t rest ih =>
    obtain ⟨hg, hopen, hrest⟩ := hf
    refine ⟨hg, fun ht => ?_, ih hrest⟩
    obtain ⟨first, more, rfl, hfirst⟩ := hopen ht
    exact ⟨first, more ++ back, rfl, hfirst⟩

theorem soundTokens_singleton {t : Token} (hg : t.kind.Genuine) (hi : t.kind ≠ .indent) : SoundTokens [t] :=
  ⟨hg, fun h => absurd h hi, trivial⟩

theorem soundTokens_dedents (n : Nat) (l : Location) : SoundTokens (List.replicate n (Token.atPoint .dedent l)) := by
  induction n with
  | zero => trivial
  | succ n ih => exact ⟨trivial, nofun, ih⟩

/-- The tokens that one raw token brings out. -/
theorem Layout.soundTokens_push {s : Layout} {t : Token} (hl : Nested s.indentation.levels)
    (hg : t.kind.Genuine) (hraw : t.kind ≠ .indent ∧ t.kind ≠ .dedent) :
    SoundTokens (s.push t).2.1.out := by
  rw [Layout.push_eq]
  obtain ⟨w, _, hp⟩ | ⟨_, hp⟩ | ⟨hw, hn, hp⟩ := s.indentation.push_cases (s.line.mark t).1 hl
  · simp only [hp]
    trivial
  · simp only [hp, LineState.mark_token]
    split
    · trivial
    · exact soundTokens_singleton hg hraw.1
  · simp only
    generalize s.indentation.push (s.line.mark t).1 = step at hp
    rw [LineState.mark_token] at hw hn
    cases hp with
    | opens _ hend =>
      rw [LineState.mark_token] at hend ⊢
      have hsolid : t.kind.isLayout = false := by
        cases hk : t.kind <;> simp_all [TokenKind.isLayout]
      exact ⟨trivial, fun _ => ⟨t, [], rfl, hsolid⟩, soundTokens_singleton hg hraw.1⟩
    | closes =>
      rw [LineState.mark_token]
      exact soundTokens_append (soundTokens_dedents _ _) (soundTokens_singleton hg hraw.1)
    | fails => trivial

theorem TokenStream.soundTokens_collect (fuel : Nat) (scanner : Scanner) (layout : Layout)
    (hl : Nested layout.indentation.levels) : SoundTokens (collect fuel scanner layout).1 := by
  induction fuel generalizing scanner layout with
  | zero => trivial
  | succ fuel ih =>
    rw [collect_succ]
    cases hnext : scanner.next with
    | mk outcome after =>
    cases outcome with
    | error failure => trivial
    | ok t =>
      simp only
      cases (layout.push t).2.1.failure with
      | some failure => trivial
      | none =>
        have hraw := Scanner.next_genuine hnext
        have hout := Layout.soundTokens_push hl hraw.1 hraw.2
        simp only
        split
        · exact hout
        · exact soundTokens_append hout (ih after _ (Indentation.nested_push _ hl))

/-! ### Cursors -/

namespace Cursor

def Sound (c : Cursor) : Prop := SoundTokens c.tokens

/-- With at least so many tokens, if there are any: ends of file are made up for those that are missing. -/
def padded (c : Cursor) (count : Nat) : Cursor :=
  if c.tokens.isEmpty then c
  else { c with tokens := c.tokens ++ List.replicate (count - c.tokens.length) c.ending }

theorem ofText_sound (file text : String) : (Cursor.ofText file text).Sound :=
  TokenStream.soundTokens_collect ((Scanner.ofText file text).rest.length + 1)
    (Scanner.ofText file text) {} ⟨List.pairwise_singleton _ _, rfl⟩

end Cursor

namespace Parse

/-! ### Single steps -/

theorem fill_run (count : Nat) (c : Cursor) : (fill count).run c =
    if c.tokens.length < count then
      match c.failure with
      | some failure => .error failure { c with failure := none }
      | none => .ok (c.tokens ++ List.replicate (count - c.tokens.length) c.ending) (c.padded count)
    else .ok (c.tokens.take count) c := by
  unfold fill
  rw [EStateM.run_bind]
  show (if (c.tokens.take count).length < count then _ else _ : Parse (List Token)).run c = _
  by_cases hshort : c.tokens.length < count
  · have hall : c.tokens.take count = c.tokens := List.take_of_length_le (Nat.le_of_lt hshort)
    rw [hall, if_pos hshort, if_pos hshort]
    obtain ⟨file, tokens, failure, lastEnd, nextId⟩ := c
    cases failure <;> cases tokens <;> rfl
  · have hfull : ¬ (c.tokens.take count).length < count := by
      rw [List.length_take]
      omega
    rw [if_neg hshort, if_neg hfull]
    rfl

/-- What is asked for is there once the tokens are filled up to it. -/
theorem peekNth_run (offset : Nat) (c : Cursor) : (peekNth offset).run c =
    match c.tokens[offset]? with
    | some t => .ok t c
    | none =>
      match c.failure with
      | some failure => .error failure { c with failure := none }
      | none => .ok c.ending (c.padded (offset + 1)) := by
  unfold peekNth
  rw [EStateM.run_bind, fill_run]
  by_cases hshort : c.tokens.length < offset + 1
  · rw [if_pos hshort, List.getElem?_eq_none (by omega)]
    cases c.failure with
    | some failure => rfl
    | none =>
      have hthere : (c.tokens ++ List.replicate (offset + 1 - c.tokens.length) c.ending)[offset]? = some c.ending := by
        rw [List.getElem?_append_right (by omega), List.getElem?_replicate, if_pos (by omega)]
      dsimp only
      rw [hthere]
      rfl
  · rw [if_neg hshort]
    have hthere : offset < c.tokens.length := by omega
    dsimp only
    rw [List.getElem?_take_of_lt (Nat.lt_succ_self offset), List.getElem?_eq_getElem hthere]
    rfl

theorem peek_run (c : Cursor) : peek.run c =
    match c.tokens with
    | t :: _ => .ok t c
    | [] =>
      match c.failure with
      | some failure => .error failure { c with failure := none }
      | none => .ok c.ending c := by
  obtain ⟨file, tokens, failure, lastEnd, nextId⟩ := c
  cases tokens <;> cases failure <;> rfl

/-- Taking a token takes the one that is looked at. -/
theorem advance_eq : advance = (do
    let t ← peek
    modify fun c =>
      { c with
        tokens := c.tokens.tail
        lastEnd := if t.kind = .endOfFile then c.lastEnd else t.span.stop }
    return t) := by
  funext c
  obtain ⟨file, tokens, failure, lastEnd, nextId⟩ := c
  cases tokens <;> cases failure <;> rfl

theorem advance_run (c : Cursor) : advance.run c =
    match peek.run c with
    | .ok t c => .ok t { c with
        tokens := c.tokens.tail
        lastEnd := if t.kind = .endOfFile then c.lastEnd else t.span.stop }
    | .error failure c => .error failure c := by
  rw [advance_eq, EStateM.run_bind]
  cases peek.run c <;> rfl

/-- A token that is looked at, and how it comes to stand there. -/
theorem peek_ok {c c' : Cursor} {t : Token} (h : peek.run c = .ok t c') :
    c' = c ∧ (c.tokens.head? = some t ∨ c.tokens = [] ∧ t.kind = .endOfFile) := by
  rw [peek_run] at h
  split at h
  · rename_i ht
    cases h
    exact ⟨rfl, .inl (by rw [ht]; rfl)⟩
  · rename_i ht
    split at h <;> cases h
    exact ⟨rfl, .inr ⟨ht, rfl⟩⟩

theorem advance_ok {c c' : Cursor} {t : Token} (h : advance.run c = .ok t c') : c'.tokens = c.tokens.tail ∧
      (c.tokens.head? = some t ∨ c.tokens = [] ∧ t.kind = .endOfFile) := by
  rw [advance_run] at h
  split at h
  · rename_i hp
    cases h
    obtain ⟨rfl, ht⟩ := peek_ok hp
    exact ⟨rfl, ht⟩
  · cases h

end Parse

namespace Cursor.Sound

variable {c : Cursor} {t : Token}

theorem front (hc : c.Sound) (ht : c.tokens.head? = some t ∨ c.tokens = [] ∧ t.kind = .endOfFile) :
    t.kind.Genuine := by
  obtain ht | ⟨_, ht⟩ := ht
  · obtain ⟨rest, ht⟩ := List.head?_eq_some_iff.mp ht
    rw [Sound, ht] at hc
    exact hc.1
  · rw [ht]
    trivial

theorem tail (hc : c.Sound) : SoundTokens c.tokens.tail := by
  rw [Sound] at hc
  cases h : c.tokens with
  | nil => trivial
  | cons t rest =>
    rw [h] at hc
    exact hc.2.2

end Cursor.Sound

end Offside
