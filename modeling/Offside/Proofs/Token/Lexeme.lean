import Offside.Token.Lexeme
import Mathlib.Data.List.TakeWhile

/-! What a lexeme can be.

A recogniser that finds its lexeme gives a token that some text can hold (`TokenKind.Genuine`): words of
at most 63 bits, characters of ASCII, names that are no keywords. None of them makes up layout, and
where a text is left each of them uses up at least one character, also when it reports a fault. -/
namespace Offside

open Text Number

/-- The words that stand for themselves: letters, numbers and underscores, and no keyword. -/
structure IsName (name : String) : Prop where
  start : ∃ c rest, name.toList = c :: rest ∧ isWordStart c = true
  parts : ∀ c ∈ name.toList, isWordPart c = true
  free : Keyword.ofSpelling name = none

theorem isName_iff (name : String) : name.toList.head?.any isWordStart = true ∧ name.toList.all isWordPart = true ∧
      Keyword.ofSpelling name = none ↔ IsName name := by
  constructor
  · rintro ⟨hstart, hparts, hfree⟩
    obtain ⟨c, hc, hword⟩ := (Option.any_eq_true _ _).mp hstart
    obtain ⟨rest, hrest⟩ := List.head?_eq_some_iff.mp hc
    exact ⟨⟨c, rest, hrest, hword⟩, List.all_eq_true.mp hparts, hfree⟩
  · rintro ⟨⟨c, rest, hrest, hword⟩, hparts, hfree⟩
    refine ⟨?_, List.all_eq_true.mpr hparts, hfree⟩
    rw [hrest]
    exact hword

instance (name : String) : Decidable (IsName name) := decidable_of_iff _ (isName_iff name)

namespace Number.Double

/-- The doubles that numerals stand for: without a sign, and infinity instead of what is too great. -/
def Readable (x : Double) : Prop := x.bits.toNat ≤ infinity.bits.toNat

end Number.Double

namespace TokenKind

/-- Tokens about lines and blocks, and the end of the file. -/
def isLayout : TokenKind → Bool
  | whitespace _ | newline | indent | dedent | endOfFile => true
  | _ => false

/-- Whether a token carries a value that some text has. -/
def Genuine : TokenKind → Prop
  | int n => 0 ≤ n ∧ n ≤ wordMax
  | float x => x.Readable
  | char c => isAscii c = true
  | identifier name => IsName name
  | _ => True

end TokenKind

namespace Lexeme

/-- What holds of every lexeme behind the first character of a text. -/
structure Sound (l : Lexeme) : Prop where
  genuine : ∀ kind, l.outcome = .ok kind → kind.Genuine
  substance : ∀ kind, l.outcome = .ok kind → kind.isLayout = false
  progress : 0 < l.length

theorem sound_ok {kind : TokenKind} {length : Nat} (hg : kind.Genuine) (hs : kind.isLayout = false)
    (hl : 0 < length) : (ok kind length).Sound := by
  refine ⟨fun k h => ?_, fun k h => ?_, hl⟩ <;> cases h
  · exact hg
  · exact hs

theorem sound_fail {fault : LexicalFault} {offset length : Nat} (hl : 0 < length) :
    (fail fault offset length).Sound :=
  ⟨fun _ h => (nomatch h), fun _ h => (nomatch h), hl⟩

/-! ### Words and numbers -/

theorem word_sound {c : Char} (rest : List Char) (h : isWordStart c = true) : (word (c :: rest)).Sound := by
  have hpart := isWordPart_of_isWordStart h
  have hlen : 0 < ((c :: rest).takeWhile isWordPart).length := by
    rw [List.takeWhile_cons_of_pos hpart]
    exact Nat.succ_pos _
  unfold word
  simp only
  split
  · exact sound_ok trivial rfl hlen
  · rename_i hfree
    refine sound_ok ⟨⟨c, rest.takeWhile isWordPart, ?_, h⟩, ?_, hfree⟩ rfl hlen
    · rw [String.toList_ofList, List.takeWhile_cons_of_pos hpart]
    · intro d hd
      rw [String.toList_ofList] at hd
      exact List.mem_takeWhile_imp hd

theorem readWord_genuine {base : Nat} {digits : List Char} {n : Int}
    (h : readWord base digits = some n) : (TokenKind.int n).Genuine := by
  unfold readWord at h
  simp only [Option.ite_none_left_eq_some, Option.some.injEq, Bool.or_eq_true, not_or] at h
  obtain ⟨⟨_, hfits⟩, rfl⟩ := h
  simp only [Bool.not_eq_true', Bool.not_eq_false, fitsWord, Bool.and_eq_true, decide_eq_true_eq] at hfits
  exact ⟨Int.natCast_nonneg _, hfits.2⟩

theorem readable_ofBits (bits : Nat) : (if bits ≥ Double.infinity.bits.toNat then Double.infinity
      else ⟨UInt64.ofNat bits⟩ : Double).Readable := by
  unfold Double.Readable
  split
  · exact Nat.le_refl _
  · rename_i h
    have hinf : Double.infinity.bits.toNat < UInt64.size := by decide
    rw [UInt64.toNat_ofNat_of_lt' (by omega)]
    omega

theorem ofRatio_readable (num den : Nat) : (Double.ofRatio num den).Readable := by
  unfold Double.ofRatio
  split
  · exact Nat.zero_le _
  · exact readable_ofBits _

theorem ofDecimal_readable (digits : Nat) (exponent : Int) : (Double.ofDecimal digits exponent).Readable := by
  have hzero : (⟨0⟩ : Double).Readable := Nat.zero_le _
  unfold Double.ofDecimal
  simp only
  split
  · exact hzero
  · split
    · exact Nat.le_refl _
    · split
      · exact hzero
      · split <;> exact ofRatio_readable _ _

theorem decimalNumber_sound {c : Char} (rest : List Char) (h : isDigit c = true) :
    (decimalNumber (c :: rest)).Sound := by
  have hlen : 0 < (Numeral.take (c :: rest)).text.length := by
    simp [Numeral.text, Numeral.take, List.takeWhile_cons_of_pos h]
  unfold decimalNumber
  simp only
  split
  · split
    · exact sound_fail hlen
    · exact sound_ok (ofDecimal_readable _ _) rfl hlen
  · split
    · rename_i hn
      exact sound_ok (readWord_genuine hn) rfl hlen
    · exact sound_fail hlen

theorem hexNumber_sound (text : List Char) : (hexNumber text).Sound := by
  unfold hexNumber
  simp only
  split
  · rename_i hn
    exact sound_ok (readWord_genuine hn) rfl (Nat.succ_pos _)
  · exact sound_fail (Nat.succ_pos _)

theorem number_sound {c : Char} (rest : List Char) (h : isDigit c = true) : (number (c :: rest)).Sound := by
  unfold number
  split
  · split
    · exact hexNumber_sound _
    · exact decimalNumber_sound _ (by decide)
  · exact decimalNumber_sound rest h

/-! ### Characters, strings and symbols -/

theorem closeCharacter_sound (c : Char) (used : Nat) (rest : List Char) (h : 0 < used) :
    (closeCharacter c used rest).Sound := by
  unfold closeCharacter
  split
  · exact sound_fail h
  · rename_i hc
    split
    · exact sound_ok (by simpa [TokenKind.Genuine] using hc) rfl (Nat.succ_pos _)
    · exact sound_fail (Nat.succ_pos _)
    · exact sound_fail h

theorem character_sound (c : Char) (rest : List Char) : (character (c :: rest)).Sound := by
  unfold character
  split
  · contradiction
  · exact sound_fail Nat.one_pos
  · exact sound_fail Nat.two_pos
  · exact sound_fail Nat.two_pos
  · exact sound_fail Nat.two_pos
  · split
    · exact closeCharacter_sound _ _ _ (Nat.succ_pos _)
    · exact sound_fail (Nat.succ_pos _)
  · exact closeCharacter_sound _ _ _ Nat.two_pos

theorem stringBody_sound (triple : Bool) (used : Nat) (soFar text : List Char) (h : 0 < used) :
    (stringBody triple used soFar text).Sound := by
  fun_induction stringBody triple used soFar text with
  | case1 => exact sound_fail h
  | case2 => exact sound_fail (Nat.succ_pos _)
  | case3 _ _ _ _ _ _ ih => exact ih (Nat.succ_pos _)
  | case4 => exact sound_fail (Nat.succ_pos _)
  | case5 => exact sound_fail h
  | case6 => exact sound_ok trivial rfl (Nat.succ_pos _)
  | case7 => exact sound_ok trivial rfl (Nat.succ_pos _)
  | case8 _ _ _ _ _ _ _ _ _ ih => exact ih (Nat.succ_pos _)

theorem string_sound (c : Char) (rest : List Char) : (string (c :: rest)).Sound := by
  unfold string
  split
  · contradiction
  · exact stringBody_sound _ _ _ _ (Nat.succ_pos _)
  · exact stringBody_sound _ _ _ _ Nat.one_pos

theorem operator_sound (c : Char) (rest : List Char) : (operator (c :: rest)).Sound := by
  unfold operator
  simp only
  split
  · rename_i s _
    exact sound_ok trivial rfl (by cases s <;> decide)
  · exact sound_fail Nat.one_pos

/-- The lexeme at the front of a text that is not at its end. -/
theorem ofText_sound (c : Char) (rest : List Char) : (ofText (c :: rest)).Sound := by
  unfold ofText
  simp only
  split
  · rename_i h
    exact word_sound rest h
  · split
    · rename_i h
      exact number_sound rest h
    · split
      · exact character_sound c rest
      · split
        · exact string_sound c rest
        · exact operator_sound c rest

end Lexeme

end Offside
