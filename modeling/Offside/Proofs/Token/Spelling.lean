import Offside.Proofs.Token.Lexeme
import Offside.Token.Scanner

/-! Texts that read as given tokens.

A lexeme spells a token before a rest when the recognisers find that token there and use up the lexeme
(`Spelled`). Words, numbers and strings ask of the rest that they cannot go on in it (`Boundary`), symbols
that no longer symbol is found (`Symbol.EndsBefore`). `Spells` strings lexemes together, with blanks between
them, and its append lemma is all that the texts of trees need. -/
namespace Offside

variable {c : Char} {rest : List Char} {s : Symbol} {kind : TokenKind}

open Text Number List

theorem digit_range (h : isDigit c) : 48 ≤ c.toNat ∧ c.toNat ≤ 57 := by
  simp only [isDigit, Bool.and_eq_true, decide_eq_true_eq] at h
  exact h

theorem isAscii_of_isDigit (h : isDigit c) : isAscii c := by
  have := digit_range h
  simp only [isAscii, decide_eq_true_eq]
  omega

theorem isWordPart_of_isDigit (h : isDigit c) : isWordPart c := by
  simp [isWordPart, isNumber_ascii (isAscii_of_isDigit h), h]

theorem isWordStart_of_isDigit (h : isDigit c) : isWordStart c = false := by
  obtain ⟨hlow, hhigh⟩ := digit_range h
  have hsmall : ¬ 'a' ≤ c := fun ha => absurd (show 97 ≤ c.toNat from ha) (by omega)
  have hbig : ¬ 'A' ≤ c := fun ha => absurd (show 65 ≤ c.toNat from ha) (by omega)
  have hline : c ≠ '_' := by
    rintro rfl
    exact absurd hhigh (by decide)
  simp [isWordStart, isLetter_ascii (isAscii_of_isDigit h), isAsciiLetter, hsmall, hbig, hline]

/-- A place where no word, number or string that ends there could go on. -/
def Boundary : List Char → Prop
  | [] => True
  | c :: rest => isWordPart c = false ∧ c ≠ '"' ∧ (c = '.' → ∀ d ∈ rest.head?, isDigit d = false)

namespace Boundary

variable {rest : List Char}

theorem not_wordPart (h : Boundary rest) : ∀ c ∈ rest.head?, isWordPart c = false := by
  cases rest with
  | nil => nofun
  | cons c rest =>
    rintro d hd
    cases hd
    exact h.1

theorem not_digit (h : Boundary rest) : ∀ c ∈ rest.head?, isDigit c = false := by
  intro c hc
  by_contra hd
  have hpart := isWordPart_of_isDigit (Bool.not_eq_false _ ▸ hd)
  rw [h.not_wordPart c hc] at hpart
  cases hpart

/-- Most characters that are no part of a word make a boundary. -/
theorem of_char (h : isWordPart c = false) (hq : c ≠ '"') (hd : c ≠ '.') : Boundary (c :: rest) :=
  ⟨h, hq, fun hdot => absurd hdot hd⟩

theorem blank : Boundary (' ' :: rest) := of_char (by decide) (by decide) (by decide)

end Boundary

/-- The part of a text in front of a boundary is the longest run of its characters. -/
theorem takeWhile_append_eq {p : Char → Bool} {front : List Char} (hfront : ∀ c ∈ front, p c)
    (hrest : ∀ c ∈ rest.head?, p c = false) : (front ++ rest).takeWhile p = front := by
  rw [takeWhile_append_of_pos hfront]
  cases rest with
  | nil => simp
  | cons c rest => rw [takeWhile_cons_of_neg (by simp [hrest c rfl]), append_nil]

theorem dropWhile_append_eq {p : Char → Bool} {front : List Char} (hfront : ∀ c ∈ front, p c)
    (hrest : ∀ c ∈ rest.head?, p c = false) : (front ++ rest).dropWhile p = rest := by
  rw [dropWhile_append_of_pos hfront]
  cases rest with
  | nil => rfl
  | cons c rest => rw [dropWhile_cons_of_neg (by simp [hrest c rfl])]

/-! ### Single lexemes -/

/-- The lexeme is found before the rest, is the given token, and breaks no line. -/
structure Spelled (lexeme : List Char) (kind : TokenKind) (rest : List Char) : Prop where
  found : Lexeme.ofText (lexeme ++ rest) = .ok kind lexeme.length
  start : ∃ c more, lexeme = c :: more ∧ isBlank c = false ∧ c ≠ '#' ∧ c ≠ '\\'
  clean : ∀ c ∈ lexeme, c ≠ '\n' ∧ c ≠ '\r'

namespace Spelled

variable {rest : List Char}

theorem clean_of_isWordPart (h : isWordPart c = true) : c ≠ '\n' ∧ c ≠ '\r' := by
  constructor <;> rintro rfl <;> exact absurd h (by decide)

theorem start_of_isWordPart (h : isWordPart c) : isBlank c = false ∧ c ≠ '#' ∧ c ≠ '\\' := by
  refine ⟨?_, ?_, ?_⟩
  · by_contra hb
    simp only [isBlank, Bool.not_eq_false, Bool.or_eq_true, beq_iff_eq] at hb
    rcases hb with rfl | rfl <;> exact absurd h (by decide)
  all_goals
    rintro rfl
    exact absurd h (by decide)

/-- What is spelled is no layout. -/
theorem substance {lexeme : List Char} (h : Spelled lexeme kind rest) : kind.isLayout = false := by
  obtain ⟨c, more, rfl, _⟩ := h.start
  refine (Lexeme.ofText_sound c (more ++ rest)).substance kind ?_
  rw [← cons_append, h.found]
  rfl

/-- A word is the keyword or the name that it looks like. -/
theorem word {text : List Char} (hstart : ∃ c more, text = c :: more ∧ isWordStart c)
    (hparts : ∀ c ∈ text, isWordPart c) (hrest : Boundary rest)
    (hkind : Lexeme.word text = .ok kind text.length) : Spelled text kind rest := by
  have hall : (text ++ rest).takeWhile isWordPart = text := takeWhile_append_eq hparts hrest.not_wordPart
  have halone : text.takeWhile isWordPart = text := takeWhile_eq_self_iff.mpr hparts
  obtain ⟨c, more, rfl, hc⟩ := hstart
  refine ⟨?_, ⟨c, more, rfl, start_of_isWordPart (isWordPart_of_isWordStart hc)⟩,
    fun d hd => clean_of_isWordPart (hparts d hd)⟩
  show (if isWordStart c = true then Lexeme.word (c :: more ++ rest) else _) = _
  rw [if_pos hc, ← hkind]
  unfold Lexeme.word
  rw [hall, halone]

theorem keyword (k : Keyword) (hrest : Boundary rest) : Spelled k.spelling.toList (.keyword k) rest := by
  refine word ?_ ?_ hrest ?_
  · cases k <;> exact ⟨_, _, rfl, by decide⟩
  · exact all_eq_true.mp (by cases k <;> rfl)
  · cases k <;> rfl

theorem name {n : String} (hn : IsName n) (hrest : Boundary rest) : Spelled n.toList (.identifier n) rest := by
  refine word hn.start hn.parts hrest ?_
  have halone : n.toList.takeWhile isWordPart = n.toList := takeWhile_eq_self_iff.mpr hn.parts
  unfold Lexeme.word
  simp only [halone, String.ofList_toList, hn.free]

end Spelled

/-! ### Numbers -/

namespace Lexeme.Numeral

/-- Numerals that can be written: no part that is there is without digits. -/
structure Written (n : Numeral) : Prop where
  whole : n.whole ≠ [] ∧ ∀ c ∈ n.whole, isDigit c = true
  fraction : ∀ digits, n.fraction = some digits → digits ≠ [] ∧ ∀ c ∈ digits, isDigit c = true
  power : ∀ sign digits, n.power = some (sign, digits) →
    (∀ s ∈ sign, s = '+' ∨ s = '-') ∧ digits ≠ [] ∧ ∀ c ∈ digits, isDigit c = true

variable {n : Numeral} {rest : List Char}

theorem takePower_boundary (h : Boundary rest) : takePower rest = none := by
  unfold takePower
  split
  · rename_i e s rest
    have he : ¬ (e = 'e' || e = 'E') := by
      simp only [Bool.or_eq_true, decide_eq_true_eq]
      have hpart := h.1
      rintro (rfl | rfl) <;> exact absurd hpart (by decide)
    rw [if_neg he]
  · rfl

theorem takeFraction_boundary (h : Boundary rest) : takeFraction rest = none := by
  unfold takeFraction
  split
  · rename_i c rest
    rw [if_neg]
    simp [h.2.2 rfl c rfl]
  · rfl

theorem takePower_powerText (h : n.Written) (hrest : Boundary rest) : takePower (n.powerText ++ rest) = n.power := by
  unfold powerText
  cases hp : n.power with
  | none => exact takePower_boundary hrest
  | some power =>
    obtain ⟨sign, digits⟩ := power
    obtain ⟨hsign, hne, hdigits⟩ := h.power sign digits hp
    obtain ⟨d, more, rfl⟩ := exists_cons_of_ne_nil hne
    have hd : isDigit d := hdigits d mem_cons_self
    have hall : (d :: more ++ rest).takeWhile isDigit = d :: more := takeWhile_append_eq hdigits hrest.not_digit
    rw [cons_append] at hall
    cases sign with
    | none =>
      have hs : ¬ (d = '+' || d = '-') := by
        simp only [Bool.or_eq_true, decide_eq_true_eq]
        rintro (rfl | rfl) <;> exact absurd hd (by decide)
      simp only [cons_append, takePower]
      rw [if_pos (by decide), if_neg hs, if_pos hd, hall]
    | some s =>
      have hs : (s = '+' || s = '-') := by simpa using hsign s rfl
      simp only [cons_append, takePower]
      rw [if_pos (by decide), if_pos hs, if_pos hd, hall]

/-- What follows the digits of a number does not start with a digit. -/
theorem powerText_not_digit (n : Numeral) (hrest : Boundary rest) :
    ∀ c ∈ (n.powerText ++ rest).head?, isDigit c = false := by
  unfold powerText
  split
  · rintro c ⟨⟩
    rfl
  · rintro c ⟨⟩
    rfl
  · exact hrest.not_digit

theorem takeFraction_fractionText (h : n.Written) (hrest : Boundary rest) :
    takeFraction (n.fractionText ++ (n.powerText ++ rest)) = n.fraction := by
  unfold fractionText
  cases hf : n.fraction with
  | none =>
    rw [nil_append]
    unfold powerText
    split
    · rfl
    · rfl
    · exact takeFraction_boundary hrest
  | some digits =>
    obtain ⟨hne, hdigits⟩ := h.fraction digits hf
    obtain ⟨d, more, rfl⟩ := exists_cons_of_ne_nil hne
    have hall : (d :: more ++ (n.powerText ++ rest)).takeWhile isDigit = d :: more :=
      takeWhile_append_eq hdigits (powerText_not_digit n hrest)
    rw [cons_append] at hall
    simp only [cons_append, takeFraction]
    rw [if_pos (hdigits d mem_cons_self), hall]

theorem fractionText_not_digit (n : Numeral) (hrest : Boundary rest) :
    ∀ c ∈ (n.fractionText ++ (n.powerText ++ rest)).head?, isDigit c = false := by
  unfold fractionText
  split
  · rintro c ⟨⟩
    rfl
  · exact powerText_not_digit n hrest

variable (h : n.Written)
include h

/-- A numeral is found again in front of a boundary. -/
theorem take_text (hrest : Boundary rest) : take (n.text ++ rest) = n := by
  have htext : n.text ++ rest = n.whole ++ (n.fractionText ++ (n.powerText ++ rest)) := by
    simp only [text, append_assoc]
  have hnot := fractionText_not_digit n hrest
  have hfraction := takeFraction_fractionText h hrest
  have hpower := takePower_powerText h hrest
  unfold take
  rw [htext]
  simp only [takeWhile_append_eq h.whole.2 hnot, dropWhile_append_eq h.whole.2 hnot, hfraction]
  -- The fraction that was found tells where the power starts.
  have hrestart : takePower (drop n.fractionText.length (n.fractionText ++ (n.powerText ++ rest))) =
      n.power := by rw [drop_left, hpower]
  obtain ⟨whole, fraction, power⟩ := n
  cases fraction with
  | none => exact congrArg (Numeral.mk whole none) hrestart
  | some digits => exact congrArg (Numeral.mk whole (some digits)) hrestart

/-- All characters of a number may stand in a word, but for the point and the sign. -/
theorem text_clean : ∀ c ∈ n.text, c ≠ '\n' ∧ c ≠ '\r' := by
  have hdigits {digits : List Char} (hd : ∀ c ∈ digits, isDigit c) : ∀ c ∈ digits, c ≠ '\n' ∧ c ≠ '\r' :=
    fun c hc => Spelled.clean_of_isWordPart (isWordPart_of_isDigit (hd c hc))
  intro c hc
  simp only [text, mem_append] at hc
  rcases hc with (hc | hc) | hc
  · exact hdigits h.whole.2 c hc
  · unfold fractionText at hc
    split at hc
    · rename_i digits hf
      rcases mem_cons.mp hc with rfl | hc
      · decide
      · exact hdigits (h.fraction digits hf).2 c hc
    · cases hc
  · unfold powerText at hc
    split at hc
    · rename_i sign digits hp
      obtain ⟨hsign, _, hd⟩ := h.power _ digits hp
      rcases mem_cons.mp hc with rfl | hc
      · decide
      rcases mem_cons.mp hc with rfl | hc
      · rcases hsign c rfl with rfl | rfl <;> decide
      · exact hdigits hd c hc
    · rename_i digits hp
      rcases mem_cons.mp hc with rfl | hc
      · decide
      · exact hdigits (h.power _ digits hp).2.2 c hc
    · cases hc

/-- A numeral starts with a digit. -/
theorem text_cons : ∃ d digits, isDigit d ∧ (∀ c ∈ digits, isDigit c) ∧
    n.whole = d :: digits ∧ n.text = d :: (digits ++ n.fractionText ++ n.powerText) := by
  obtain ⟨d, digits, hw⟩ := exists_cons_of_ne_nil h.whole.1
  have hall := h.whole.2
  rw [hw] at hall
  exact ⟨d, digits, hall d mem_cons_self, fun c hc => hall c (mem_cons_of_mem _ hc), hw, by simp [text, hw]⟩

/-- Behind the first digit of a number there is no mark of another base. -/
theorem second_ne_x (hrest : Boundary rest) {x : Char} {more : List Char}
    (htext : n.text ++ rest = c :: x :: more) : x ≠ 'x' ∧ x ≠ 'X' := by
  obtain ⟨d, digits, _, hdigits, _, hcons⟩ := text_cons h
  have hsecond : digits ++ (n.fractionText ++ (n.powerText ++ rest)) = x :: more := by
    rw [hcons] at htext
    simpa using (cons.inj htext).2
  cases digits with
  | cons e digits =>
    cases hsecond
    have hx := hdigits x mem_cons_self
    constructor <;> rintro rfl <;> exact absurd hx (by decide)
  | nil =>
    unfold fractionText powerText at hsecond
    -- A fraction starts with a point and an exponent with its mark; the rest is no part of a word.
    split at hsecond
    · cases hsecond
      decide
    · split at hsecond
      · cases hsecond
        decide
      · cases hsecond
        decide
      · have hx := hrest.not_wordPart x (by rw [show rest = x :: more from hsecond]; rfl)
        constructor <;> rintro rfl <;> exact absurd hx (by decide)

theorem number_text (hrest : Boundary rest) : number (n.text ++ rest) = decimalNumber (n.text ++ rest) := by
  unfold number
  split
  · rename_i x more htext
    have hx := second_ne_x h hrest htext
    rw [if_neg (by simp [hx.1, hx.2]), htext]
  · rfl

theorem ofText_text (hrest : Boundary rest) : ofText (n.text ++ rest) = decimalNumber (n.text ++ rest) := by
  rw [← number_text h hrest]
  obtain ⟨d, digits, hd, _, _, hcons⟩ := text_cons h
  rw [hcons, cons_append]
  show (if isWordStart d = true then _ else if isDigit d = true then _ else _) = _
  rw [if_neg (by simp [isWordStart_of_isDigit hd]), if_pos hd]

theorem text_start : ∃ c more, n.text = c :: more ∧ isBlank c = false ∧ c ≠ '#' ∧ c ≠ '\\' := by
  obtain ⟨d, _, hd, _, _, hcons⟩ := text_cons h
  exact ⟨d, _, hcons, Spelled.start_of_isWordPart (isWordPart_of_isDigit hd)⟩

theorem spelled_float (hrest : Boundary rest) (hfloat : n.isFloat) : Spelled n.text (.float n.value) rest := by
  have hwhole : n.whole.isEmpty = false := by simpa using h.whole.1
  refine ⟨?_, text_start h, text_clean h⟩
  rw [ofText_text h hrest]
  unfold decimalNumber
  simp only [take_text h hrest, hfloat, hwhole]
  rfl

theorem spelled_int (hrest : Boundary rest) (hint : n.isFloat = false) {value : Int}
    (hvalue : readWord 10 n.whole = some value) : Spelled n.text (.int value) rest := by
  refine ⟨?_, text_start h, text_clean h⟩
  rw [ofText_text h hrest]
  unfold decimalNumber
  simp only [take_text h hrest, hint, hvalue]
  rfl

end Lexeme.Numeral

/-! ### Characters and strings -/

section Escapes

variable {quote c e : Char}

theorem escapeLetter_none (h : escapeLetter quote c = none) : c ≠ '\n' ∧ c ≠ '\r' ∧ c ≠ '\\' ∧ c ≠ quote := by
  refine ⟨?_, ?_, ?_, ?_⟩ <;> rintro rfl <;> unfold escapeLetter at h
  case refine_4 =>
    repeat' split at h
    all_goals simp_all
  all_goals simp at h

/-- A character is written with a backslash, or stands for itself. -/
theorem escapeChar_cases (hq : quote = '"' ∨ quote = '\'') (c : Char) :
    (∃ e, escapeChar quote c = ['\\', e] ∧ unescape e = some c ∧ e ≠ '\n' ∧ e ≠ '\r') ∨
    (escapeChar quote c = [c] ∧ c ≠ '\n' ∧ c ≠ '\r' ∧ c ≠ '\\' ∧ c ≠ quote) := by
  unfold escapeChar
  cases he : escapeLetter quote c with
  | none => exact .inr ⟨rfl, escapeLetter_none he⟩
  | some e =>
    have hmeans := unescape_escapeLetter hq he
    refine .inl ⟨e, rfl, hmeans, ?_, ?_⟩ <;> rintro rfl <;> exact absurd hmeans (by simp [unescape])

theorem escape_clean (hq : quote = '"' ∨ quote = '\'') (text : List Char) :
    ∀ c ∈ escape quote text, c ≠ '\n' ∧ c ≠ '\r' := by
  have hquote : quote ≠ '\n' ∧ quote ≠ '\r' := by rcases hq with rfl | rfl <;> decide
  intro c hc
  simp only [escape, cons_append, mem_cons, mem_append, mem_flatMap, not_mem_nil, or_false] at hc
  obtain rfl | ⟨d, _, hd⟩ | rfl := hc
  · exact hquote
  · obtain ⟨e, he, _, hclean⟩ | ⟨he, hn, hr, _⟩ := escapeChar_cases hq d <;> rw [he] at hd
    · simp only [mem_cons, not_mem_nil, or_false] at hd
      rcases hd with rfl | rfl
      · decide
      · exact hclean
    · rw [mem_singleton.mp hd]
      exact ⟨hn, hr⟩
  · exact hquote

end Escapes

namespace Lexeme

/-- The inside of a string that was written with escapes. -/
theorem stringBody_escape (text rest : List Char) (used : Nat) (soFar : List Char) :
    stringBody false used soFar (text.flatMap (escapeChar '"') ++ '"' :: rest) =
      .ok (.string (String.ofList (soFar.reverse ++ text))) (used + (text.flatMap (escapeChar '"')).length + 1) := by
  induction text generalizing used soFar with
  | nil => simp [stringBody]
  | cons c text ih =>
    rw [flatMap_cons, append_assoc]
    obtain ⟨e, he, hmeans, _⟩ | ⟨he, hn, _, hb, hq⟩ := escapeChar_cases (.inl rfl) c
    · have hstep (body : List Char) : stringBody false used soFar ('\\' :: e :: body) =
          stringBody false (used + 2) (c :: soFar) body := by
        simp only [stringBody, hmeans]
      rw [he, cons_append, cons_append, nil_append, hstep, ih]
      congr 2
      · simp
      · simp only [length_append, length_cons, length_nil]
        omega
    · have hstep (body : List Char) : stringBody false used soFar (c :: body) =
          stringBody false (used + 1) (c :: soFar) body := by
        simp [stringBody, hn, hb, hq]
      rw [he, cons_append, nil_append, hstep, ih]
      congr 2
      · simp
      · simp only [length_append, length_cons, length_nil]
        omega

end Lexeme

namespace Spelled

variable {rest : List Char}

theorem string (s : String) (hrest : ∀ c ∈ rest.head?, c ≠ '"') : Spelled (escape '"' s.toList) (.string s) rest := by
  refine ⟨?_, ⟨'"', _, rfl, by decide⟩, escape_clean (.inl rfl) _⟩
  have hbody := Lexeme.stringBody_escape s.toList rest 1 []
  have hsplit : escape '"' s.toList ++ rest =
      '"' :: (s.toList.flatMap (escapeChar '"') ++ '"' :: rest) := by simp [escape]
  -- Only three quotes in a row would open a longer string, and the rest starts with none.
  have hopen : Lexeme.string ('"' :: (s.toList.flatMap (escapeChar '"') ++ '"' :: rest)) =
      Lexeme.stringBody false 1 [] (s.toList.flatMap (escapeChar '"') ++ '"' :: rest) := by
    unfold Lexeme.string
    split
    · contradiction
    · rename_i more hthree
      exfalso
      have hthree := (cons.inj hthree).2
      cases htext : s.toList with
      | nil =>
        rw [htext] at hthree
        exact hrest '"' (by rw [(cons.inj hthree).2]; rfl) rfl
      | cons c text =>
        rw [htext, flatMap_cons] at hthree
        obtain ⟨e, he, _⟩ | ⟨he, _, _, _, hq⟩ := escapeChar_cases (.inl rfl) c <;> rw [he] at hthree
        · exact absurd (cons.inj hthree).1 (by decide)
        · exact hq (cons.inj hthree).1
    · rename_i hcons
      rw [(cons.inj hcons).2]
  rw [hsplit]
  show Lexeme.string _ = _
  rw [hopen, hbody]
  congr 1
  · simp
  · simp [escape]
    omega

theorem char (hc : isAscii c) : Spelled (escape '\'' [c]) (.char c) rest := by
  refine ⟨?_, ⟨'\'', _, rfl, by decide⟩, escape_clean (.inr rfl) _⟩
  show Lexeme.character _ = _
  simp only [escape, flatMap_cons, flatMap_nil, append_nil]
  obtain ⟨e, he, hmeans, _⟩ | ⟨he, hn, _, hb, hq⟩ := escapeChar_cases (.inr rfl) c <;> rw [he]
  · simp [Lexeme.character, hmeans, Lexeme.closeCharacter, hc]
  · simp [Lexeme.character, Lexeme.closeCharacter, hc, hb]

end Spelled

/-! ### Symbols -/

/-- Characters that would make a longer symbol of one. -/
def Symbol.extensions : Symbol → List Char
  | .plus => ['+']
  | .minus => ['-', '>']
  | .equal => ['=']
  | .less => ['<', '=']
  | .greater => ['>', '=']
  | .dot => ['.']
  | _ => []

/-- A place where a symbol cannot go on. -/
def Symbol.EndsBefore (s : Symbol) (rest : List Char) : Prop := ∀ c ∈ rest.head?, c ∉ s.extensions

theorem Symbol.endsBefore_blank (s : Symbol) (rest : List Char) : s.EndsBefore (' ' :: rest) := by
  rintro c ⟨⟩
  cases s <;> decide

theorem Symbol.endsBefore_of_final (h : s.extensions = []) (rest : List Char) : s.EndsBefore rest := by
  intro c _
  rw [h]
  exact not_mem_nil

theorem Lexeme.longestSymbol_spelling (h : s.EndsBefore rest) :
    longestSymbol (s.spelling.toList ++ rest) = some s := by
  cases s
  case plus | minus | equal | less | greater | dot =>
    cases rest with
    | nil => rfl
    | cons c rest =>
      have hc := h c rfl
      simp_all [Symbol.spelling, Symbol.extensions, longestSymbol]
  all_goals rfl

/-- A symbol starts with the sign that its spelling starts with. -/
theorem Lexeme.longestSymbol_head (h : longestSymbol (c :: rest) = some s) : s.spelling.toList.head? = some c := by
  unfold longestSymbol at h
  split at h
  all_goals cases h
  all_goals
    rename_i hcons
    cases hcons
    rfl

theorem Symbol.spelling_start (s : Symbol) : ∃ c more, s.spelling.toList = c :: more ∧
    isWordPart c = false ∧ c ≠ '\'' ∧ c ≠ '"' ∧ isBlank c = false ∧ c ≠ '#' ∧ c ≠ '\\' := by
  cases s <;> exact ⟨_, _, rfl, by decide⟩

/-- Words, numbers and strings end before every symbol that does not start with a point. -/
theorem Boundary.of_symbol (h : s.spelling.toList.head? ≠ some '.') (rest : List Char) :
    Boundary (s.spelling.toList ++ rest) := by
  obtain ⟨c, more, hcons, hpart, _, hquote, _⟩ := s.spelling_start
  rw [hcons] at h ⊢
  exact .of_char hpart hquote fun hdot => h (congrArg some hdot)

theorem Lexeme.ofText_symbol (rest : List Char) (hc : isWordPart c = false) (hq : c ≠ '\'')
    (hs : c ≠ '"') : ofText (c :: rest) = operator (c :: rest) := by
  have hstart : isWordStart c = false := by
    by_contra h
    rw [isWordPart_of_isWordStart (Bool.not_eq_false _ ▸ h)] at hc
    cases hc
  have hdigit : isDigit c = false := by
    by_contra h
    rw [isWordPart_of_isDigit (Bool.not_eq_false _ ▸ h)] at hc
    cases hc
  simp [ofText, hstart, hdigit, hq, hs]

theorem Spelled.symbol (s : Symbol) (h : s.EndsBefore rest) : Spelled s.spelling.toList (.symbol s) rest := by
  have hfound := Lexeme.longestSymbol_spelling h
  obtain ⟨c, more, hcons, hc, hq, hs, hstart⟩ := s.spelling_start
  have hclean : '\n' ∉ s.spelling.toList ∧ '\r' ∉ s.spelling.toList := by cases s <;> decide
  refine ⟨?_, ⟨c, more, hcons, hstart⟩, fun d hd => ?_⟩
  · rw [hcons, cons_append] at hfound ⊢
    rw [Lexeme.ofText_symbol _ hc hq hs, Lexeme.operator, hfound, ← hcons]
    rfl
  · exact ⟨fun h => hclean.1 (h ▸ hd), fun h => hclean.2 (h ▸ hd)⟩

/-! ### Rows of lexemes -/

/-- A text before a rest that reads as a row of tokens, with single blanks anywhere between them. -/
inductive Spells (rest : List Char) : List Char → List TokenKind → Prop where
  | nil : Spells rest [] []
  | blank {text : List Char} {kinds : List TokenKind} : Spells rest text kinds → Spells rest (' ' :: text) kinds
  | token {lexeme text : List Char} {kind : TokenKind} {kinds : List TokenKind} :
      Spelled lexeme kind (text ++ rest) → Spells rest text kinds →
      Spells rest (lexeme ++ text) (kind :: kinds)

namespace Spells

variable {rest text more : List Char} {kinds others : List TokenKind}

theorem single (h : Spelled text kind rest) : Spells rest text [kind] := by
  have hrow : Spells rest (text ++ []) [kind] := .token h .nil
  rwa [append_nil] at hrow

/-- Rows follow each other if the first one ends before the second. -/
theorem append (h : Spells (more ++ rest) text kinds) (hmore : Spells rest more others) :
    Spells rest (text ++ more) (kinds ++ others) := by
  induction h with
  | nil => exact hmore
  | blank _ ih => exact .blank ih
  | token hlexeme _ ih =>
    rw [append_assoc]
    refine .token ?_ ih
    rwa [append_assoc]

theorem clean (h : Spells rest text kinds) : ∀ c ∈ text, c ≠ '\n' ∧ c ≠ '\r' := by
  induction h with
  | nil => nofun
  | blank _ ih =>
    intro c hc
    rcases mem_cons.mp hc with rfl | hc
    · decide
    · exact ih c hc
  | token hlexeme _ ih =>
    intro c hc
    rcases mem_append.mp hc with hc | hc
    · exact hlexeme.clean c hc
    · exact ih c hc

/-- A text that starts with a sign starts with a symbol. -/
theorem head_symbol (h : Spells rest (c :: text) kinds) (hblank : c ≠ ' ')
    (hc : isWordPart c = false) (hq : c ≠ '\'') (hs : c ≠ '"') :
    ∃ s : Symbol, kinds.head? = some (.symbol s) ∧ s.spelling.toList.head? = some c := by
  generalize htext : c :: text = row at h
  cases h with
  | nil => cases htext
  | blank => exact absurd (cons.inj htext).1 hblank
  | @token lexeme text' kind kinds hlexeme =>
    obtain ⟨d, more, rfl, _⟩ := hlexeme.start
    rw [cons_append] at htext
    obtain ⟨rfl, _⟩ := cons.inj htext
    have hfound := hlexeme.found
    rw [cons_append, Lexeme.ofText_symbol _ hc hq hs, Lexeme.operator] at hfound
    replace hfound := congrArg Lexeme.outcome hfound
    split at hfound
    · rename_i s hlongest
      cases hfound
      exact ⟨s, rfl, Lexeme.longestSymbol_head hlongest⟩
    · cases hfound

end Spells

end Offside
