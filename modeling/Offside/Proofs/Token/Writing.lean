import Offside.Proofs.Token.Spelling

/-! What tokens are written as.

`TokenKind.Writes` says which texts stand for a token: a keyword, a symbol or a name for itself, a number in
its digits, a character or string between quotes with some of its characters behind a backslash, a newline
or blanks as a run of them. A recogniser that finds a token has used up such a text
(`Lexeme.ofText_finds`, `Scanner.front_finds`). -/
namespace Offside

open Text Number List

/-- Characters as literals write them: behind a backslash, or as themselves if they are `plain`. -/
inductive Escaped (plain : Char → Prop) : (written meant : List Char) → Prop where
  | nil : Escaped plain [] []
  | plain {c : Char} {written meant : List Char} : c ≠ '\\' → plain c → Escaped plain written meant →
      Escaped plain (c :: written) (c :: meant)
  | letter {e c : Char} {written meant : List Char} : unescape e = some c → Escaped plain written meant →
      Escaped plain ('\\' :: e :: written) (c :: meant)

/-- The numeral with a letter of either case before its exponent. -/
def Lexeme.Numeral.textWith (mark : Char) (n : Numeral) : List Char :=
  n.whole ++ n.fractionText ++ n.powerText.set 0 mark

/-- The quotes on each side of a string, which may be three. -/
def stringQuotes (triple : Bool) : List Char := if triple then ['"', '"', '"'] else ['"']

/-- What need not be escaped in a string. -/
def PlainInString (triple : Bool) (c : Char) : Prop := triple = false → c ≠ '"' ∧ c ≠ '\n'

/-- What need not be escaped between single quotes. -/
def PlainInQuotes (c : Char) : Prop := c ≠ '\'' ∧ c ≠ '\n'

/-- The texts that a token can be written as. Nothing is written for the end of the file, and nothing can
be for the opening and the closing of a block. -/
inductive TokenKind.Writes : TokenKind → List Char → Prop where
  | keyword (k : Keyword) : Writes (.keyword k) k.spelling.toList
  | symbol (s : Symbol) : Writes (.symbol s) s.spelling.toList
  | identifier {name : String} : IsName name → Writes (.identifier name) name.toList
  | decimal {digits : List Char} {n : Int} : (∀ c ∈ digits, isDigit c = true) →
      readWord 10 digits = some n → Writes (.int n) digits
  | hexadecimal {x : Char} {digits : List Char} {n : Int} : x = 'x' ∨ x = 'X' →
      (∀ c ∈ digits, isHexDigit c = true) → readWord 16 digits = some n →
      Writes (.int n) ('0' :: x :: digits)
  | float {n : Lexeme.Numeral} {mark : Char} : n.Written → n.isFloat = true →
      mark = 'e' ∨ mark = 'E' → Writes (.float n.value) (n.textWith mark)
  | char {c : Char} {written : List Char} : isAscii c = true → Escaped PlainInQuotes written [c] →
      Writes (.char c) ('\'' :: written ++ ['\''])
  | string (triple : Bool) {written meant : List Char} : Escaped (PlainInString triple) written meant →
      Writes (.string (String.ofList meant)) (stringQuotes triple ++ written ++ stringQuotes triple)
  | whitespace {blanks : List Char} : blanks ≠ [] → (∀ c ∈ blanks, isBlank c = true) →
      Writes (.whitespace blanks.length) blanks
  | newline {ends : List Char} : ends ≠ [] → (∀ c ∈ ends, c = '\n') → Writes .newline ends
  | endOfFile : Writes .endOfFile []

namespace Lexeme

/-- If the lexeme is a token, the text starts with what that token is written as, and this is used up. -/
def Finds (text : List Char) (l : Lexeme) : Prop := ∀ kind, l.outcome = .ok kind →
    ∃ front back, text = front ++ back ∧ l.length = front.length ∧ kind.Writes front

theorem Finds.ok {kind : TokenKind} {front : List Char} (back : List Char) (h : kind.Writes front) :
    Finds (front ++ back) (ok kind front.length) := by
  intro found hfound
  cases hfound
  exact ⟨front, back, rfl, rfl, h⟩

theorem Finds.fail (text : List Char) (fault : LexicalFault) (offset length : Nat) :
    Finds text (fail fault offset length) := by
  intro kind hkind
  cases hkind

/-! ### Words and numbers -/

theorem word_finds {c : Char} (rest : List Char) (hc : isWordStart c) : Finds (c :: rest) (word (c :: rest)) := by
  have hpart := isWordPart_of_isWordStart hc
  have hsplit : (c :: rest).takeWhile isWordPart ++ (c :: rest).dropWhile isWordPart = c :: rest :=
    takeWhile_append_dropWhile
  have hwrites (kind : TokenKind) (h : kind.Writes ((c :: rest).takeWhile isWordPart)) :
      Finds (c :: rest) (ok kind ((c :: rest).takeWhile isWordPart).length) := by
    have hfinds := Finds.ok ((c :: rest).dropWhile isWordPart) h
    rw [hsplit] at hfinds
    exact hfinds
  unfold word
  dsimp only
  split
  · rename_i k hk
    have hspelling : k.spelling.toList = (c :: rest).takeWhile isWordPart := by
      have hfound := find?_some hk
      rw [beq_iff_eq.mp hfound, String.toList_ofList]
    exact hwrites _ (hspelling ▸ .keyword k)
  · rename_i hfree
    refine hwrites _ ?_
    have hname : IsName (String.ofList ((c :: rest).takeWhile isWordPart)) := by
      refine ⟨⟨c, rest.takeWhile isWordPart, ?_, hc⟩, fun d hd => ?_, hfree⟩
      · rw [String.toList_ofList, takeWhile_cons_of_pos hpart]
      · rw [String.toList_ofList] at hd
        exact mem_takeWhile_imp hd
    have hwrites := TokenKind.Writes.identifier hname
    rwa [String.toList_ofList] at hwrites

theorem hexNumber_finds {x : Char} (rest : List Char) (hx : x = 'x' ∨ x = 'X') :
    Finds ('0' :: x :: rest) (hexNumber rest) := by
  unfold hexNumber
  dsimp only
  split
  · rename_i n hn
    have hwrites := TokenKind.Writes.hexadecimal hx (fun c hc => mem_takeWhile_imp hc) hn
    have hfinds := Finds.ok (rest.dropWhile isHexDigit) hwrites
    rw [cons_append, cons_append, takeWhile_append_dropWhile] at hfinds
    exact hfinds
  · exact .fail _ _ _ _

namespace Numeral

/-- A fraction that is found stands there. -/
theorem takeFraction_some {rest digits : List Char} (h : takeFraction rest = some digits) :
    (∃ back, rest = '.' :: digits ++ back) ∧ digits ≠ [] ∧ ∀ c ∈ digits, isDigit c = true := by
  unfold takeFraction at h
  split at h
  · rename_i c more
    split at h
    · rename_i hc
      cases h
      refine ⟨⟨(c :: more).dropWhile isDigit, ?_⟩, ?_, fun d hd => mem_takeWhile_imp hd⟩
      · rw [cons_append, takeWhile_append_dropWhile]
      · rw [takeWhile_cons_of_pos hc]
        exact cons_ne_nil _ _
    · cases h
  · cases h

/-- So does a power, with a letter of either case before it. -/
theorem takePower_some {rest digits : List Char} {sign : Option Char} (h : takePower rest = some (sign, digits)) :
    (∃ mark back, (mark = 'e' ∨ mark = 'E') ∧ rest = mark :: (sign.toList ++ digits) ++ back) ∧
      (∀ s ∈ sign, s = '+' ∨ s = '-') ∧ digits ≠ [] ∧ ∀ c ∈ digits, isDigit c = true := by
  have hrun {c : Char} (more : List Char) (hc : isDigit c) :
      (c :: more).takeWhile isDigit ≠ [] ∧ ∀ d ∈ (c :: more).takeWhile isDigit, isDigit d = true := by
    refine ⟨?_, fun d hd => mem_takeWhile_imp hd⟩
    rw [takeWhile_cons_of_pos hc]
    exact cons_ne_nil _ _
  unfold takePower at h
  split at h
  · rename_i e s more
    split at h
    · rename_i he
      have he : e = 'e' ∨ e = 'E' := by simpa using he
      split at h
      · rename_i hs
        have hs : s = '+' ∨ s = '-' := by simpa using hs
        split at h
        · rename_i c more
          split at h
          · rename_i hc
            cases h
            refine ⟨⟨e, (c :: more).dropWhile isDigit, he, ?_⟩, ?_, hrun more hc⟩
            · simp only [Option.toList_some, cons_append, nil_append, takeWhile_append_dropWhile]
            · rintro _ ⟨⟩
              exact hs
          · cases h
        · cases h
      · split at h
        · rename_i hs
          cases h
          refine ⟨⟨e, (s :: more).dropWhile isDigit, he, ?_⟩, ?_, hrun more hs⟩
          · simp only [Option.toList_none, nil_append, cons_append, takeWhile_append_dropWhile]
          · rintro _ ⟨⟩
        · cases h
    · cases h
  · cases h

theorem length_textWith (mark : Char) (n : Numeral) : (n.textWith mark).length = n.text.length := by
  simp [textWith, text]

/-- What stands behind the digits, and how far the fraction goes. -/
theorem fractionText_take (text : List Char) : ∃ back, text.dropWhile isDigit = (take text).fractionText ++ back ∧
      (take text).power = takePower back := by
  unfold take fractionText
  dsimp only
  cases hfraction : takeFraction (text.dropWhile isDigit) with
  | none => exact ⟨_, rfl, rfl⟩
  | some digits =>
    obtain ⟨⟨back, hback⟩, _⟩ := takeFraction_some hfraction
    refine ⟨back, hback, ?_⟩
    dsimp only
    rw [hback, cons_append, drop_succ_cons, drop_left]

/-- The text starts with the numeral that is taken from it. -/
theorem textWith_take (text : List Char) :
    ∃ mark back, (mark = 'e' ∨ mark = 'E') ∧ text = (take text).textWith mark ++ back := by
  obtain ⟨rest, hrest, hpower⟩ := fractionText_take text
  have htext : text = (take text).whole ++ ((take text).fractionText ++ rest) := by
    rw [← hrest]
    exact takeWhile_append_dropWhile.symm
  cases hp : (take text).power with
  | none =>
    refine ⟨'e', rest, .inl rfl, ?_⟩
    simpa [textWith, powerText, hp] using htext
  | some power =>
    obtain ⟨sign, digits⟩ := power
    obtain ⟨⟨mark, back, hmark, hback⟩, _⟩ := takePower_some (hpower.symm.trans hp)
    refine ⟨mark, back, hmark, ?_⟩
    rw [hback] at htext
    cases sign <;> simpa [textWith, powerText, hp] using htext

theorem take_written {c : Char} (rest : List Char) (hc : isDigit c) : (take (c :: rest)).Written := by
  refine ⟨⟨?_, fun d hd => mem_takeWhile_imp hd⟩, fun digits h => ?_, fun sign digits h => ?_⟩
  · show (c :: rest).takeWhile isDigit ≠ []
    rw [takeWhile_cons_of_pos hc]
    exact cons_ne_nil _ _
  · exact (takeFraction_some h).2
  · obtain ⟨back, _, hpower⟩ := fractionText_take (c :: rest)
    exact (takePower_some (hpower.symm.trans h)).2

end Numeral

theorem decimalNumber_finds {c : Char} (rest : List Char) (hc : isDigit c) :
    Finds (c :: rest) (decimalNumber (c :: rest)) := by
  obtain ⟨mark, back, hmark, htext⟩ := Numeral.textWith_take (c :: rest)
  have hwritten := Numeral.take_written rest hc
  have hlength := Numeral.length_textWith mark (Numeral.take (c :: rest))
  have hwrites (kind : TokenKind) (h : kind.Writes ((Numeral.take (c :: rest)).textWith mark)) :
      Finds (c :: rest) (ok kind (Numeral.take (c :: rest)).text.length) := by
    have hfinds := Finds.ok back h
    rwa [← htext, hlength] at hfinds
  unfold decimalNumber
  dsimp only
  generalize Numeral.take (c :: rest) = n at *
  split
  · rename_i hfloat
    split
    · exact .fail _ _ _ _
    · exact hwrites _ (.float hwritten hfloat hmark)
  · rename_i hint
    have hparts : n.fraction = none ∧ n.power = none := by simpa [Numeral.isFloat] using hint
    have hwhole : n.textWith mark = n.whole := by
      simp [Numeral.textWith, Numeral.fractionText, Numeral.powerText, hparts.1, hparts.2]
    split
    · rename_i value hvalue
      exact hwrites _ (hwhole ▸ .decimal hwritten.whole.2 hvalue)
    · exact .fail _ _ _ _

theorem number_finds {c : Char} (rest : List Char) (hc : isDigit c) : Finds (c :: rest) (number (c :: rest)) := by
  unfold number
  split
  · rename_i x more htext
    split
    · rename_i hx
      rw [htext]
      exact hexNumber_finds more (by simpa using hx)
    · rw [htext]
      exact decimalNumber_finds _ (by decide)
  · exact decimalNumber_finds rest hc

/-! ### Characters, strings and symbols -/

theorem closeCharacter_finds {c : Char} {written rest : List Char} {used : Nat}
    (hwritten : Escaped PlainInQuotes written [c]) (hused : used = written.length + 1) :
    Finds ('\'' :: written ++ rest) (closeCharacter c used rest) := by
  unfold closeCharacter
  split
  · exact .fail _ _ _ _
  · rename_i hascii
    split
    · rename_i back
      have hwrites := TokenKind.Writes.char (by simpa using hascii) hwritten
      have hfinds := Finds.ok back hwrites
      simpa [hused] using hfinds
    · exact .fail _ _ _ _
    · exact .fail _ _ _ _

theorem character_finds (rest : List Char) : Finds ('\'' :: rest) (character ('\'' :: rest)) := by
  unfold character
  split
  · exact .fail _ _ _ _
  · exact .fail _ _ _ _
  · exact .fail _ _ _ _
  · exact .fail _ _ _ _
  · exact .fail _ _ _ _
  · rename_i e more htext
    cases htext
    split
    · rename_i c hc
      have hwritten : Escaped PlainInQuotes ['\\', e] [c] := .letter hc .nil
      exact closeCharacter_finds hwritten rfl
    · exact .fail _ _ _ _
  · rename_i c more hnewline hquote hlast hescape htext
    cases htext
    have hbackslash : c ≠ '\\' := by
      rintro rfl
      cases more with
      | nil => exact hlast rfl rfl
      | cons e more => exact hescape e more rfl rfl
    have hwritten : Escaped PlainInQuotes [c] [c] := .plain hbackslash ⟨hquote, hnewline⟩ .nil
    exact closeCharacter_finds hwritten rfl

/-- A string body that is closed holds what its characters mean. -/
theorem stringBody_ok {triple : Bool} {used : Nat} {soFar text : List Char} {kind : TokenKind}
    (h : (stringBody triple used soFar text).outcome = .ok kind) :
    ∃ written meant back, text = written ++ stringQuotes triple ++ back ∧
      (stringBody triple used soFar text).length = used + written.length + (stringQuotes triple).length ∧
      kind = .string (String.ofList (soFar.reverse ++ meant)) ∧
      Escaped (PlainInString triple) written meant := by
  fun_induction stringBody triple used soFar text with
  | case1 | case2 | case4 | case5 => cases h
  | case3 used soFar e rest c he ih =>
    obtain ⟨written, meant, back, rfl, hlength, rfl, hescaped⟩ := ih h
    refine ⟨'\\' :: e :: written, c :: meant, back, rfl, ?_, by simp, .letter he hescaped⟩
    rw [hlength]
    simp only [length_cons]
    omega
  | case6 used soFar c rest _ _ _ hclose =>
    obtain ⟨rfl, rfl⟩ : triple = false ∧ c = '"' := by simpa using hclose
    cases h
    exact ⟨[], [], rest, rfl, rfl, by simp, .nil⟩
  | case7 used soFar c rest _ _ _ _ hclose =>
    simp only [Bool.and_eq_true, isPrefixOf_iff_prefix] at hclose
    obtain ⟨rfl, back, hback⟩ := hclose
    cases h
    exact ⟨[], [], back, hback.symm, rfl, by simp, .nil⟩
  | case8 used soFar c rest hlast hescape hnewline hquote _ ih =>
    obtain ⟨written, meant, back, rfl, hlength, rfl, hescaped⟩ := ih h
    have hbackslash : c ≠ '\\' := by
      rintro rfl
      cases hmore : written ++ stringQuotes triple ++ back with
      | nil => exact hlast rfl hmore
      | cons e more => exact hescape e more rfl hmore
    have hplain : PlainInString triple c := by
      rintro rfl
      exact ⟨by simpa using hquote, by simpa using hnewline⟩
    refine ⟨c :: written, c :: meant, back, rfl, ?_, by simp, .plain hbackslash hplain hescaped⟩
    rw [hlength]
    simp only [length_cons]
    omega

theorem stringBody_finds (triple : Bool) (text : List Char) :
    Finds (stringQuotes triple ++ text) (stringBody triple (stringQuotes triple).length [] text) := by
  intro kind h
  obtain ⟨written, meant, back, rfl, hlength, rfl, hescaped⟩ := stringBody_ok h
  refine ⟨_, back, by simp only [append_assoc], ?_, .string triple hescaped⟩
  rw [hlength]
  simp only [length_append]

theorem string_finds (rest : List Char) : Finds ('"' :: rest) (string ('"' :: rest)) := by
  unfold string
  split
  · exact .fail _ _ _ _
  · rename_i more htext
    cases htext
    exact stringBody_finds true more
  · rename_i more _ htext
    cases htext
    exact stringBody_finds false rest

theorem longestSymbol_prefix {text : List Char} {s : Symbol} (h : longestSymbol text = some s) :
    ∃ back, text = s.spelling.toList ++ back := by
  unfold longestSymbol at h
  split at h <;> cases h <;> exact ⟨_, rfl⟩

theorem operator_finds (c : Char) (rest : List Char) : Finds (c :: rest) (operator (c :: rest)) := by
  unfold operator
  dsimp only
  split
  · rename_i s hs
    obtain ⟨back, hback⟩ := longestSymbol_prefix hs
    have hfinds := Finds.ok back (TokenKind.Writes.symbol s)
    rw [← hback, String.length_toList] at hfinds
    exact hfinds
  · exact .fail _ _ _ _

theorem ofText_finds (c : Char) (rest : List Char) : Finds (c :: rest) (ofText (c :: rest)) := by
  unfold ofText
  dsimp only
  split
  · rename_i hc
    exact word_finds rest hc
  · split
    · rename_i hc
      exact number_finds rest hc
    · split
      · rename_i hc
        subst hc
        exact character_finds rest
      · split
        · rename_i hc
          subst hc
          exact string_finds rest
        · exact operator_finds c rest

end Lexeme

/-- What stands at the front of a text, layout included, is written there. -/
theorem Scanner.front_finds (text : List Char) : Lexeme.Finds text (front text) := by
  have hrun (p : Char → Bool) (kind : TokenKind) (h : kind.Writes (text.takeWhile p)) :
      Lexeme.Finds text (.ok kind (text.takeWhile p).length) := by
    have hfinds := Lexeme.Finds.ok (text.dropWhile p) h
    rw [takeWhile_append_dropWhile] at hfinds
    exact hfinds
  cases text with
  | nil => exact .ok [] .endOfFile
  | cons c rest =>
    have hne {p : Char → Bool} (hc : p c = true) : (c :: rest).takeWhile p ≠ [] := by
      rw [takeWhile_cons_of_pos hc]
      exact cons_ne_nil _ _
    unfold front
    dsimp only
    split
    · rename_i hblank
      exact hrun isBlank _ (.whitespace (hne hblank) fun d hd => mem_takeWhile_imp hd)
    · split
      · rename_i hc
        refine hrun (· == '\n') _ (.newline (hne (by simpa using hc)) fun d hd => ?_)
        simpa using mem_takeWhile_imp hd
      · exact Lexeme.ofText_finds c rest

end Offside
