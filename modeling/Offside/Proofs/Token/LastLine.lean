import Offside.Proofs.Token.Coverage
import Offside.Proofs.Token.Lines

/-! Reading up to the end of a line.

What is read before the end of a line does not depend on what follows: names and numbers stop there at the
latest, a string that is closed is closed before it, and no sign goes over it. So where a text breaks off, with
the end of a line or without one, a lexeme that is found before is found in every text that goes on with the end
of a line (`Lexeme.ofText_swap`, `Scanner.front_swap`), behind the same characters without meaning
(`triviaLength_swap`). -/
namespace Offside

open Text Number List

/-- The text ends with a newline. -/
def EndsLine (text : List Char) : Prop := text.getLast? = some '\n'

namespace EndsLine

variable {text : List Char} {c : Char}

theorem tail (h : EndsLine (c :: text)) (hne : text ≠ []) : EndsLine text := by
  rwa [EndsLine, getLast?_cons_of_ne_nil hne] at h

theorem drop (h : EndsLine text) {n : Nat} (hn : n < text.length) : EndsLine (text.drop n) := by
  rw [EndsLine, getLast?_drop, if_neg (by omega)]
  exact h

end EndsLine

/-- Nothing follows, or the end of a line. -/
def LineEnd (rest : List Char) : Prop := ∀ c ∈ rest.head?, c = '\n' ∨ c = '\r'

/-- The text breaks off here. -/
def Broken (rest : List Char) : Prop := rest = [] ∨ rest = ['\n'] ∨ rest = ['\r']

theorem Broken.lineEnd {rest : List Char} (h : Broken rest) : LineEnd rest := by
  obtain rfl | rfl | rfl := h
  · exact fun _ hc => absurd hc (Option.not_mem_none _)
  · exact fun c hc => .inl (Option.some.inj hc).symm
  · exact fun c hc => .inr (Option.some.inj hc).symm

namespace LineEnd

variable {rest : List Char} {p : Char → Bool}

theorem head {c : Char} (h : LineEnd (c :: rest)) : c = '\n' ∨ c = '\r' := h c rfl

/-- A run that does not go over the end of a line. -/
theorem takeWhile_append (h : LineEnd rest) (hp : p '\n' = false ∧ p '\r' = false) (text : List Char) :
    (text ++ rest).takeWhile p = text.takeWhile p := by
  induction text with
  | nil =>
    cases rest with
    | nil => rfl
    | cons c rest => obtain rfl | rfl := h.head <;> simp [hp]
  | cons c text ih => simp only [cons_append, takeWhile_cons, ih]

theorem dropWhile_append (h : LineEnd rest) (hp : p '\n' = false ∧ p '\r' = false) (text : List Char) :
    (text ++ rest).dropWhile p = text.dropWhile p ++ rest := by
  have hsplit := takeWhile_append_dropWhile (p := p) (l := text ++ rest)
  rw [h.takeWhile_append hp] at hsplit
  refine append_cancel_left (hsplit.trans ?_)
  rw [← append_assoc, takeWhile_append_dropWhile]

/-- What does not end a line stands before its end. -/
theorem head_of_append {x : Char} {text tail : List Char} (h : LineEnd rest) (hx : x ≠ '\n' ∧ x ≠ '\r')
    (heq : text ++ rest = x :: tail) : ∃ more, text = x :: more ∧ tail = more ++ rest := by
  rcases text with _ | ⟨d, text⟩
  · obtain rfl | rfl := h x (by rw [← nil_append rest, heq]; rfl)
    · exact absurd rfl hx.1
    · exact absurd rfl hx.2
  · obtain ⟨rfl, rfl⟩ := cons.inj heq
    exact ⟨text, rfl, rfl⟩

end LineEnd

/-! ### Lexemes -/

namespace Lexeme

variable {text rest rest' : List Char} {c : Char} {kind : TokenKind}

theorem word_append (h : LineEnd rest) (text : List Char) : word (text ++ rest) = word text := by
  unfold word
  rw [h.takeWhile_append (by decide)]

theorem hexNumber_append (h : LineEnd rest) (text : List Char) : hexNumber (text ++ rest) = hexNumber text := by
  unfold hexNumber
  rw [h.takeWhile_append (by decide)]

namespace Numeral

theorem takeFraction_append (h : LineEnd rest) (text : List Char) :
    takeFraction (text ++ rest) = takeFraction text := by
  rcases text with _ | ⟨c, _ | ⟨d, more⟩⟩
  · rcases rest with _ | ⟨x, rest⟩
    · rfl
    · obtain rfl | rfl := h.head <;> rfl
  · rcases rest with _ | ⟨x, rest⟩
    · rfl
    · obtain rfl | rfl := h.head <;> by_cases hc : c = '.' <;> simp [takeFraction, hc, isDigit]
  · by_cases hc : c = '.'
    · subst hc
      simp only [cons_append, takeFraction]
      rw [← cons_append, h.takeWhile_append (by decide)]
    · simp [takeFraction, hc]

theorem takePower_append (h : LineEnd rest) (text : List Char) : takePower (text ++ rest) = takePower text := by
  rcases text with _ | ⟨c, _ | ⟨d, _ | ⟨e, more⟩⟩⟩
  · rcases rest with _ | ⟨x, _ | ⟨y, rest⟩⟩
    · rfl
    · rfl
    · obtain rfl | rfl := h.head <;> simp [takePower]
  · rcases rest with _ | ⟨x, rest⟩
    · rfl
    · obtain rfl | rfl := h.head <;> simp [takePower, isDigit]
  · rcases rest with _ | ⟨x, rest⟩
    · rfl
    · have hrun := h.takeWhile_append (p := isDigit) (by decide) [d]
      simp only [cons_append, nil_append] at hrun
      obtain rfl | rfl := h.head <;> simp [takePower, isDigit, hrun]
  · simp only [cons_append, takePower]
    rw [← cons_append, h.takeWhile_append (by decide), ← cons_append, h.takeWhile_append (by decide)]

theorem take_append (h : LineEnd rest) (text : List Char) : take (text ++ rest) = take text := by
  have hdigit : isDigit '\n' = false ∧ isDigit '\r' = false := by decide
  unfold take
  simp only [h.takeWhile_append hdigit, h.dropWhile_append hdigit, takeFraction_append h]
  cases hfraction : takeFraction (text.dropWhile isDigit) with
  | none => simp only [drop_zero, takePower_append h]
  | some digits =>
    obtain ⟨⟨back, hsplit⟩, _⟩ := takeFraction_some hfraction
    have hused (tail : List Char) : ('.' :: digits ++ tail).drop (digits.length + 1) = tail := drop_left
    simp only [hsplit, append_assoc, hused, takePower_append h]

end Numeral

theorem decimalNumber_append (h : LineEnd rest) (text : List Char) :
    decimalNumber (text ++ rest) = decimalNumber text := by
  unfold decimalNumber
  rw [Numeral.take_append h]

theorem number_append (h : LineEnd rest) (text : List Char) : number (c :: text ++ rest) = number (c :: text) := by
  by_cases hc : c = '0'
  · subst hc
    rcases text with _ | ⟨x, more⟩
    · rcases rest with _ | ⟨x, rest⟩
      · rfl
      · have hx : (x = 'x' || x = 'X') = false := by obtain rfl | rfl := h.head <;> rfl
        have hplain := decimalNumber_append h ['0']
        simp only [cons_append, nil_append] at hplain
        simp only [cons_append, nil_append, number, hx, hplain]
        rfl
    · simp only [cons_append, number]
      split
      · exact hexNumber_append h more
      · exact decimalNumber_append h ('0' :: x :: more)
  · have hplain (more : List Char) : number (c :: more) = decimalNumber (c :: more) := by
      unfold number
      split
      · rename_i heq
        exact absurd (cons.inj heq).1 hc
      · rfl
    rw [cons_append, hplain, hplain]
    exact decimalNumber_append h (c :: text)

theorem ne_backslash {more : List Char} (hlone : c = '\\' → more = [] → False)
    (hescape : ∀ (e : Char) (rest : List Char), c = '\\' → more = e :: rest → False) : c ≠ '\\' := by
  intro hc
  cases more with
  | nil => exact hlone hc rfl
  | cons e rest => exact hescape e rest hc rfl

/-- What breaks off at the end of a line holds no quote. -/
theorem closeCharacter_swap {used : Nat} (hrest : Broken rest)
    (h : (closeCharacter c used (text ++ rest)).outcome = .ok kind) (rest' : List Char) :
    closeCharacter c used (text ++ rest') = closeCharacter c used (text ++ rest) := by
  unfold closeCharacter at h ⊢
  split
  · rfl
  · rename_i hascii
    rw [if_neg hascii] at h
    rcases text with _ | ⟨d, text⟩
    · obtain rfl | rfl | rfl := hrest <;> cases h
    · simp only [cons_append] at h ⊢
      split at h
      · rename_i heq
        obtain ⟨rfl, _⟩ := cons.inj heq
        rfl
      · cases h
      · cases h

theorem character_swap (hrest : Broken rest) (h : (character (text ++ rest)).outcome = .ok kind)
    (rest' : List Char) : character (text ++ rest') = character (text ++ rest) := by
  rcases text with _ | ⟨q, _ | ⟨c, text⟩⟩
  · obtain rfl | rfl | rfl := hrest <;> cases h
  · obtain rfl | rfl | rfl := hrest <;> cases h
  · simp only [cons_append] at h ⊢
    by_cases hc : c = '\\'
    · subst hc
      rcases text with _ | ⟨e, text⟩
      · obtain rfl | rfl | rfl := hrest <;> cases h
      · simp only [cons_append, character] at h ⊢
        cases hescape : unescape e with
        | none => rfl
        | some c =>
          rw [hescape] at h
          exact closeCharacter_swap hrest h rest'
    · by_cases hplain : c = '\n' ∨ c = '\''
      · obtain rfl | rfl := hplain <;> cases h
      · have hclose (more : List Char) : character (q :: c :: more) = closeCharacter c 2 more := by
          unfold character
          split <;> simp_all
        rw [hclose] at h ⊢
        rw [hclose]
        exact closeCharacter_swap hrest h rest'

/-- Three quotes at the front of a text do not go over its end. -/
theorem quotes_append (h : LineEnd rest) (text : List Char) :
    ['"', '"', '"'].isPrefixOf (text ++ rest) = ['"', '"', '"'].isPrefixOf text := by
  rcases text with _ | ⟨c, _ | ⟨d, _ | ⟨e, more⟩⟩⟩
  case cons.cons.cons => simp [isPrefixOf]
  all_goals
    rcases rest with _ | ⟨x, rest⟩
    · rfl
    · obtain rfl | rfl := h.head <;> simp [isPrefixOf]

/-- The inside of a string at a character that is no backslash. -/
theorem stringBody_cons (hc : c ≠ '\\') (h : LineEnd rest) (triple : Bool) (used : Nat) (soFar more : List Char) :
    stringBody triple used soFar (c :: more ++ rest) = if !triple && c = '\n' then fail .unterminatedString 0 used
      else if !triple && c = '"' then ok (.string (String.ofList soFar.reverse)) (used + 1)
      else if triple && ['"', '"', '"'].isPrefixOf (c :: more) then
        ok (.string (String.ofList soFar.reverse)) (used + 3)
      else stringBody triple (used + 1) (c :: soFar) (more ++ rest) := by
  rw [cons_append, stringBody, ← cons_append, quotes_append h]
  · exact fun h => absurd h hc
  · exact fun _ _ h => absurd h hc

theorem stringBody_swap {triple : Bool} {used : Nat} {soFar : List Char} (hrest : Broken rest)
    (hrest' : LineEnd rest') (h : (stringBody triple used soFar (text ++ rest)).outcome = .ok kind) :
    stringBody triple used soFar (text ++ rest') = stringBody triple used soFar (text ++ rest) := by
  have hends := hrest.lineEnd
  fun_induction stringBody triple used soFar text with
  | case1 => obtain rfl | rfl | rfl := hrest <;> cases triple <;> cases h
  | case2 => obtain rfl | rfl | rfl := hrest <;> cases h
  | case3 used soFar e more c hescape ih =>
    simp only [cons_append, stringBody, hescape] at h ⊢
    exact ih h
  | case4 used soFar e more hescape =>
    simp only [cons_append, stringBody, hescape] at h
    cases h
  | case5 used soFar c more hlone hescape hend =>
    rw [stringBody_cons (ne_backslash hlone hescape) hends, if_pos hend] at h
    cases h
  | case6 used soFar c more hlone hescape hend hquote =>
    have hc := ne_backslash hlone hescape
    simp only [stringBody_cons hc hends, stringBody_cons hc hrest', if_neg hend, if_pos hquote]
  | case7 used soFar c more hlone hescape hend hquote hquotes =>
    have hc := ne_backslash hlone hescape
    simp only [stringBody_cons hc hends, stringBody_cons hc hrest', if_neg hend, if_neg hquote, if_pos hquotes]
  | case8 used soFar c more hlone hescape hend hquote hquotes ih =>
    have hc := ne_backslash hlone hescape
    simp only [stringBody_cons hc hends, stringBody_cons hc hrest', if_neg hend, if_neg hquote, if_neg hquotes] at h ⊢
    exact ih h

theorem string_swap (hrest : Broken rest) (hrest' : LineEnd rest')
    (h : (string (c :: text ++ rest)).outcome = .ok kind) :
    string (c :: text ++ rest') = string (c :: text ++ rest) := by
  by_cases htriple : ∃ more, text = '"' :: '"' :: more
  · obtain ⟨more, rfl⟩ := htriple
    exact stringBody_swap hrest hrest' h
  · have hplain {rest : List Char} (hrest : LineEnd rest) :
        string (c :: text ++ rest) = stringBody false 1 [] (text ++ rest) := by
      rcases text with _ | ⟨d, _ | ⟨e, text⟩⟩
      · rcases rest with _ | ⟨x, rest⟩
        · rfl
        · obtain rfl | rfl := hrest.head <;> rfl
      · rcases rest with _ | ⟨x, rest⟩
        · simp [string]
        · obtain rfl | rfl := hrest.head <;> simp [string]
      · have hne : ¬(d = '"' ∧ e = '"') := fun h => htriple ⟨text, by rw [h.1, h.2]⟩
        unfold string
        split <;> simp_all
    rw [hplain hrest.lineEnd] at h ⊢
    rw [hplain hrest']
    exact stringBody_swap hrest hrest' h

theorem longestSymbol_swap {s : Symbol} (hrest : LineEnd rest) (hrest' : LineEnd rest')
    (h : longestSymbol (c :: text ++ rest) = some s) : longestSymbol (c :: text ++ rest') = some s := by
  -- Both texts begin with the same signs.
  have hsame {x : Char} (hx : x ≠ '\n' ∧ x ≠ '\r') (hno : ∀ tail, text ++ rest = x :: tail → False)
      (tail : List Char) : text ++ rest' ≠ x :: tail := by
    intro heq
    obtain ⟨more, rfl, _⟩ := hrest'.head_of_append hx heq
    exact hno _ rfl
  rw [cons_append] at h ⊢
  generalize hwhole : text ++ rest = whole at h hsame
  unfold longestSymbol at h
  split at h <;> cases h <;> rename_i heq <;> cases heq <;> try rfl
  case h_22 =>
    obtain ⟨more, rfl, hmore⟩ := hrest.head_of_append (by decide) hwhole
    obtain ⟨more, rfl, _⟩ := hrest.head_of_append (by decide) hmore.symm
    rfl
  case h_23 hno =>
    rw [longestSymbol]
    intro tail heq
    obtain ⟨more, rfl, hmore⟩ := hrest'.head_of_append (by decide) heq
    obtain ⟨more, rfl, _⟩ := hrest'.head_of_append (by decide) hmore.symm
    exact hno _ hwhole.symm
  all_goals
    first
      | (obtain ⟨more, rfl, _⟩ := hrest.head_of_append (by decide) hwhole
         rfl)
      | (rw [longestSymbol] <;> exact fun tail => hsame (by decide) (by assumption) tail)

theorem operator_swap (hrest : LineEnd rest) (hrest' : LineEnd rest')
    (h : (operator (c :: text ++ rest)).outcome = .ok kind) :
    operator (c :: text ++ rest') = operator (c :: text ++ rest) := by
  cases hsymbol : longestSymbol (c :: text ++ rest) with
  | none =>
    simp only [cons_append] at h hsymbol
    simp only [operator, hsymbol] at h
    cases h
  | some s =>
    have hsymbol' := longestSymbol_swap hrest hrest' hsymbol
    simp only [cons_append] at hsymbol hsymbol' ⊢
    simp only [operator, hsymbol, hsymbol']

theorem ofText_swap (hrest : Broken rest) (hrest' : LineEnd rest')
    (h : (ofText (c :: text ++ rest)).outcome = .ok kind) :
    ofText (c :: text ++ rest') = ofText (c :: text ++ rest) := by
  have hends := hrest.lineEnd
  simp only [cons_append, ofText] at h ⊢
  split
  · exact (word_append hrest' (c :: text)).trans (word_append hends (c :: text)).symm
  · rename_i hword
    rw [if_neg hword] at h
    split
    · exact (number_append hrest' text).trans (number_append hends text).symm
    · rename_i hdigit
      rw [if_neg hdigit] at h
      split
      · rename_i hquote
        rw [if_pos hquote] at h
        rw [← cons_append] at h ⊢
        exact character_swap hrest h rest'
      · rename_i hquote
        rw [if_neg hquote] at h
        split
        · rename_i hquotes
          rw [if_pos hquotes] at h
          exact string_swap hrest hrest' h
        · rename_i hquotes
          rw [if_neg hquotes] at h
          exact operator_swap hends hrest' h

end Lexeme

/-! ### Layout -/

/-- A token is read the same, however the text goes on behind the end of its line. A run of newlines has to end
before that. -/
theorem Scanner.front_swap {text rest rest' : List Char} {kind : TokenKind} (hrest : Broken rest)
    (hrest' : LineEnd rest') (hne : text ≠ []) (h : (front (text ++ rest)).outcome = .ok kind)
    (hshort : kind = .newline → ∃ c ∈ text, c ≠ '\n') : front (text ++ rest') = front (text ++ rest) := by
  have hends := hrest.lineEnd
  obtain ⟨c, text, rfl⟩ := exists_cons_of_ne_nil hne
  have hblank : isBlank '\n' = false ∧ isBlank '\r' = false := by decide
  simp only [cons_append, front] at h ⊢
  split
  · simp only [← cons_append, hrest'.takeWhile_append hblank, hends.takeWhile_append hblank]
  · rename_i hc
    rw [if_neg hc] at h
    split
    · rename_i hnewline
      rw [if_pos hnewline] at h
      cases h
      obtain ⟨d, hd, hother⟩ := hshort rfl
      have hrun (more : List Char) :
          (c :: text ++ more).takeWhile (· == '\n') = (c :: text).takeWhile (· == '\n') := by
        rw [takeWhile_append, if_neg]
        intro hfull
        have hall := ( takeWhile_prefix (· == '\n')).eq_of_length hfull
        exact hother (beq_iff_eq.mp (mem_takeWhile_imp (p := (· == '\n')) (hall.symm ▸ hd)))
      simp only [← cons_append, hrun]
    · rename_i hnewline
      rw [if_neg hnewline] at h
      exact Lexeme.ofText_swap hrest hrest' h

theorem Scanner.front_newlines {text rest : List Char} (hne : text ≠ []) (h : ∀ c ∈ text, c = '\n')
    (hrest : ∀ c ∈ rest.head?, c ≠ '\n') : front (text ++ rest) = .ok .newline text.length := by
  obtain ⟨c, text, rfl⟩ := exists_cons_of_ne_nil hne
  obtain rfl := h c mem_cons_self
  have hrun : ('\n' :: (text ++ rest)).takeWhile (· == '\n') = '\n' :: text :=
    takeWhile_append_eq (fun c hc => beq_iff_eq.mpr (h c hc)) fun c hc => by simpa using hrest c hc
  rw [cons_append, front, if_neg (by decide), if_pos rfl, hrun]

/-- So is what carries no meaning, unless a backslash at the end comes to continue the line. -/
theorem triviaLength_swap {blanks newlines comment : Bool} {text rest : List Char}
    (hshort : triviaLength blanks newlines comment (text ++ rest) < text.length)
    (hlone : text.drop (triviaLength blanks newlines comment (text ++ rest)) ≠ ['\\']) (rest' : List Char) :
    triviaLength blanks newlines comment (text ++ rest') = triviaLength blanks newlines comment (text ++ rest) := by
  -- A backslash that is not the last character continues its line or does not, whatever follows.
  have hplain {c : Char} {more : List Char} (hnewline : c = '\n' → False) (hnote : c = '#' → False)
      (hcontinued : ∀ tail, c = '\\' → more = '\n' :: tail → False)
      (hshort : triviaLength blanks newlines false (c :: more ++ rest) < (c :: more).length)
      (hlone : (c :: more).drop (triviaLength blanks newlines false (c :: more ++ rest)) ≠ ['\\'])
      (tail : List Char) : triviaLength blanks newlines false (c :: more ++ tail) =
        if blanks && isBlank c then triviaLength blanks newlines false (more ++ tail) + 1 else 0 := by
    rw [cons_append, triviaLength]
    · exact hnewline
    · exact hnote
    · rintro tail rfl heq
      cases more with
      | nil =>
        rw [Nat.lt_one_iff.mp hshort] at hlone
        exact hlone rfl
      | cons d more => exact hcontinued more rfl (by rw [(cons.inj heq).1])
  fun_induction triviaLength blanks newlines comment text with
  | case1 => cases hshort
  | case2 comment more hnewlines ih =>
    simp only [cons_append, triviaLength, if_pos hnewlines] at hshort hlone ⊢
    rw [ih (Nat.lt_of_succ_lt_succ hshort) hlone]
  | case3 comment more hnewlines => simp only [cons_append, triviaLength, if_neg hnewlines]
  | case4 c more hc ih =>
    simp only [cons_append, triviaLength] at hshort hlone ⊢
    rw [ih (Nat.lt_of_succ_lt_succ hshort) hlone]
  | case5 more ih =>
    simp only [cons_append, triviaLength] at hshort hlone ⊢
    rw [ih (Nat.lt_of_succ_lt_succ hshort) hlone]
  | case6 more ih =>
    simp only [cons_append, triviaLength] at hshort hlone ⊢
    rw [ih (Nat.lt_of_succ_lt_succ (Nat.lt_of_succ_lt_succ hshort)) hlone]
  | case7 c more hnewline hnote hcontinued hblank ih =>
    have hstep := hplain hnewline hnote hcontinued hshort hlone
    simp only [hstep, if_pos hblank, length_cons, drop_succ_cons] at hshort hlone ⊢
    rw [ih (Nat.lt_of_succ_lt_succ hshort) hlone]
  | case8 c more hnewline hnote hcontinued hblank =>
    have hstep := hplain hnewline hnote hcontinued hshort hlone
    rw [hstep, hstep, if_neg hblank, if_neg hblank]

end Offside
