import Offside.Proofs.Grammar.Exact
import Offside.Proofs.Grammar.Readers
import Offside.Proofs.Token.Coverage
import Offside.Proofs.Tree.Spelling
import Offside.Proofs.Tree.Written

/-! Printed expressions have no parentheses to spare.

The argument counts opening parentheses. A token says how many of them stand in any text it is written as
(`TokenKind.opens`), so a text has at least as many as its tokens (`Cursor.openings_ofText`), and a printed
expression as many as its tokens say. No row of tokens that reads as an expression has fewer than the row that
the printer writes for it (`Derives.openings_le`): where the grammar takes an operand without parentheses, the
printer writes none. So no text with fewer of them is read as that expression (`Expr.print_parens_needed`). -/
namespace Offside

open Text Number List

/-! ### Opening parentheses of texts -/

/-- How many opening parentheses a token is written with. -/
def TokenKind.opens : TokenKind → Nat
  | .symbol .leftParen => 1
  | .char c => [c].count '('
  | .string s => s.toList.count '('
  | _ => 0

theorem unescape_ne_paren {e c : Char} (h : unescape e = some c) : e ≠ '(' ∧ c ≠ '(' := by
  unfold unescape at h
  split at h <;> cases h <;> decide

theorem Escaped.count_paren {plain : Char → Prop} {written meant : List Char}
    (h : Escaped plain written meant) : written.count '(' = meant.count '(' := by
  induction h with
  | nil => rfl
  | plain _ _ _ ih => rw [count_cons, count_cons, ih]
  | letter he _ ih =>
    obtain ⟨hwritten, hmeant⟩ := unescape_ne_paren he
    rw [count_cons_of_ne (by decide), count_cons_of_ne hwritten, count_cons_of_ne hmeant, ih]

theorem count_paren_eq_zero {p : Char → Bool} (hp : p '(' = false) {text : List Char}
    (h : ∀ c ∈ text, p c) : text.count '(' = 0 := by
  refine count_eq_zero.mpr fun hmem => ?_
  rw [h '(' hmem] at hp
  cases hp

/-- Characters of a numeral with a point and an exponent. -/
def isNumeralPart (c : Char) : Bool := isDigit c || c == '.' || c == 'e' || c == 'E' || c == '+' || c == '-'

theorem Lexeme.Numeral.Written.parts {n : Numeral} (h : n.Written) {mark : Char}
    (hmark : mark = 'e' ∨ mark = 'E') : ∀ c ∈ n.textWith mark, isNumeralPart c := by
  have hdigit {c : Char} (hc : isDigit c) : isNumeralPart c := by simp [isNumeralPart, hc]
  have hpart : isNumeralPart mark := by rcases hmark with rfl | rfl <;> decide
  unfold textWith fractionText powerText
  refine forall_mem_append.mpr ⟨forall_mem_append.mpr ⟨fun c hc => hdigit (h.whole.2 c hc), ?_⟩, ?_⟩
  · cases hfraction : n.fraction with
    | none => exact forall_mem_nil _
    | some digits =>
      exact forall_mem_cons.mpr ⟨by decide, fun c hc => hdigit ((h.fraction digits hfraction).2 c hc)⟩
  · cases hpower : n.power with
    | none => exact forall_mem_nil _
    | some power =>
      obtain ⟨sign, digits⟩ := power
      obtain ⟨hsign, -, hdigits⟩ := h.power sign digits hpower
      cases sign with
      | none => exact forall_mem_cons.mpr ⟨hpart, fun c hc => hdigit (hdigits c hc)⟩
      | some sign =>
        refine forall_mem_cons.mpr ⟨hpart, forall_mem_cons.mpr ⟨?_, fun c hc => hdigit (hdigits c hc)⟩⟩
        rcases hsign sign rfl with rfl | rfl <;> decide

/-- Whatever a token is written as, the opening parentheses in it are as many. -/
theorem TokenKind.Writes.count_paren {kind : TokenKind} {text : List Char} (h : kind.Writes text) :
    text.count '(' = kind.opens := by
  cases h with
  | keyword k => cases k <;> rfl
  | symbol s => cases s <;> rfl
  | identifier h => exact count_paren_eq_zero (p := isWordPart) (by decide) h.parts
  | decimal h => exact count_paren_eq_zero (p := isDigit) (by decide) h
  | hexadecimal hx h =>
    have hdigits := count_paren_eq_zero (p := isHexDigit) (by decide) h
    rcases hx with rfl | rfl <;> rw [count_cons_of_ne (by decide), count_cons_of_ne (by decide), hdigits] <;> rfl
  | float hwritten _ hmark => exact count_paren_eq_zero (p := isNumeralPart) (by decide) (hwritten.parts hmark)
  | char _ h =>
    rw [cons_append, count_cons_of_ne (by decide), count_append, h.count_paren]
    rfl
  | string triple h =>
    have hquotes : (stringQuotes triple).count '(' = 0 := by cases triple <;> rfl
    rw [count_append, count_append, hquotes, h.count_paren, opens, String.toList_ofList]
    omega
  | whitespace _ h => exact count_paren_eq_zero (p := isBlank) (by decide) h
  | newline _ h => exact count_paren_eq_zero (p := (· == '\n')) (by decide) fun c hc => by simp [h c hc]
  | endOfFile => rfl

/-! ### Opening parentheses of rows -/

/-- How many opening parentheses a row of tokens is written with. -/
def openings (kinds : List TokenKind) : Nat := (kinds.map TokenKind.opens).sum

@[simp] theorem openings_nil : openings [] = 0 := rfl

@[simp] theorem openings_cons (k : TokenKind) (ks : List TokenKind) : openings (k :: ks) = k.opens + openings ks := by
  simp [openings]

@[simp] theorem openings_append (ks ls : List TokenKind) : openings (ks ++ ls) = openings ks + openings ls := by
  simp [openings]

theorem openings_inParens (needed : Bool) (ks : List TokenKind) :
    openings (Tokens.inParens needed ks) = openings ks + if needed then 1 else 0 := by
  cases needed with
  | false => rfl
  | true =>
    simp [Tokens.inParens, Tokens.between, TokenKind.opens]
    omega

/-- Blocks are opened and closed without parentheses. -/
theorem Indentation.openings_push (s : Indentation) (m : MarkedToken) :
    openings ((s.push m).out.map Token.kind) ≤ m.token.kind.opens := by
  have hdedents (n : Nat) (l : Location) : openings ((replicate n (Token.atPoint .dedent l)).map Token.kind) = 0 := by
    induction n with
    | zero => rfl
    | succ n ih =>
      rw [replicate_succ, map_cons, openings_cons, ih]
      rfl
  have hclosing (n : Nat) (l : Location) : openings
      ((replicate n (Token.atPoint .dedent l) ++ [m.token]).map Token.kind) ≤ m.token.kind.opens := by
    rw [map_append, openings_append, hdedents]
    simp
  unfold push closeTo
  dsimp only
  split
  · exact Nat.zero_le _
  · split <;> simp
  · split
    · split
      · exact Nat.zero_le _
      · simp [Token.atPoint, TokenKind.opens]
    · split
      · exact hclosing _ _
      · split
        · split
          · exact Nat.zero_le _
          · split
            · split
              · exact hclosing _ _
              · exact Nat.zero_le _
            · simp
        · simp

theorem Scanner.opens_next {s after : Scanner} {t : Token} (h : s.next = (.ok t, after)) :
    t.kind.opens + after.rest.count '(' ≤ s.rest.count '(' := by
  obtain ⟨kind, hfront, rfl, rfl⟩ := next_ok h
  obtain ⟨front', back, hsplit, hlength, hwrites⟩ := front_finds _ kind hfront
  have hafter : ((s.skipTrivia.advance (front s.skipTrivia.rest).length).note kind).rest = back := by
    have hnote (s : Scanner) : (s.note kind).rest = s.rest := by
      unfold note
      split <;> rfl
    rw [hnote, advance_rest, hlength, hsplit, drop_left]
  have hskip : s.skipTrivia.rest.count '(' ≤ s.rest.count '(' := by
    unfold skipTrivia
    rw [advance_rest]
    exact (drop_sublist _ _).count_le _
  rw [hafter, ← hwrites.count_paren, ← count_append, ← hsplit]
  exact hskip

theorem TokenStream.openings_collect (fuel : Nat) (scanner : Scanner) (layout : Layout) :
    openings ((collect fuel scanner layout).1.map Token.kind) ≤ scanner.rest.count '(' := by
  induction fuel generalizing scanner layout with
  | zero => exact Nat.zero_le _
  | succ fuel ih =>
    rw [collect_succ]
    cases hnext : scanner.next with
    | mk outcome after =>
    cases outcome with
    | error failure => exact Nat.zero_le _
    | ok t =>
      have hstep := Scanner.opens_next hnext
      have hout : openings ((layout.push t).2.1.out.map Token.kind) ≤ t.kind.opens := by
        rw [Layout.push_eq]
        have hpush := layout.indentation.openings_push (layout.line.mark t).1
        rwa [LineState.mark_token] at hpush
      dsimp only
      cases (layout.push t).2.1.failure with
      | some failure => exact Nat.zero_le _
      | none =>
        dsimp only
        split
        · exact hout.trans (by omega)
        · have hmore := ih after (layout.push t).2.2
          rw [map_append, openings_append]
          omega

theorem count_foldLineEnds (text : List Char) : (foldLineEnds text).count '(' = text.count '(' := by
  induction text using foldLineEnds.induct with
  | case1 rest ih =>
    rw [foldLineEnds, count_cons_of_ne (by decide), count_cons_of_ne (by decide), count_cons_of_ne (by decide), ih]
  | case2 c rest hfold ih =>
    rw [foldLineEnds, count_cons, count_cons, ih]
    exact hfold
  | case3 => rfl

/-- A text has at least as many opening parentheses as its tokens. -/
theorem Cursor.openings_ofText (file text : String) :
    openings (Cursor.ofText file text).kinds ≤ text.toList.count '(' := by
  have hcollect := TokenStream.openings_collect ((Scanner.ofText file text).rest.length + 1)
    (Scanner.ofText file text) {}
  have hrest : (Scanner.ofText file text).rest.count '(' = text.toList.count '(' := count_foldLineEnds _
  rw [hrest] at hcollect
  exact hcollect

/-! ### Opening parentheses of phrases -/

/-- The row that the printer writes for a phrase. -/
def Phrase.tokens : Phrase → List TokenKind
  | .expr level e => Tokens.inParens (e.level < level) e.tokens
  | .items es => Tokens.commaSeparated (Expr.tokensList es)
  | .type t | .param t => t.tokens
  | .base t => t.suffixBaseTokens t.tokens
  | .params ts => Tokens.commaSeparated (TypeExpr.tokensList ts)

theorem openings_between {opening closing : Symbol} (hclosing : closing ≠ .leftParen) (ks : List TokenKind) :
    openings (Tokens.between opening closing ks) = (TokenKind.symbol opening).opens + openings ks := by
  have hclosing : (TokenKind.symbol closing).opens = 0 := by
    cases closing <;> first | rfl | exact absurd rfl hclosing
  simp [Tokens.between, hclosing]

theorem openings_suffixBase (t : TypeExpr) (ks : List TokenKind) :
    openings (t.suffixBaseTokens ks) = openings ks := by
  unfold TypeExpr.suffixBaseTokens
  split
  · rw [openings_between (by decide)]
    exact Nat.zero_add _
  · rfl

/-- Commas open nothing. -/
theorem openings_commaSeparated_cons (row : List TokenKind) (rows : List (List TokenKind)) :
    openings (Tokens.commaSeparated (row :: rows)) = openings row + openings (Tokens.commaSeparated rows) := by
  cases rows with
  | nil =>
    rw [Tokens.commaSeparated_single]
    rfl
  | cons other rows =>
    rw [Tokens.commaSeparated_cons_cons, openings_append, openings_cons]
    exact congrArg _ (Nat.zero_add _)

/-- An operand that is asked to bind tighter has no fewer parentheses. -/
theorem openings_inParens_mono {a : Expr} {level least : Nat} (h : least ≤ level) :
    openings (Tokens.inParens (a.level < least) a.tokens) ≤
      openings (Tokens.inParens (a.level < level) a.tokens) := by
  rw [openings_inParens, openings_inParens]
  split <;> split <;> simp_all
  omega

/-- An operand stands without parentheses where it binds tightly enough. -/
theorem openings_phrase_expr {a : Expr} {level : Nat} (h : level ≤ a.level) :
    openings (Phrase.expr level a).tokens = openings a.tokens := by
  rw [Phrase.tokens, openings_inParens, if_neg (by simpa using h)]
  rfl

theorem TokenKind.tokens_of_atom {k : TokenKind} {a : Expr} (h : k.atom = some a) :
    a.tokens = [k] ∧ a.level = primaryLevel := by
  cases k with
  | keyword word =>
    cases word
    case null_ =>
      cases h
      exact ⟨rfl, rfl⟩
    all_goals cases h
  | int | float | char | string | identifier =>
    cases h
    exact ⟨rfl, rfl⟩
  | _ => cases h

/-- **No row that stands for a phrase has fewer opening parentheses than the row that the printer writes.** -/
theorem Derives.openings_le {phrase : Phrase} {w : List TokenKind} (h : Derives phrase w) :
    openings phrase.tokens ≤ openings w := by
  induction h with
  | @binary op a b v w _ _ ihl ihr =>
    rw [openings_phrase_expr (Nat.le_refl op.level), Expr.tokens]
    simp only [Phrase.tokens, openings_append, openings_cons] at *
    omega
  | loosen _ ih => exact (openings_inParens_mono (Nat.le_succ _)).trans ih
  | @prefixed op a w hop _ ih =>
    have hlevel : (Expr.unary .bare op a).level = prefixLevel := by simp [Expr.level, hop]
    rw [openings_phrase_expr hlevel.ge, Expr.tokens, hop]
    simp only [Phrase.tokens, Bool.false_eq_true, if_false, openings_cons] at *
    omega
  | cast _ _ iht ihe =>
    rw [openings_phrase_expr (Nat.le_refl prefixLevel), Expr.tokens, openings_append, openings_append,
      openings_between (by decide), openings_between (by decide)]
    simp only [Phrase.tokens] at *
    omega
  | @stepped op a w hop _ ih =>
    have hlevel : (Expr.unary .bare op a).level = postfixLevel := by simp [Expr.level, hop]
    rw [openings_phrase_expr hlevel.ge, Expr.tokens, hop]
    simp only [Phrase.tokens, if_true, openings_append] at *
    omega
  | call _ _ ihf iha =>
    rw [openings_phrase_expr (Nat.le_refl postfixLevel), Expr.tokens, openings_append, openings_append,
      openings_between (by decide), openings_between (by decide)]
    simp only [Phrase.tokens] at *
    omega
  | @index a i _ _ _ _ iho ihi =>
    rw [openings_phrase_expr i.level_pos] at ihi
    rw [openings_phrase_expr (Nat.le_refl postfixLevel), Expr.tokens, openings_append, openings_append,
      openings_between (by decide), openings_between (by decide)]
    simp only [Phrase.tokens] at *
    omega
  | member _ ih =>
    rw [openings_phrase_expr (Nat.le_refl postfixLevel), Expr.tokens, openings_append, openings_append]
    simp only [Phrase.tokens] at *
    omega
  | atom hk =>
    obtain ⟨htokens, hlevel⟩ := TokenKind.tokens_of_atom hk
    rw [openings_phrase_expr hlevel.ge, htokens]
  | @parens a w _ ih =>
    -- The pair that is read makes up for the pair that the printer may write.
    rw [openings_phrase_expr a.level_pos] at ih
    have hpair : (TokenKind.symbol .leftParen).opens = 1 := rfl
    rw [Phrase.tokens, openings_inParens, openings_between (by decide), hpair]
    split <;> omega
  | array _ ih =>
    rw [openings_phrase_expr (Nat.le_refl primaryLevel), Expr.tokens, openings_between (by decide),
      openings_between (by decide)]
    exact Nat.add_le_add_left ih _
  | sizeof _ ih =>
    rw [openings_phrase_expr (Nat.le_refl primaryLevel), Expr.tokens, openings_cons, openings_cons,
      openings_between (by decide), openings_between (by decide)]
    exact Nat.add_le_add_left (Nat.add_le_add_left ih _) _
  | noItems | noParams | typeName | dots => exact Nat.le_refl _
  | @lastItem a _ _ ih =>
    rw [openings_phrase_expr a.level_pos] at ih
    rw [Phrase.tokens, Expr.tokensList, openings_commaSeparated_cons]
    exact ih
  | @item a _ _ _ _ _ iha ihas =>
    rw [openings_phrase_expr a.level_pos] at iha
    rw [Phrase.tokens, Expr.tokensList, openings_commaSeparated_cons, openings_append, openings_cons]
    simp only [Phrase.tokens] at ihas
    omega
  | braces _ ih =>
    rw [Phrase.tokens, openings_suffixBase, openings_between (by decide)]
    exact ih.trans (Nat.le_add_left _ _)
  | pointer _ ih =>
    rw [Phrase.tokens, openings_suffixBase, TypeExpr.tokens, openings_append, openings_append]
    exact Nat.add_le_add_right ih _
  | @sized _ n _ _ _ _ iht ihn =>
    rw [openings_phrase_expr n.level_pos] at ihn
    rw [Phrase.tokens, openings_suffixBase, TypeExpr.tokens, openings_append, openings_append,
      openings_between (by decide), openings_between (by decide)]
    simp only [Phrase.tokens] at iht
    omega
  | plain _ ih =>
    rw [Phrase.tokens, openings_suffixBase] at ih
    exact ih
  | function _ _ ihp ihr =>
    rw [Phrase.tokens, TypeExpr.tokens, openings_append, openings_append, openings_cons, openings_cons,
      openings_between (by decide), openings_between (by decide)]
    simp only [Phrase.tokens] at *
    omega
  | param _ ih => exact ih
  | lastParam _ ih =>
    rw [Phrase.tokens, TypeExpr.tokensList, openings_commaSeparated_cons]
    exact ih
  | moreParams _ _ iht ihts =>
    rw [Phrase.tokens, TypeExpr.tokensList, openings_commaSeparated_cons, openings_append, openings_cons]
    simp only [Phrase.tokens] at *
    omega

/-! ### Printed expressions -/

/-- A text that spells a row of tokens has the opening parentheses of the row. -/
theorem Spells.count_paren {rest text : List Char} {kinds : List TokenKind} (h : Spells rest text kinds) :
    text.count '(' = openings kinds := by
  induction h with
  | nil => rfl
  | blank _ ih => rw [count_cons_of_ne (by decide), ih]
  | @token lexeme text kind kinds hspelled _ ih =>
    obtain ⟨c, more, hcons, -⟩ := hspelled.start
    have hfinds := Lexeme.ofText_finds c (more ++ (text ++ rest))
    rw [← cons_append, ← hcons, hspelled.found] at hfinds
    obtain ⟨front, back, hsplit, hlength, hwrites⟩ := hfinds kind rfl
    obtain rfl := (append_inj hsplit hlength).1
    rw [count_append, hwrites.count_paren, ih, openings_cons]

/-- A printed expression has the opening parentheses of its tokens. -/
theorem Expr.count_paren_print {e : Expr} (h : e.WellFormed) (hfinite : Double.infinity ∉ e.floats) :
    e.print.toList.count '(' = openings e.tokens :=
  ((e.writes h hfinite).spells [] trivial).count_paren

mutual

/-- The row of a tree has nothing to do with its notes. -/
theorem Expr.tokens_blur (b : Blur) : (e : Expr) → (e.blur b).tokens = e.tokens
  | .int _ _ | .float _ _ | .char _ _ | .string _ _ | .null _ | .name _ _ => rfl
  | .array _ items => by simp only [Expr.blur, Expr.tokens, Expr.tokensList_blur b items]
  | .binary _ _ l r => by
    simp only [Expr.blur, Expr.tokens, Expr.level_blur, Expr.tokens_blur b l, Expr.tokens_blur b r]
  | .unary _ _ e => by simp only [Expr.blur, Expr.tokens, Expr.level_blur, Expr.tokens_blur b e]
  | .call _ f args => by
    simp only [Expr.blur, Expr.tokens, Expr.level_blur, Expr.tokens_blur b f, Expr.tokensList_blur b args]
  | .index _ o i => by
    simp only [Expr.blur, Expr.tokens, Expr.level_blur, Expr.tokens_blur b o, Expr.tokens_blur b i]
  | .member _ o _ _ => by simp only [Expr.blur, Expr.tokens, Expr.level_blur, Expr.tokens_blur b o]
  | .cast _ t e => by
    simp only [Expr.blur, Expr.tokens, Expr.level_blur, TypeExpr.tokens_blur b t, Expr.tokens_blur b e]
  | .sizeof _ t => by simp only [Expr.blur, Expr.tokens, TypeExpr.tokens_blur b t]

theorem Expr.tokensList_blur (b : Blur) : (es : List Expr) → Expr.tokensList (Expr.blurList b es) = Expr.tokensList es
  | [] => rfl
  | e :: rest => by
    simp only [Expr.blurList, Expr.tokensList, Expr.tokens_blur b e, Expr.tokensList_blur b rest]

theorem TypeExpr.tokens_blur (b : Blur) : (t : TypeExpr) → (t.blur b).tokens = t.tokens
  | .name _ _ | .vararg _ => rfl
  | .pointer _ t => by
    simp only [TypeExpr.blur, TypeExpr.tokens, TypeExpr.suffixBaseTokens, TypeExpr.isFunction_blur,
      TypeExpr.tokens_blur b t]
  | .array _ t size => by
    simp only [TypeExpr.blur, TypeExpr.tokens, TypeExpr.suffixBaseTokens, TypeExpr.isFunction_blur,
      TypeExpr.tokens_blur b t, Expr.tokens_blur b size]
  | .function _ params returns => by
    simp only [TypeExpr.blur, TypeExpr.tokens, TypeExpr.tokensList_blur b params, TypeExpr.tokens_blur b returns]

theorem TypeExpr.tokensList_blur (b : Blur) : (ts : List TypeExpr) →
    TypeExpr.tokensList (TypeExpr.blurList b ts) = TypeExpr.tokensList ts
  | [] => rfl
  | t :: rest => by
    simp only [TypeExpr.blurList, TypeExpr.tokensList, TypeExpr.tokens_blur b t, TypeExpr.tokensList_blur b rest]

end

/-- A text that is read as an expression has all the opening parentheses that the expression is printed
with. -/
theorem Expr.count_paren_le {e e' : Expr} {file text : String} {c : Cursor} (h : e.WellFormed)
    (hfinite : Double.infinity ∉ e.floats)
    (hread : Parse.expression.run (Cursor.ofText file text) = .ok e' c)
    (hsame : e'.blur .places = e.blur .places) :
    e.print.toList.count '(' ≤ text.toList.count '(' := by
  obtain ⟨w, hw, hderives⟩ := Parse.expression_consumes _ e' c hread
  have hrow : openings e.tokens ≤ openings w := by
    have hphrase := hderives.openings_le
    rwa [openings_phrase_expr (Expr.level_pos _), hsame, Expr.tokens_blur] at hphrase
  calc e.print.toList.count '('
    _ = openings e.tokens := Expr.count_paren_print h hfinite
    _ ≤ openings w := hrow
    _ ≤ openings (Cursor.ofText file text).kinds := by
      rw [hw, openings_append]
      exact Nat.le_add_right _ _
    _ ≤ text.toList.count '(' := Cursor.openings_ofText file text

/-- **Every pair of parentheses is needed.** Let a text be read as an expression with finite numbers. Where
the printed expression has an opening and a closing parenthesis, the text without the two is not read as
that expression, numbers and places aside. -/
theorem Expr.print_parens_needed {file text : String} {e : Expr} {c : Cursor}
    (h : Parse.expression.run (Cursor.ofText file text) = .ok e c)
    (hfinite : ∀ x ∈ e.floats, x.isFinite = true) {before inside behind : String}
    (hpair : e.print = before ++ "(" ++ inside ++ ")" ++ behind) {file' : String} {e' : Expr} {c' : Cursor}
    (hread : Parse.expression.run (Cursor.ofText file' (before ++ inside ++ behind)) = .ok e' c') :
    e'.blur .places ≠ e.blur .places := by
  intro hsame
  have hfit : (Cursor.ofText file text).Fit True (Location.InText file text) := fun _ =>
    ⟨Cursor.ofText_within_inText file text, Cursor.ofText_ordered file text⟩
  have hwellFormed := (((Parse.expression_leads Node.Nested hfit).ok h).2.2.2.every trivial).2.2
  have hinfinity : Double.infinity ∉ e.floats := fun hmem => absurd (hfinite _ hmem) (by decide)
  have hcount := Expr.count_paren_le hwellFormed hinfinity hread hsame
  have hparens : "(".toList.count '(' = 1 := rfl
  rw [hpair] at hcount
  simp only [String.toList_append, List.count_append, hparens] at hcount
  omega

/-- Without its parentheses the minus sign would join the one inside. -/
theorem Expr.print_parens_needed_signs : ∃ e c, Parse.expression.run (Cursor.ofText "t.cu" "-(-a + (b))") = .ok e c ∧
    (∀ x ∈ e.floats, x.isFinite = true) ∧ e.print = "-" ++ "(" ++ "-a + b" ++ ")" ++ "" ∧
    ∀ e' c', Parse.expression.run (Cursor.ofText "t.cu" ("-" ++ "-a + b" ++ "")) = .ok e' c' →
      e'.blur .places ≠ e.blur .places := by
  have hprint : (Parse.expression.run' (Cursor.ofText "t.cu" "-(-a + (b))")).map
      (fun e => (e.floats.length, e.print)) = some (0, "-(-a + b)") := by
    decide +kernel
  unfold EStateM.run' at hprint
  cases hread : Parse.expression.run (Cursor.ofText "t.cu" "-(-a + (b))") with
  | error failure c =>
    rw [hread] at hprint
    cases hprint
  | ok e c =>
    rw [hread] at hprint
    injection hprint with hprint
    have hfloats : e.floats = [] := List.eq_nil_of_length_eq_zero (congrArg Prod.fst hprint)
    have hfinite : ∀ x ∈ e.floats, x.isFinite = true := hfloats ▸ List.forall_mem_nil _
    have hpair : e.print = "-" ++ "(" ++ "-a + b" ++ ")" ++ "" := congrArg Prod.snd hprint
    exact ⟨e, c, rfl, hfinite, hpair, fun e' c' h' => Expr.print_parens_needed hread hfinite hpair h'⟩

end Offside
