import Offside.Proofs.Number.Digits
import Offside.Proofs.Number.ReadBack
import Offside.Proofs.Tree.Tokens
import Offside.Proofs.Tree.WellFormed

/-! The text of a tree reads as the tokens of the tree.

`Writes follow text kinds` says that the text spells the tokens before any rest that satisfies `follow`,
starts with no blank and leaves as many brackets open as it found. Each way in which the printer puts
pieces together is a lemma about it, so the theorems on expressions and types (`Expr.writes`,
`TypeExpr.writes`) go by the shape of the tree. -/
namespace Offside

open Text Number List

structure Writes (follow : List Char → Prop) (text : String) (kinds : List TokenKind) : Prop where
  spells : ∀ rest, follow rest → Spells rest text.toList kinds
  solid : ∀ c ∈ text.toList.head?, c ≠ ' '
  balanced : ∀ b : Brackets, kinds.foldl Brackets.after b = b

namespace Writes

variable {follow follow' : List Char → Prop} {a b text : String} {ks ls kinds : List TokenKind}

theorem weaken (h : Writes follow text kinds) (hf : ∀ rest, follow' rest → follow rest) : Writes follow' text kinds :=
  ⟨fun rest hrest => h.spells rest (hf rest hrest), h.solid, h.balanced⟩

theorem append (ha : Writes follow a ks) (hb : Writes follow' b ls)
    (hf : ∀ rest, follow' rest → follow (b.toList ++ rest)) : Writes follow' (a ++ b) (ks ++ ls) := by
  refine ⟨fun rest hrest => ?_, ?_, fun brackets => ?_⟩
  · rw [String.toList_append]
    exact (ha.spells _ (hf rest hrest)).append (hb.spells rest hrest)
  · rw [String.toList_append]
    cases htext : a.toList with
    | nil => exact hb.solid
    | cons c more =>
      rintro d ⟨⟩
      exact ha.solid c (by rw [htext]; rfl)
  · rw [foldl_append, ha.balanced, hb.balanced]

theorem empty : Writes follow "" [] := ⟨fun _ _ => .nil, nofun, fun _ => rfl⟩

/-- A piece that is one lexeme. -/
theorem single {kind : TokenKind} (h : ∀ rest, follow rest → Spelled text.toList kind rest)
    (hend : follow []) (hkind : ∀ b : Brackets, b.after kind = b) : Writes follow text [kind] := by
  refine ⟨fun rest hrest => .single (h rest hrest), ?_, hkind⟩
  obtain ⟨c, more, hcons, hblank, _⟩ := (h [] hend).start
  rw [hcons]
  rintro d ⟨⟩ rfl
  cases hblank

theorem keyword (k : Keyword) : Writes Boundary k.spelling [.keyword k] :=
  .single (fun _ hrest => .keyword k hrest) trivial fun _ => rfl

theorem name {n : String} (hn : IsName n) : Writes Boundary n [.identifier n] :=
  .single (fun _ hrest => .name hn hrest) trivial fun _ => rfl

theorem symbol (s : Symbol) (hs : ∀ b : Brackets, b.after (.symbol s) = b) :
    Writes s.EndsBefore s.spelling [.symbol s] :=
  .single (fun _ hrest => .symbol s hrest) nofun hs

theorem exists_cons (h : Writes follow text kinds) (rest : List Char) (hrest : follow rest)
    (hkinds : kinds ≠ []) : ∃ c more, text.toList = c :: more := by
  have hspells := h.spells rest hrest
  cases htext : text.toList with
  | cons c more => exact ⟨c, more, rfl⟩
  | nil =>
    rw [htext] at hspells
    generalize hrow : ([] : List Char) = row at hspells
    cases hspells with
    | nil => exact absurd rfl hkinds
    | blank => cases hrow
    | token hlexeme =>
      obtain ⟨_, _, rfl, _⟩ := hlexeme.start
      cases hrow

/-- Two pieces with a blank between them. -/
theorem spaced (ha : Writes follow a ks) (hks : ks ≠ []) (hb : Writes follow' b ls)
    (hf : ∀ rest, follow (' ' :: rest)) : Writes follow' (a ++ " " ++ b) (ks ++ ls) := by
  obtain ⟨c, more, htext⟩ := ha.exists_cons _ (hf []) hks
  refine ⟨fun rest hrest => ?_, ?_, fun brackets => ?_⟩
  · have hblank : Spells rest (' ' :: b.toList) ls := .blank (hb.spells rest hrest)
    rw [String.append_assoc, String.toList_append, String.toList_append]
    exact (ha.spells _ (hf _)).append hblank
  · rw [String.append_assoc, String.toList_append, htext]
    rintro d ⟨⟩
    exact ha.solid c (by rw [htext]; rfl)
  · rw [foldl_append, ha.balanced, hb.balanced]

/-- A piece before a symbol. -/
theorem beforeSymbol (s : Symbol) (ha : Writes Boundary a ks) (hb : Writes follow (s.spelling ++ b) ls)
    (hs : s.spelling.toList.head? ≠ some '.') : Writes follow (a ++ (s.spelling ++ b)) (ks ++ ls) := by
  refine ha.append hb fun rest _ => ?_
  rw [String.toList_append, append_assoc]
  exact .of_symbol hs _

/-- A pair of brackets around a piece. -/
theorem between (opening closing : Symbol) (hopening : opening.extensions = [])
    (hclosing : closing.extensions = []) (hdot : closing.spelling.toList.head? ≠ some '.')
    (hpair : ∀ b : Brackets, (b.after (.symbol opening)).after (.symbol closing) = b)
    (h : Writes Boundary text kinds) :
    Writes follow (opening.spelling ++ text ++ closing.spelling) (Tokens.between opening closing kinds) := by
  refine ⟨fun rest _ => ?_, ?_, fun brackets => ?_⟩
  · have hclose : Spells rest closing.spelling.toList [.symbol closing] :=
      .single (.symbol closing (Symbol.endsBefore_of_final hclosing rest))
    have hopen : Spells (text.toList ++ closing.spelling.toList ++ rest) opening.spelling.toList [.symbol opening] :=
      .single (.symbol opening (Symbol.endsBefore_of_final hopening _))
    have hinner : Spells (closing.spelling.toList ++ rest) text.toList kinds := h.spells _ (.of_symbol hdot rest)
    rw [String.append_assoc, String.toList_append, String.toList_append]
    exact hopen.append (hinner.append hclose)
  · obtain ⟨c, more, hcons, _, _, _, hblank, _⟩ := opening.spelling_start
    rw [String.append_assoc, String.toList_append, hcons]
    rintro d ⟨⟩ rfl
    cases hblank
  · rw [Tokens.between, foldl_cons, foldl_append, h.balanced]
    exact hpair brackets

section

variable (h : Writes Boundary text kinds)
include h

theorem inParentheses : Writes follow ("(" ++ text ++ ")") (Tokens.between .leftParen .rightParen kinds) :=
  between .leftParen .rightParen rfl rfl (by decide) (fun _ => rfl) h

theorem inBrackets : Writes follow ("[" ++ text ++ "]") (Tokens.between .leftBracket .rightBracket kinds) :=
  between .leftBracket .rightBracket rfl rfl (by decide) (fun _ => rfl) h

theorem inBraces : Writes follow ("\x7b" ++ text ++ "\x7d") (Tokens.between .leftBrace .rightBrace kinds) :=
  between .leftBrace .rightBrace rfl rfl (by decide) (fun _ => rfl) h

theorem inParens (needed : Bool) : Writes Boundary (Offside.inParens needed text) (Tokens.inParens needed kinds) := by
  unfold Offside.inParens Tokens.inParens
  split
  · exact h.inParentheses
  · exact h

end

theorem commaSeparated {texts : List String} {rows : List (List TokenKind)}
    (h : List.Forall₂ (Writes Boundary) texts rows) :
    Writes Boundary (Offside.commaSeparated texts) (Tokens.commaSeparated rows) := by
  unfold Offside.commaSeparated Tokens.commaSeparated
  induction h with
  | nil => exact empty
  | @cons a ks texts rows ha hrest ih =>
    cases hrest with
    | nil => simpa using ha
    | cons hb hrest =>
      have hcomma := (symbol .comma fun _ => rfl).spaced (cons_ne_nil _ _) ih (Symbol.endsBefore_blank _)
      rw [String.append_assoc] at hcomma
      have hblank : (", " : String) = "," ++ " " := rfl
      rw [String.intercalate_cons_cons, intercalate_cons_cons, append_assoc,
        String.append_assoc, hblank, String.append_assoc]
      exact beforeSymbol .comma ha hcomma (by decide)

/-- A symbol that no longer one starts with. -/
theorem finalSymbol (s : Symbol) (hext : s.extensions = []) (hs : ∀ b : Brackets, b.after (.symbol s) = b) :
    Writes follow s.spelling [.symbol s] :=
  (symbol s hs).weaken fun rest _ => Symbol.endsBefore_of_final hext rest

/-- A piece before such a symbol. -/
theorem thenFinal (ha : Writes Boundary a ks) (s : Symbol) (hext : s.extensions = [])
    (hs : ∀ b : Brackets, b.after (.symbol s) = b) (hdot : s.spelling.toList.head? ≠ some '.') :
    Writes follow (a ++ s.spelling) (ks ++ [.symbol s]) :=
  ha.append (finalSymbol s hext hs) fun rest _ => .of_symbol hdot rest

/-- A function type in braces, and every other type as it is. -/
theorem suffixBase (h : Writes Boundary text kinds) (base : TypeExpr) :
    Writes Boundary (base.suffixBase text) (base.suffixBaseTokens kinds) := by
  unfold TypeExpr.suffixBase TypeExpr.suffixBaseTokens
  split
  · exact h.inBraces
  · exact h

/-- A text does not start with a sign that its first token cannot start with. -/
theorem head_ne {p : TokenKind → Bool} (h : Writes Boundary text kinds) (hstart : StartsWith p kinds)
    {c d : Char} {more : List Char} (htext : text.toList = d :: more) (hblank : c ≠ ' ')
    (hc : isWordPart c = false) (hquotes : c ≠ '\'' ∧ c ≠ '"')
    (hp : ∀ s : Symbol, s.spelling.toList.head? = some c → p (.symbol s) = false) : d ≠ c := by
  rintro rfl
  have hspells := h.spells [] trivial
  rw [htext] at hspells
  obtain ⟨s, hhead, hsign⟩ := hspells.head_symbol hblank hc hquotes.1 hquotes.2
  obtain ⟨k, ks, rfl, hk⟩ := hstart
  cases hhead
  rw [hp s hsign] at hk
  cases hk

end Writes

/-! ### Operators -/

/-- The rest starts with a blank. -/
def BlankNext (rest : List Char) : Prop := ∃ more, rest = ' ' :: more

theorem BinaryOp.writes (op : BinaryOp) : Writes BlankNext op.text [op.token] := by
  have htoken : (∃ k, op.token = .keyword k) ∨
      ∃ s, op.token = .symbol s ∧ ∀ b : Brackets, b.after (.symbol s) = b := by
    cases op <;> first | exact .inl ⟨_, rfl⟩ | exact .inr ⟨_, rfl, fun _ => rfl⟩
  unfold BinaryOp.text
  rcases htoken with ⟨k, hk⟩ | ⟨s, hs, hafter⟩
  · rw [hk]
    refine (Writes.keyword k).weaken ?_
    rintro _ ⟨more, rfl⟩
    exact .blank
  · rw [hs]
    refine (Writes.symbol s hafter).weaken ?_
    rintro _ ⟨more, rfl⟩
    exact s.endsBefore_blank more

section

variable {text : String} {kinds : List TokenKind}

theorem Writes.afterFinal (h : Writes Boundary text kinds) (s : Symbol) (hext : s.extensions = [])
    (hs : ∀ b : Brackets, b.after (.symbol s) = b) :
    Writes Boundary (s.spelling ++ text) (.symbol s :: kinds) := by
  have hsymbol : Writes (fun _ => True) s.spelling [.symbol s] := .finalSymbol s hext hs
  exact hsymbol.append h fun _ _ => trivial

/-- A sign before an operand, kept apart from another sign. -/
theorem Writes.signed (h : Writes Boundary text kinds) (hstart : StartsWith TokenKind.startsExpr kinds)
    (s : Symbol) (hs : ∀ b : Brackets, b.after (.symbol s) = b)
    (hext : s.extensions ⊆ ['+', '-', '>']) :
    Writes Boundary (if beginsWithSign text then s.spelling ++ " " ++ text else s.spelling ++ text)
      (.symbol s :: kinds) := by
  split
  · exact (Writes.symbol s hs).spaced (cons_ne_nil _ _) h s.endsBefore_blank
  · rename_i hsign
    obtain ⟨c, more, htext⟩ := h.exists_cons [] trivial hstart.ne_nil
    refine (Writes.symbol s hs).append h fun rest _ d hd hmem => ?_
    rw [htext] at hd
    cases hd
    have hgreater : c ≠ '>' := h.head_ne hstart htext (by decide) (by decide) (by decide) fun s hs => by
      cases s <;> first | rfl | cases hs
    unfold beginsWithSign at hsign
    rw [htext] at hsign
    have hsigns : c = '+' ∨ c = '-' ∨ c = '>' := by simpa using hext hmem
    rcases hsigns with rfl | rfl | rfl
    · exact hsign rfl
    · exact hsign rfl
    · exact hgreater rfl

/-- An operator before its operand. -/
theorem UnaryOp.writes {op : UnaryOp} (hop : op.isPostfix = false) (h : Writes Boundary text kinds)
    (hstart : StartsWith TokenKind.startsExpr kinds) :
    Writes Boundary (prefixed op text) (op.token :: kinds) := by
  cases op with
  | plus => exact h.signed hstart .plus (fun _ => rfl) (by decide)
  | minus => exact h.signed hstart .minus (fun _ => rfl) (by decide)
  | preIncrement => exact h.signed hstart .plusPlus (fun _ => rfl) (by decide)
  | preDecrement => exact h.signed hstart .minusMinus (fun _ => rfl) (by decide)
  | logicalNot => exact (Writes.keyword .not_).spaced (cons_ne_nil _ _) h fun _ => .blank
  | bitNot => exact h.afterFinal .tilde rfl fun _ => rfl
  | addressOf => exact h.afterFinal .ampersand rfl fun _ => rfl
  | dereference => exact h.afterFinal .star rfl fun _ => rfl
  | postIncrement | postDecrement => cases hop

end

/-! ### Literals and members -/

theorem Spelled.int {n : Int} {rest : List Char} (h : (TokenKind.int n).Genuine) (hrest : Boundary rest) :
    Spelled (decimal n).toList (.int n) rest := by
  obtain ⟨hlow, hhigh⟩ := h
  obtain ⟨m, rfl⟩ := Int.eq_ofNat_of_zero_le hlow
  have htext : (decimal (m : Int)).toList = Nat.toDigits 10 m := by
    rw [decimal, if_neg (by omega), Int.natAbs_natCast]
    exact String.toList_ofList
  have hvalue : readWord 10 (Nat.toDigits 10 m) = some (m : Int) := by
    have hfits : fitsWord (m : Int) := by
      simp only [fitsWord, Bool.and_eq_true, decide_eq_true_eq]
      exact ⟨by unfold wordMin; omega, hhigh⟩
    simp [readWord, digitsValue_toDigits, hfits]
  let numeral : Lexeme.Numeral := ⟨Nat.toDigits 10 m, none, none⟩
  have hwritten : numeral.Written := by
    refine ⟨⟨toDigits_ne_nil m, isDigit_of_mem_toDigits m⟩, ?_, ?_⟩
    all_goals simp [numeral]
  have hspelled : Spelled numeral.text (.int m) rest := numeral.spelled_int hwritten hrest rfl hvalue
  have hnumeral : numeral.text = Nat.toDigits 10 m := by
    simp [numeral, Lexeme.Numeral.text, Lexeme.Numeral.fractionText, Lexeme.Numeral.powerText]
  rwa [htext, ← hnumeral]

theorem writes_char {c : Char} (h : isAscii c) : Writes Boundary (quoted '\'' [c]) [.char c] := by
  refine .single (fun rest _ => ?_) trivial fun _ => rfl
  rw [quoted, String.toList_ofList]
  exact .char h

theorem writes_string (s : String) : Writes Boundary (quoted '"' s.toList) [.string s] := by
  refine .single (fun rest hrest => ?_) trivial fun _ => rfl
  rw [quoted, String.toList_ofList]
  refine .string s ?_
  cases rest with
  | nil => nofun
  | cons c rest =>
    rintro d ⟨⟩
    exact hrest.2.1

/-- A name behind a point or an arrow. -/
theorem writes_member {n : String} (h : IsName n) (arrow : Bool) :
    Writes Boundary ((if arrow then "->" else ".") ++ n)
      [.symbol (if arrow then .arrow else .dot), .identifier n] := by
  cases arrow with
  | true => exact (Writes.name h).afterFinal .arrow rfl fun _ => rfl
  | false =>
    refine (Writes.symbol .dot fun _ => rfl).append (.name h) fun rest _ c hc hmem => ?_
    obtain ⟨d, more, hname, hd⟩ := h.start
    rw [hname] at hc
    cases hc
    rw [mem_singleton.mp hmem] at hd
    exact absurd hd (by decide)

/-- An operand ends before the member that is taken of it. -/
theorem boundary_member {n : String} (h : IsName n) (arrow : Bool) (rest : List Char) :
    Boundary (((if arrow then "->" else ".") ++ n).toList ++ rest) := by
  rw [String.toList_append, append_assoc]
  cases arrow with
  | true => exact .of_symbol (s := .arrow) (by decide) _
  | false =>
    obtain ⟨d, more, hname, hd⟩ := h.start
    refine ⟨by decide, by decide, fun _ c hc => ?_⟩
    rw [hname] at hc
    cases hc
    by_contra hdigit
    rw [isWordStart_of_isDigit (Bool.not_eq_false _ ▸ hdigit)] at hd
    cases hd

/-- A type in angle brackets before an operand. -/
theorem writes_cast {target operand : String} {ks ls : List TokenKind} (ht : Writes Boundary target ks)
    (hstart : StartsWith TokenKind.startsType ks) (ho : Writes Boundary operand ls) :
    Writes Boundary ("<" ++ target ++ "> " ++ operand) (Tokens.between .less .greater ks ++ ls) := by
  have hclose := (Writes.symbol .greater fun _ => rfl).spaced (cons_ne_nil _ _) ho
    (Symbol.endsBefore_blank _)
  rw [String.append_assoc] at hclose
  have htarget := ht.beforeSymbol .greater hclose (by decide)
  have hopen : Writes Boundary
      (Symbol.less.spelling ++ (target ++ (Symbol.greater.spelling ++ (" " ++ operand))))
      ([.symbol .less] ++ (ks ++ ([.symbol .greater] ++ ls))) := by
    refine (Writes.symbol .less fun _ => rfl).append htarget fun rest _ d hd hmem => ?_
    obtain ⟨c, more, hcons⟩ := ht.exists_cons [] trivial hstart.ne_nil
    rw [String.toList_append, hcons] at hd
    cases hd
    have hsign (e : Char) (he : e = '<' ∨ e = '=') : d ≠ e := by
      refine ht.head_ne hstart hcons ?_ ?_ ?_ ?_
      · rcases he with rfl | rfl <;> decide
      · rcases he with rfl | rfl <;> decide
      · rcases he with rfl | rfl <;> decide
      · intro s hs
        rcases he with rfl | rfl <;> cases s <;> first | rfl | cases hs
    have hmem : d = '<' ∨ d = '=' := by simpa [Symbol.extensions] using hmem
    exact hsign d hmem rfl
  have hgreater : ("> " : String) = Symbol.greater.spelling ++ " " := rfl
  have hless : ("<" : String) = Symbol.less.spelling := rfl
  rw [hgreater, hless]
  simpa only [String.append_assoc, Tokens.between, cons_append, nil_append,
    append_assoc] using hopen

/-! ### Expressions and types -/

mutual

theorem Expr.writes : (e : Expr) → e.WellFormed → Double.infinity ∉ e.floats → Writes Boundary e.printBare e.tokens
  | .int _ _, h, _ => .single (fun _ => .int h.2) trivial fun _ => rfl
  | .float _ x, h, hf => by
    refine .single (fun rest hrest => ?_) trivial fun _ => rfl
    have hfinite : x ≠ Double.infinity := fun hx => hf (mem_singleton.mpr hx.symm)
    exact Double.text_spelled (Double.Readable.plain h.2 hfinite) hrest
  | .char _ _, h, _ => writes_char h.2
  | .string _ s, _, _ => writes_string s
  | .null _, _, _ => .keyword .null_
  | .name _ _, h, _ => .name h.2
  | .array _ items, h, hf => (Writes.commaSeparated (Expr.writesList items h.2 hf)).inBrackets
  | .binary _ op l r, h, hf => by
    obtain ⟨hl, hr⟩ := not_or.mp fun hor => hf (mem_append.mpr hor)
    have hleft := (l.writes h.2.1 hl).inParens (l.level < op.level)
    have hright := (r.writes h.2.2 hr).inParens (r.level < op.level + 1)
    have hop := op.writes.spaced (cons_ne_nil _ _) hright fun rest => ⟨rest, rfl⟩
    have hwhole := hleft.spaced (l.tokens_start.inParens _).ne_nil hop fun _ => .blank
    rw [Expr.printBare, Expr.tokens]
    simp only [String.append_assoc] at hwhole ⊢
    exact hwhole
  | .unary _ op e, h, hf => by
    have hoperand := e.writes h.2 hf
    rw [Expr.printBare, Expr.tokens]
    split
    · rename_i hop
      cases op
      case postIncrement => exact (hoperand.inParens _).thenFinal .plusPlus rfl (fun _ => rfl) (by decide)
      case postDecrement => exact (hoperand.inParens _).thenFinal .minusMinus rfl (fun _ => rfl) (by decide)
      all_goals cases hop
    · rename_i hop
      exact UnaryOp.writes (by simpa using hop) (hoperand.inParens _) (e.tokens_start.inParens _)
  | .call _ f args, h, hf => by
    obtain ⟨hcallee, hargs⟩ := not_or.mp fun hor => hf (mem_append.mpr hor)
    have hfunction := (f.writes h.2.1 hcallee).inParens (f.level < postfixLevel)
    have harguments : Writes Boundary _ _ := (Writes.commaSeparated (Expr.writesList args h.2.2 hargs)).inParentheses
    rw [Expr.printBare, Expr.tokens]
    simp only [String.append_assoc] at harguments ⊢
    exact hfunction.beforeSymbol .leftParen harguments (by decide)
  | .index _ o i, h, hf => by
    obtain ⟨ho, hi⟩ := not_or.mp fun hor => hf (mem_append.mpr hor)
    have hobject := (o.writes h.2.1 ho).inParens (o.level < postfixLevel)
    have hposition : Writes Boundary _ _ := (i.writes h.2.2 hi).inBrackets
    rw [Expr.printBare, Expr.tokens]
    simp only [String.append_assoc] at hposition ⊢
    exact hobject.beforeSymbol .leftBracket hposition (by decide)
  | .member _ o n arrow, h, hf => by
    rw [Expr.printBare, Expr.tokens, String.append_assoc]
    exact ((o.writes h.2.1 hf).inParens _).append (writes_member h.2.2 arrow) fun rest _ =>
      boundary_member h.2.2 arrow rest
  | .cast _ t e, h, hf => by
    obtain ⟨ht, he⟩ := not_or.mp fun hor => hf (mem_append.mpr hor)
    have htarget := t.writes h.2.2.1 ht
    have hoperand := (e.writes h.2.2.2 he).inParens (e.level < prefixLevel)
    exact writes_cast htarget t.tokens_start hoperand
  | .sizeof _ t, h, hf => by
    have htarget : Writes Boundary _ _ := (t.writes h.2.2 hf).inParentheses
    have hsizeof : ("sizeof(" : String) = Keyword.sizeof_.spelling ++ "(" := rfl
    rw [Expr.printBare, Expr.tokens, hsizeof]
    simp only [String.append_assoc] at htarget ⊢
    exact (Writes.keyword .sizeof_).beforeSymbol .leftParen htarget (by decide)

theorem Expr.writesList : (es : List Expr) → Expr.WellFormedList es → Double.infinity ∉ Expr.floatsList es →
    List.Forall₂ (Writes Boundary) (Expr.printList es) (Expr.tokensList es)
  | [], _, _ => .nil
  | e :: rest, h, hf => by
    obtain ⟨he, hrest⟩ := not_or.mp fun hor => hf (mem_append.mpr hor)
    exact .cons (e.writes h.1 he) (Expr.writesList rest h.2 hrest)

theorem TypeExpr.writes : (t : TypeExpr) → t.WellFormed → Double.infinity ∉ t.floats →
    Writes Boundary t.print t.tokens
  | .name _ _, h, _ => .name h
  | .vararg _, _, _ => .finalSymbol .ellipsis rfl fun _ => rfl
  | .function _ params returns, h, hf => by
    obtain ⟨hp, hr⟩ := not_or.mp fun hor => hf (mem_append.mpr hor)
    have hparams : Writes Boundary _ _ := (Writes.commaSeparated (TypeExpr.writesList params h.1 hp)).inParentheses
    have hreturns := (Writes.symbol .arrow fun _ => rfl).spaced (cons_ne_nil _ _)
      (returns.writes h.2.2 hr) (Symbol.endsBefore_blank _)
    have hwhole := hparams.spaced (cons_ne_nil _ _) hreturns fun _ => .blank
    have harrow : (") -> " : String) = ")" ++ (" " ++ (Symbol.arrow.spelling ++ " ")) := rfl
    rw [TypeExpr.print, TypeExpr.tokens, harrow]
    simp only [String.append_assoc] at hwhole ⊢
    exact hwhole
  | .pointer _ t, h, hf => by
    have hempty : Writes Boundary ("[" ++ "" ++ "]") _ := Writes.empty.inBrackets
    rw [String.append_assoc] at hempty
    exact ((t.writes h.2 hf).suffixBase t).beforeSymbol .leftBracket hempty (by decide)
  | .array _ t size, h, hf => by
    obtain ⟨ht, hs⟩ := not_or.mp fun hor => hf (mem_append.mpr hor)
    have hsize : Writes Boundary _ _ := (size.writes h.2.2 hs).inBrackets
    rw [TypeExpr.print, TypeExpr.tokens]
    simp only [String.append_assoc] at hsize ⊢
    exact ((t.writes h.2.1 ht).suffixBase t).beforeSymbol .leftBracket hsize (by decide)

theorem TypeExpr.writesList : (ts : List TypeExpr) → TypeExpr.WellFormedList ts →
    Double.infinity ∉ TypeExpr.floatsList ts →
    List.Forall₂ (Writes Boundary) (TypeExpr.printList ts) (TypeExpr.tokensList ts)
  | [], _, _ => .nil
  | t :: rest, h, hf => by
    obtain ⟨ht, hrest⟩ := not_or.mp fun hor => hf (mem_append.mpr hor)
    exact .cons (t.writes h.1 ht) (TypeExpr.writesList rest h.2 hrest)

end

end Offside
