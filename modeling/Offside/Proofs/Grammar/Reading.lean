import Offside.Proofs.Grammar.Derivation
import Offside.Proofs.Grammar.Reads
import Offside.Proofs.Grammar.WellFormed

/-! Reading what the grammar derives.

An expression is read by levels, so its row is found at the front of what `tighter` reads: it gets behind
the row and goes on with the expression (`ReadsExpr`), as far as the tokens there allow. The same holds of
types and their suffixes (`ReadsBase`). What is read is the tree up to numbers and places (`Expr.Similar`),
and every phrase of the grammar is read so (`Derives.read`), the tokens of well-formed trees among them. -/
namespace Offside

open List

variable {op : BinaryOp} {c : Cursor} {behind w : List TokenKind} {α : Type}

/-! ### Trees up to numbers and places -/

/-- The same expression, numbers and places aside. -/
def Expr.Similar (e e' : Expr) : Prop := e.blur .places = e'.blur .places

def TypeExpr.Similar (t t' : TypeExpr) : Prop := t.blur .places = t'.blur .places

/-! ### Where expressions end -/

/-- A place where an expression ends if all its operators bind tighter than `level`. -/
def Stops (level : Nat) (kinds : List TokenKind) : Prop :=
  ∃ k ks, kinds = k :: ks ∧ (k.followsOperand = true → postfixLevel ≤ level) ∧
    ∀ op, BinaryOp.ofToken k = some op → op.level ≤ level

namespace Stops

variable {level level' : Nat} {kinds : List TokenKind}

theorem mono (h : Stops level kinds) (hle : level ≤ level') : Stops level' kinds := by
  obtain ⟨k, ks, rfl, hfollows, hop⟩ := h
  exact ⟨k, ks, rfl, fun hk => (hfollows hk).trans hle, fun op hk => (hop op hk).trans hle⟩

/-- Tokens that go on with no expression end them all. -/
theorem closing {k : TokenKind} (hfollows : k.followsOperand = false) (hop : BinaryOp.ofToken k = none) :
    Stops level (k :: kinds) := by
  refine ⟨k, kinds, rfl, fun h => ?_, fun op h => ?_⟩
  · rw [hfollows] at h
    cases h
  · rw [hop] at h
    cases h

/-- Anything ends an operand that binds tightest. -/
theorem tightest {k : TokenKind} (h : postfixLevel ≤ level) : Stops level (k :: kinds) := by
  refine ⟨k, kinds, rfl, fun _ => h, fun op _ => le_trans ?_ h⟩
  cases op <;> decide

theorem operator (h : op.level ≤ level) : Stops level (op.token :: kinds) := by
  refine ⟨_, _, rfl, fun hfollows => ?_, fun op' hop => ?_⟩
  · cases op <;> cases hfollows
  · rw [BinaryOp.ofToken_token] at hop
    cases hop
    exact h

end Stops

namespace Parse

variable {c : Cursor} {k : TokenKind} {kinds mid behind rest : List TokenKind} {f fuel level : Nat} {left : Expr}
  {post between : Expr → Prop}

theorem goOn_stops (hfuel : 0 < fuel) (hc : c.At kinds) (hstops : Stops level kinds)
    (hpost : post left) : Reads (goOn fuel level left) c kinds post := by
  obtain ⟨f, rfl⟩ : ∃ f, fuel = f + 1 := ⟨fuel - 1, by omega⟩
  obtain ⟨k, ks, rfl, hfollows, hop⟩ := hstops
  rw [goOn]
  refine .peekKind hc ?_
  split
  · rename_i hk
    rw [if_pos (hfollows hk)]
    exact .pure hc hpost
  · split
    · exact .pure hc hpost
    · rename_i op hk
      rw [if_pos (hop op hk)]
      exact .pure hc hpost

/-- Going on with a binary operator that binds tighter. -/
theorem goOn_operator (hc : c.At (op.token :: kinds)) (hlevel : level < op.level)
    (hright : ∀ c' : Cursor, c'.At kinds → Reads (tighter f op.level) c' mid between)
    (hgo : ∀ (right : Expr) (mark : ExprMark) (c' : Cursor), mark.type = none → between right →
      c'.At mid → Reads (goOn f level (.binary mark op left right)) c' rest post) :
    Reads (goOn (f + 1) level left) c rest post := by
  have hfollows : op.token.followsOperand = false := by cases op <;> rfl
  rw [goOn]
  refine .peekKind hc ?_
  rw [hfollows, BinaryOp.ofToken_token]
  show Reads (if op.level ≤ level then _ else _) c rest post
  rw [if_neg (Nat.not_le.mpr hlevel)]
  refine .advance hc fun _ c1 hc1 => (hright c1 hc1).bind fun right c2 hc2 hbetween => ?_
  exact .fresh hc2 fun id c3 hc3 => hgo right _ c3 rfl hbetween hc3

/-- Going on with what follows an operand. -/
theorem goOn_suffix (hc : c.At (k :: kinds)) (hk : k.followsOperand)
    (hlevel : level ≤ prefixLevel) (hsuffix : Reads (suffix f left) c mid between)
    (hgo : ∀ (whole : Expr) (c' : Cursor), c'.At mid → between whole → Reads (goOn f level whole) c' rest post) :
    Reads (goOn (f + 1) level left) c rest post := by
  rw [goOn]
  refine .peekKind hc ?_
  rw [if_pos hk, if_neg (by unfold postfixLevel; unfold prefixLevel at hlevel; omega)]
  exact hsuffix.bind hgo

theorem tighter_operand (hoperand : Reads (operand f) c mid between)
    (hgo : ∀ (e : Expr) (c' : Cursor), c'.At mid → between e → Reads (goOn f level e) c' rest post) :
    Reads (tighter (f + 1) level) c rest post := by
  rw [tighter]
  exact hoperand.bind hgo

theorem operand_primary (hc : c.At (k :: kinds)) (hless : k ≠ .symbol .less)
    (hop : UnaryOp.ofToken k = none) (h : Reads (primary f) c rest post) :
    Reads (operand (f + 1)) c rest post := by
  rw [operand]
  refine .peek hc fun span => ?_
  rw [if_neg hless, hop]
  exact h

theorem operand_prefix {op : UnaryOp} (hop : op.isPostfix = false) (hc : c.At (op.token :: kinds))
    (hvalue : ∀ c' : Cursor, c'.At kinds → Reads (tighter f prefixLevel) c' rest between)
    (hpost : ∀ (mark : ExprMark) (e : Expr), mark.type = none → between e → post (.unary mark op e)) :
    Reads (operand (f + 1)) c rest post := by
  have hless : op.token ≠ .symbol .less := by cases op <;> decide
  rw [operand]
  refine .peek hc fun span => ?_
  rw [if_neg hless, UnaryOp.ofToken_token hop]
  refine .advance hc fun _ c1 hc1 => (hvalue c1 hc1).bind fun value c2 hc2 hbetween => ?_
  exact .finish _ hc2 fun mark hmark => hpost mark value hmark hbetween

end Parse

/-! ### Expressions -/

/-- The expression is read where its row stands: reading gets behind the row and goes on with it. -/
def ReadsExpr (least : Nat) (a : Expr) (w : List TokenKind) : Prop :=
  ∀ ⦃fuel level : Nat⦄ ⦃c : Cursor⦄ ⦃behind rest : List TokenKind⦄ ⦃post : Expr → Prop⦄,
    c.At (w ++ behind) → 5 * w.length + 5 ≤ fuel → level ≤ prefixLevel →
    (least < prefixLevel → level < least) → Stops least behind →
    (∀ (fuel' : Nat) (e : Expr) (c' : Cursor), fuel ≤ fuel' + w.length → c'.At behind →
      e.blur .places = a → Parse.Reads (Parse.goOn fuel' level e) c' rest post) →
    Parse.Reads (Parse.tighter fuel level) c rest post

namespace ReadsExpr

open Parse

variable {a b : Expr} {c : Cursor} {k : TokenKind} {v w behind : List TokenKind} {fuel level least : Nat}

theorem loosen (h : ReadsExpr (least + 1) a w) : ReadsExpr least a w := by
  intro fuel level c behind rest post hc hfuel hlevel hbinds hstops hgo
  exact h hc hfuel hlevel (by omega) (hstops.mono (Nat.le_succ _)) hgo

/-- An expression up to where a level ends it. -/
theorem upTo (h : ReadsExpr least a w) (hc : c.At (w ++ behind)) (hfuel : 5 * w.length + 5 ≤ fuel)
    (hlevel : level ≤ prefixLevel) (hle : level ≤ least) (hlt : least < prefixLevel → level < least)
    (hstops : Stops level behind) : Reads (tighter fuel level) c behind (·.blur .places = a) :=
  h hc hfuel hlevel hlt (hstops.mono hle) fun _ _ _ hleft hc' he => goOn_stops (by omega) hc' hstops he

theorem whole (h : ReadsExpr 1 a w) (hc : c.At (w ++ behind)) (hfuel : 5 * w.length + 5 ≤ fuel)
    (hstops : Stops 0 behind) : Reads (tighter fuel 0) c behind (·.blur .places = a) :=
  h.upTo hc hfuel (Nat.zero_le _) (Nat.zero_le _) (fun _ => Nat.one_pos) hstops

theorem atPrefix (h : ReadsExpr prefixLevel a w) (hc : c.At (w ++ behind))
    (hfuel : 5 * w.length + 5 ≤ fuel) (hstops : Stops prefixLevel behind) :
    Reads (tighter fuel prefixLevel) c behind (·.blur .places = a) :=
  h.upTo hc hfuel le_rfl le_rfl (fun hlt => absurd hlt (lt_irrefl _)) hstops

theorem binary (hleft : ReadsExpr op.level a v) (hright : ReadsExpr (op.level + 1) b w) :
    ReadsExpr op.level (.binary .bare op a b) (v ++ op.token :: w) := by
  intro fuel level c behind rest post hc hfuel hlevel hbinds hstops hgo
  have hop : op.level < prefixLevel := by cases op <;> decide
  have hlt : level < op.level := hbinds hop
  simp only [length_append, length_cons] at hfuel hgo
  rw [append_assoc] at hc
  refine hleft hc (by omega) hlevel hbinds (.operator le_rfl) fun fuel' l c1 hspent hc1 hl => ?_
  obtain ⟨f, rfl⟩ : ∃ f, fuel' = f + 1 := ⟨fuel' - 1, by omega⟩
  have hsecond (c2 : Cursor) (hc2 : c2.At (w ++ behind)) :
      Reads (tighter f op.level) c2 behind (·.blur .places = b) :=
    hright.upTo hc2 (by omega) hop.le (Nat.le_succ _) (fun _ => Nat.lt_succ_self _) hstops
  refine goOn_operator hc1 hlt hsecond fun r mark c3 hmark hr hc3 => hgo f _ c3 (by omega) hc3 ?_
  rw [Expr.blur, ExprMark.blur_places hmark, hl, hr]

/-- Expressions that `operand` reads, with the last operand of a prefix operator at their end. -/
theorem ofOperand (hw : w ≠ []) (h : ∀ {f : Nat} {c : Cursor} {behind : List TokenKind}, c.At (w ++ behind) →
      5 * w.length + 3 ≤ f → Stops prefixLevel behind →
      Reads (operand (f + 1)) c behind (·.blur .places = a)) : ReadsExpr prefixLevel a w := by
  intro fuel level c behind rest post hc hfuel _ _ hstops hgo
  have hpos := length_pos_iff.mpr hw
  obtain ⟨f, rfl⟩ : ∃ f, fuel = f + 2 := ⟨fuel - 2, by omega⟩
  refine tighter_operand (h hc (by omega) hstops) fun e c' hc' he => ?_
  exact hgo _ e c' (by omega) hc' he

/-- Expressions that `suffix` completes. -/
theorem ofSuffix (hobject : ReadsExpr postfixLevel a v) (hk : k.followsOperand)
    (h : ∀ {f : Nat} {c : Cursor} {behind : List TokenKind} {o : Expr}, c.At (k :: (w ++ behind)) →
      o.blur .places = a → 5 * w.length + 5 ≤ f → Reads (suffix (f + 1) o) c behind (·.blur .places = b)) :
    ReadsExpr postfixLevel b (v ++ k :: w) := by
  intro fuel level c behind rest post hc hfuel hlevel _ _ hgo
  simp only [length_append, length_cons] at hfuel hgo
  rw [append_assoc] at hc
  refine hobject hc (by omega) hlevel (fun hlt => absurd hlt (by decide)) (.tightest le_rfl)
    fun fuel' o c1 hspent hc1 ho => ?_
  obtain ⟨f, rfl⟩ : ∃ f, fuel' = f + 2 := ⟨fuel' - 2, by omega⟩
  refine goOn_suffix hc1 hk hlevel (h hc1 ho (by omega)) fun e c2 hc2 he => ?_
  exact hgo _ e c2 (by omega) hc2 he

/-- Expressions that `primary` reads. -/
theorem ofPrimary (hless : k ≠ .symbol .less) (hop : UnaryOp.ofToken k = none)
    (h : ∀ {f : Nat} {c : Cursor} {behind : List TokenKind}, c.At (k :: (w ++ behind)) →
      5 * w.length + 5 ≤ f → Reads (primary (f + 1)) c behind (·.blur .places = a)) :
    ReadsExpr primaryLevel a (k :: w) := by
  intro fuel level c behind rest post hc hfuel _ _ _ hgo
  simp only [length_cons] at hfuel hgo
  obtain ⟨f, rfl⟩ : ∃ f, fuel = f + 3 := ⟨fuel - 3, by omega⟩
  refine tighter_operand (operand_primary hc hless hop (h hc (by omega))) fun e c' hc' he => ?_
  exact hgo _ e c' (by omega) hc' he

end ReadsExpr

/-! ### Types -/

/-- A place where a type ends: no suffix follows. -/
def EndsType (kinds : List TokenKind) : Prop := ∃ k ks, kinds = k :: ks ∧ k ≠ .symbol .leftBracket

/-- The type, which may be dots, is read up to where its row ends. -/
def ReadsType (t : TypeExpr) (w : List TokenKind) : Prop := ∀ ⦃fuel : Nat⦄ ⦃c : Cursor⦄ ⦃behind : List TokenKind⦄,
    c.At (w ++ behind) → 5 * w.length + 5 ≤ fuel → EndsType behind →
    Parse.Reads (Parse.typeOrVararg fuel) c behind (·.blur .places = t)

/-- The type is read where its row stands: reading gets behind the row and goes on with suffixes. -/
def ReadsBase (t : TypeExpr) (w : List TokenKind) : Prop :=
  ∀ ⦃fuel : Nat⦄ ⦃c : Cursor⦄ ⦃behind rest : List TokenKind⦄ ⦃post : TypeExpr → Prop⦄,
    c.At (w ++ behind) → 5 * w.length + 5 ≤ fuel →
    (∀ (fuel' : Nat) (start : Location) (t' : TypeExpr) (c' : Cursor), fuel ≤ fuel' + w.length →
      c'.At behind → t'.blur .places = t → Parse.Reads (Parse.typeSuffixes fuel' start t') c' rest post) →
    Parse.Reads (Parse.typeOrVararg fuel) c rest post

namespace Parse

variable {c : Cursor} {k : TokenKind} {w behind rest : List TokenKind} {f fuel : Nat} {t : TypeExpr}
  {between post : TypeExpr → Prop}

theorem typeSuffixes_ends {start : Location} (hfuel : 0 < fuel) (hc : c.At behind) (hends : EndsType behind)
    (hpost : post t) : Reads (typeSuffixes fuel start t) c behind post := by
  obtain ⟨f, rfl⟩ : ∃ f, fuel = f + 1 := ⟨fuel - 1, by omega⟩
  obtain ⟨k, ks, rfl, hk⟩ := hends
  rw [typeSuffixes]
  exact .accept_other hc hk (.pure hc hpost)

theorem typeOrVararg_base (hc : c.At (k :: w)) (hk : k ≠ .symbol .ellipsis)
    (hbase : Reads (typeBase f) c behind between)
    (hgo : ∀ (start : Location) (t : TypeExpr) (c' : Cursor), c'.At behind → between t →
      Reads (typeSuffixes f start t) c' rest post) : Reads (typeOrVararg (f + 1)) c rest post := by
  rw [typeOrVararg]
  refine .peek hc fun span => .accept_other hc hk ?_
  exact hbase.bind fun t c' hc' ht => hgo _ t c' hc' ht

end Parse

open Parse in
/-- A type other than dots. -/
theorem ReadsType.plain {t : TypeExpr} {fuel : Nat}
    (h : ReadsType t w) (hplain : t.isVararg = false) (hc : c.At (w ++ behind))
    (hfuel : 5 * w.length + 6 ≤ fuel) (hends : EndsType behind) :
    Reads (plainType fuel) c behind (·.blur .places = t) := by
  obtain ⟨f, rfl⟩ : ∃ f, fuel = f + 1 := ⟨fuel - 1, by omega⟩
  rw [plainType]
  refine (h hc (by omega) hends).bind fun t' c' hc' ht => ?_
  rw [← TypeExpr.isVararg_blur .places t', ht, hplain]
  exact .pure hc' ht

namespace ReadsBase

open Parse

variable {t : TypeExpr} {c : Cursor} {k : TokenKind} {v w behind rest : List TokenKind}

theorem whole (h : ReadsBase t w) : ReadsType t w := by
  intro fuel c behind hc hfuel hends
  exact h hc hfuel fun _ _ _ _ hspent hc' ht => typeSuffixes_ends (by omega) hc' hends ht

/-- Types that `typeBase` reads. -/
theorem ofBase (hk : k ≠ .symbol .ellipsis)
    (h : ∀ {f : Nat} {c : Cursor} {behind : List TokenKind}, c.At (k :: (w ++ behind)) →
      5 * w.length + 7 ≤ f → Reads (typeBase (f + 1)) c behind (·.blur .places = t)) :
    ReadsBase t (k :: w) := by
  intro fuel c behind rest post hc hfuel hgo
  simp only [length_cons] at hfuel hgo
  obtain ⟨f, rfl⟩ : ∃ f, fuel = f + 2 := ⟨fuel - 2, by omega⟩
  refine typeOrVararg_base hc hk (h hc (by omega)) fun start t' c' hc' ht => ?_
  exact hgo _ start t' c' (by omega) hc' ht

theorem pointer (h : ReadsBase t w) :
    ReadsBase (.pointer default t) (w ++ Tokens.between .leftBracket .rightBracket []) := by
  intro fuel c behind rest post hc hfuel hgo
  rw [append_assoc, Tokens.between_append] at hc
  rw [length_append, Tokens.length_between] at hfuel hgo
  refine h hc (by omega) fun fuel' start t' c1 hspent hc1 ht => ?_
  obtain ⟨f, rfl⟩ : ∃ f, fuel' = f + 1 := ⟨fuel' - 1, by omega⟩
  rw [typeSuffixes]
  refine .accept hc1 fun c2 hc2 => .accept hc2 fun c3 hc3 => .spanFrom _ fun span => ?_
  refine hgo f _ _ c3 (by omega) hc3 ?_
  rw [TypeExpr.blur, ht]
  rfl

theorem sized {n : Expr} (h : ReadsBase t v) (hsize : ReadsExpr 1 n w) (hstart : StartsWith TokenKind.startsExpr w) :
    ReadsBase (.array default t n) (v ++ Tokens.between .leftBracket .rightBracket w) := by
  intro fuel c behind rest post hc hfuel hgo
  rw [append_assoc, Tokens.between_append] at hc
  rw [length_append, Tokens.length_between] at hfuel hgo
  refine h hc (by omega) fun fuel' start t' c1 hspent hc1 ht => ?_
  obtain ⟨f, rfl⟩ : ∃ f, fuel' = f + 1 := ⟨fuel' - 1, by omega⟩
  rw [typeSuffixes]
  refine .accept hc1 fun c2 hc2 => ?_
  have hsizeReads : Reads (tighter f 0) c2 _ _ := hsize.whole hc2 (by omega) (.closing rfl rfl)
  obtain ⟨k, ks, rfl, hk⟩ := hstart
  refine .accept_other hc2 (by rintro rfl; cases hk) (hsizeReads.bind fun n' c3 hc3 hn => ?_)
  refine .expect hc3 fun c4 hc4 => .spanFrom _ fun span => hgo f _ _ c4 (by omega) hc4 ?_
  rw [TypeExpr.blur, ht, hn]
  rfl

end ReadsBase

/-! ### Lists -/

theorem Expr.tokensList_eq (es : List Expr) : Expr.tokensList es = es.map Expr.tokens := by
  induction es with
  | nil => rfl
  | cons e es ih => rw [Expr.tokensList, ih, map_cons]

theorem Tokens.commaSeparated_start {p : TokenKind → Bool} {row : α → List TokenKind}
    {items : List α} (hitems : items ≠ []) (h : ∀ a ∈ items, StartsWith p (row a)) :
    StartsWith p (commaSeparated (items.map row)) := by
  cases items with
  | nil => exact absurd rfl hitems
  | cons a items =>
    have hfirst := h a mem_cons_self
    cases items with
    | nil =>
      rw [map_singleton, commaSeparated_single]
      exact hfirst
    | cons b items =>
      rw [map_cons, map_cons, commaSeparated_cons_cons]
      exact hfirst.append _

namespace Parse

/-- Reading one item or more with commas between them, whatever the items are. -/
theorem separated_reads {item : Nat → Parse α} {list : Nat → Parse (List α)} {view : α → α}
    {row : α → List TokenKind} {closing : TokenKind} (hclosing : closing ≠ .symbol .comma)
    (hlist : ∀ f, list (f + 1) = (do
      let first ← item f
      if ← accept (.symbol .comma) then
        let more ← list f
        return first :: more
      else return [first]))
    {items : List α} (hitems : items ≠ [])
    (hitem : ∀ a ∈ items, ∀ {f : Nat} {c : Cursor} {k : TokenKind} {ks : List TokenKind},
      c.At (row a ++ k :: ks) → 5 * (row a).length + 5 ≤ f → k = .symbol .comma ∨ k = closing →
      Reads (item f) c (k :: ks) (view · = view a))
    {fuel : Nat}
    (hc : c.At (Tokens.commaSeparated (items.map row) ++ closing :: behind))
    (hfuel : 5 * (Tokens.commaSeparated (items.map row)).length + 6 ≤ fuel) :
    Reads (list fuel) c (closing :: behind) (·.map view = items.map view) := by
  induction items generalizing fuel c with
  | nil => exact absurd rfl hitems
  | cons a items ih =>
    obtain ⟨f, rfl⟩ : ∃ f, fuel = f + 1 := ⟨fuel - 1, by omega⟩
    rw [hlist]
    cases items with
    | nil =>
      rw [map_singleton, Tokens.commaSeparated_single] at hc hfuel
      refine (hitem a mem_cons_self hc (by omega) (.inr rfl)).bind fun a' c1 hc1 ha' => ?_
      refine .accept_other hc1 hclosing (.pure hc1 ?_)
      rw [map_singleton, map_singleton, ha']
    | cons b items =>
      rw [map_cons, map_cons, Tokens.commaSeparated_cons_cons] at hc hfuel
      rw [length_append, length_cons] at hfuel
      rw [append_assoc] at hc
      refine (hitem a mem_cons_self hc (by omega) (.inl rfl)).bind fun a' c1 hc1 ha' => ?_
      refine .accept hc1 fun c2 hc2 => ?_
      have hmore : Reads (list f) c2 _ _ :=
        ih (cons_ne_nil _ _) (fun x hx => hitem x (mem_cons_of_mem _ hx)) hc2
          (by rw [map_cons]; omega)
      refine hmore.bind fun more c3 hc3 hmore => .pure hc3 ?_
      rw [map_cons, map_cons, ha', hmore]

/-- Going on behind a list in parentheses, which may be empty. -/
theorem Reads.unlessClosed {β : Type} {list : Parse (List α)} {f : List α → Parse β}
    {p : TokenKind → Bool} {row rest : List TokenKind} {between : List α → Prop} {post : β → Prop}
    (hp : p (.symbol .rightParen) = false) (hc : c.At (row ++ .symbol .rightParen :: behind))
    (h : StartsWith p row ∧ Reads list c (.symbol .rightParen :: behind) between ∨ row = [] ∧ between [])
    (hgo : ∀ items c', c'.At (.symbol .rightParen :: behind) → between items → Reads (f items) c' rest post) :
    Reads (Parse.next (.symbol .rightParen) >>= fun closed =>
      if closed then Pure.pure [] >>= f else list >>= f) c rest post := by
  rcases h with ⟨⟨k, ks, rfl, hk⟩, hlist⟩ | ⟨rfl, hempty⟩
  · have hne : k ≠ .symbol .rightParen := by
      rintro rfl
      rw [hp] at hk
      cases hk
    refine .next hc _ ?_
    rw [decide_eq_false hne, if_neg (by decide)]
    exact hlist.bind hgo
  · refine .next hc _ ?_
    rw [decide_eq_true rfl, if_pos rfl, pure_bind]
    exact hgo [] c hc hempty

end Parse

/-! ### All phrases -/

open Parse

/-- How a phrase is read. -/
def Phrase.Read : Phrase → List TokenKind → Prop
  | .expr least a, w => ReadsExpr least a w
  | .items as, w => ∀ ⦃closing : Symbol⦄, closing = .rightParen ∨ closing = .rightBracket →
    ∀ ⦃fuel : Nat⦄ ⦃c : Cursor⦄ ⦃behind : List TokenKind⦄,
      c.At (w ++ .symbol closing :: behind) → 5 * w.length + 6 ≤ fuel →
      Reads (expressions fuel closing) c (.symbol closing :: behind) (Expr.blurList .places · = as)
  | .type t, w => t.isVararg = false ∧ ReadsType t w
  | .base t, w => t.isVararg = false ∧ ReadsBase t w
  | .param t, w => ReadsType t w
  | .params ts, w => ∀ ⦃fuel : Nat⦄ ⦃c : Cursor⦄ ⦃behind : List TokenKind⦄,
    c.At (w ++ .symbol .rightParen :: behind) → 5 * w.length + 6 ≤ fuel →
    StartsWith TokenKind.startsType w ∧ Reads (typeList fuel) c (.symbol .rightParen :: behind)
        (TypeExpr.blurList .places · = ts) ∨
      w = [] ∧ TypeExpr.blurList .places [] = ts

/-- Going on with the items of a list that holds some. -/
theorem StartsWith.unlessClosing {closing : Symbol} {rest : List TokenKind}
    {empty items : Parse α} {post : α → Prop} (h : StartsWith TokenKind.startsExpr w)
    (hclosing : closing = .rightParen ∨ closing = .rightBracket) (hc : c.At (w ++ behind))
    (hitems : Reads items c rest post) :
    Reads (Parse.next (.symbol closing) >>= fun closed => if closed then empty else items) c rest post := by
  obtain ⟨k, ks, rfl, hk⟩ := h
  have hne : k ≠ .symbol closing := by
    rintro rfl
    rcases hclosing with rfl | rfl
    · cases hk
    · cases hk
  refine .next hc _ ?_
  rw [decide_eq_false hne]
  exact hitems

namespace Phrase.Read

variable {k : TokenKind} {v w : List TokenKind} {a : Expr} {t : TypeExpr}

theorem atom (hk : k.atom = some a) : (Phrase.expr primaryLevel a).Read [k] := by
  have hop : UnaryOp.ofToken k = none := by
    cases k with
    | keyword word => cases word <;> first | rfl | cases hk
    | symbol => cases hk
    | _ => rfl
  refine ReadsExpr.ofPrimary (by rintro rfl; cases hk) hop fun hc _ => ?_
  rw [primary_step]
  refine .advance hc fun span c1 hc1 => ?_
  cases k with
  | int | float | char | string | identifier =>
    cases hk
    refine .finish _ hc1 fun mark hmark => ?_
    rw [Expr.blur, ExprMark.blur_places hmark]
  | keyword word =>
    cases word with
    | null_ =>
      cases hk
      refine .finish _ hc1 fun mark hmark => ?_
      rw [Expr.blur, ExprMark.blur_places hmark]
    | _ => cases hk
  | _ => cases hk

theorem prefixed {op : UnaryOp} (hop : op.isPostfix = false) (ih : ReadsExpr prefixLevel a w) :
    (Phrase.expr prefixLevel (.unary .bare op a)).Read (op.token :: w) := by
  refine ReadsExpr.ofOperand (cons_ne_nil _ _) fun {f c behind} hc hf hstops => ?_
  rw [length_cons] at hf
  refine operand_prefix hop hc (fun c1 hc1 => ReadsExpr.atPrefix ih hc1 (by omega) hstops)
    fun mark e hmark he => ?_
  rw [Expr.blur, ExprMark.blur_places hmark, he]

theorem cast (htarget : (Phrase.type t).Read v) (hoperand : ReadsExpr prefixLevel a w) :
    (Phrase.expr prefixLevel (.cast .bare t a)).Read (Tokens.between .less .greater v ++ w) := by
  refine ReadsExpr.ofOperand (by simp [Tokens.between]) fun {f c behind} hc hf hstops => ?_
  rw [append_assoc, Tokens.between_append] at hc
  rw [length_append, Tokens.length_between] at hf
  rw [operand]
  refine .peek hc fun span => ?_
  rw [if_pos rfl]
  refine .advance hc fun _ c1 hc1 => ?_
  refine (htarget.2.plain htarget.1 hc1 (by omega) ⟨_, _, rfl, by decide⟩).bind fun t c2 hc2 ht => ?_
  refine .expect hc2 fun c3 hc3 => ?_
  refine (ReadsExpr.atPrefix hoperand hc3 (by omega) hstops).bind fun e c4 hc4 he => ?_
  refine .finish _ hc4 fun mark hmark => ?_
  rw [Expr.blur, ExprMark.blur_places hmark, ht, he]

theorem stepped {op : UnaryOp} (hop : op.isPostfix = true) (ih : ReadsExpr postfixLevel a w) :
    (Phrase.expr postfixLevel (.unary .bare op a)).Read (w ++ [op.token]) := by
  refine ReadsExpr.ofSuffix ih ?_ fun hc ho _ => ?_
  · cases op <;> first | rfl | cases hop
  · rw [suffix]
    refine .advance hc fun span c1 hc1 => ?_
    cases op with
    | postIncrement | postDecrement =>
      refine .finish _ hc1 fun mark hmark => ?_
      rw [Expr.blur, ExprMark.blur_places hmark, ho]
    | _ => cases hop

theorem call {args : List Expr} (hcallee : ReadsExpr postfixLevel a v) (hargs : (Phrase.items args).Read w) :
    (Phrase.expr postfixLevel (.call .bare a args)).Read (v ++ Tokens.between .leftParen .rightParen w) := by
  refine ReadsExpr.ofSuffix hcallee rfl fun {f c behind o} hc ho hf => ?_
  rw [append_assoc] at hc
  rw [length_append, length_singleton] at hf
  rw [suffix]
  refine .advance hc fun span c1 hc1 => ?_
  refine (hargs (.inl rfl) hc1 (by omega)).bind fun es c2 hc2 hes => .expect hc2 fun c3 hc3 => ?_
  refine .finish _ hc3 fun mark hmark => ?_
  rw [Expr.blur, ExprMark.blur_places hmark, ho, hes]

theorem index {i : Expr} (hobject : ReadsExpr postfixLevel a v) (hposition : ReadsExpr 1 i w) :
    (Phrase.expr postfixLevel (.index .bare a i)).Read (v ++ Tokens.between .leftBracket .rightBracket w) := by
  refine ReadsExpr.ofSuffix hobject rfl fun {f c behind o} hc ho hf => ?_
  rw [append_assoc] at hc
  rw [length_append, length_singleton] at hf
  rw [suffix]
  refine .advance hc fun span c1 hc1 => ?_
  refine (ReadsExpr.whole hposition hc1 (by omega) (.closing rfl rfl)).bind fun e c2 hc2 he => ?_
  refine .expect hc2 fun c3 hc3 => .finish _ hc3 fun mark hmark => ?_
  rw [Expr.blur, ExprMark.blur_places hmark, ho, he]

theorem member {name : String} {arrow : Bool} (ih : ReadsExpr postfixLevel a w) :
    (Phrase.expr postfixLevel (.member .bare a name arrow)).Read
      (w ++ [.symbol (if arrow then .arrow else .dot), .identifier name]) := by
  refine ReadsExpr.ofSuffix ih (by cases arrow <;> rfl) fun hc ho _ => ?_
  rw [suffix]
  refine .advance hc fun span c1 hc1 => ?_
  cases arrow with
  | false | true =>
    refine .expectName hc1 fun span c2 hc2 => .finish _ hc2 fun mark hmark => ?_
    rw [Expr.blur, ExprMark.blur_places hmark, ho]

theorem parens (ih : ReadsExpr 1 a w) :
    (Phrase.expr primaryLevel a).Read (Tokens.between .leftParen .rightParen w) := by
  refine ReadsExpr.ofPrimary (by decide) rfl fun {f c behind} hc hf => ?_
  rw [append_assoc] at hc
  rw [length_append, length_singleton] at hf
  rw [primary_step]
  refine .advance hc fun span c1 hc1 => ?_
  refine (ReadsExpr.whole ih hc1 (by omega) (.closing rfl rfl)).bind fun e c2 hc2 he => ?_
  exact .expect hc2 fun c3 hc3 => .pure hc3 he

theorem array {as : List Expr} (ih : (Phrase.items as).Read w) :
    (Phrase.expr primaryLevel (.array .bare as)).Read (Tokens.between .leftBracket .rightBracket w) := by
  refine ReadsExpr.ofPrimary (by decide) rfl fun {f c behind} hc hf => ?_
  rw [append_assoc] at hc
  rw [length_append, length_singleton] at hf
  rw [primary_step]
  refine .advance hc fun span c1 hc1 => ?_
  refine (ih (.inr rfl) hc1 (by omega)).bind fun es c2 hc2 hes => .expect hc2 fun c3 hc3 => ?_
  refine .finish _ hc3 fun mark hmark => ?_
  rw [Expr.blur, ExprMark.blur_places hmark, hes]

theorem sizeof (ih : (Phrase.type t).Read w) :
    (Phrase.expr primaryLevel (.sizeof .bare t)).Read
      (.keyword .sizeof_ :: Tokens.between .leftParen .rightParen w) := by
  refine ReadsExpr.ofPrimary (by decide) rfl fun {f c behind} hc hf => ?_
  rw [Tokens.between_append] at hc
  rw [Tokens.length_between] at hf
  rw [primary_step]
  refine .advance hc fun span c1 hc1 => .expect hc1 fun c2 hc2 => ?_
  refine (ih.2.plain ih.1 hc2 (by omega) ⟨_, _, rfl, by decide⟩).bind fun t c3 hc3 ht => ?_
  refine .expect hc3 fun c4 hc4 => .finish _ hc4 fun mark hmark => ?_
  rw [Expr.blur, ExprMark.blur_places hmark, ht]

theorem noItems : (Phrase.items []).Read [] := by
  intro closing _ fuel c behind hc hfuel
  obtain ⟨f, rfl⟩ : ∃ f, fuel = f + 1 := ⟨fuel - 1, by omega⟩
  rw [expressions]
  refine .next hc _ ?_
  rw [decide_eq_true rfl]
  exact .pure hc rfl

theorem lastItem (h : ReadsExpr 1 a w) (hstart : StartsWith TokenKind.startsExpr w) : (Phrase.items [a]).Read w := by
  intro closing hclosing fuel c behind hc hfuel
  obtain ⟨f, rfl⟩ : ∃ f, fuel = f + 1 := ⟨fuel - 1, by omega⟩
  have hwhole : Reads (tighter f 0) c (.symbol closing :: behind) (·.blur .places = a) := by
    refine h.whole hc (by omega) ?_
    rcases hclosing with rfl | rfl
    · exact .closing rfl rfl
    · exact .closing rfl rfl
  rw [expressions]
  refine hstart.unlessClosing hclosing hc (hwhole.bind fun e c1 hc1 he => ?_)
  refine .accept_other hc1 ?_ (.pure hc1 (congrArg ([·]) he))
  rcases hclosing with rfl | rfl
  · decide
  · decide

theorem item {as : List Expr} (h : ReadsExpr 1 a v) (hstart : StartsWith TokenKind.startsExpr v)
    (hmore : (Phrase.items as).Read w) : (Phrase.items (a :: as)).Read (v ++ .symbol .comma :: w) := by
  intro closing hclosing fuel c behind hc hfuel
  obtain ⟨f, rfl⟩ : ∃ f, fuel = f + 1 := ⟨fuel - 1, by omega⟩
  rw [append_assoc] at hc
  rw [length_append, length_cons] at hfuel
  have hfirst : Reads (tighter f 0) c _ (·.blur .places = a) := h.whole hc (by omega) (.closing rfl rfl)
  rw [expressions]
  refine hstart.unlessClosing hclosing hc (hfirst.bind fun e c1 hc1 he => ?_)
  refine .accept hc1 fun c2 hc2 => (hmore hclosing hc2 (by omega)).bind fun es c3 hc3 hes => .pure hc3 ?_
  rw [Expr.blurList, he, hes]

theorem typeName {name : String} : (Phrase.base (.name default name)).Read [.identifier name] := by
  refine ⟨rfl, ReadsBase.ofBase (by simp) fun hc _ => ?_⟩
  rw [typeBase]
  exact .advance hc fun span c1 hc1 => .pure hc1 rfl

theorem braces (ih : (Phrase.type t).Read w) :
    (Phrase.base t).Read (Tokens.between .leftBrace .rightBrace w) := by
  refine ⟨ih.1, ReadsBase.ofBase (by decide) fun {f c behind} hc hf => ?_⟩
  rw [append_assoc] at hc
  rw [length_append, length_singleton] at hf
  rw [typeBase]
  refine .advance hc fun span c1 hc1 => ?_
  refine (ih.2.plain ih.1 hc1 (by omega) ⟨_, _, rfl, by decide⟩).bind fun t c2 hc2 ht => ?_
  exact .expect hc2 fun c3 hc3 => .pure hc3 ht

theorem dots : (Phrase.param (.vararg default)).Read [.symbol .ellipsis] := by
  intro fuel c behind hc hfuel _
  obtain ⟨f, rfl⟩ : ∃ f, fuel = f + 1 := ⟨fuel - 1, by omega⟩
  rw [typeOrVararg]
  refine .peek hc fun span => .accept hc fun c1 hc1 => .spanFrom _ fun span => ?_
  exact .pure hc1 rfl

theorem function {ts : List TypeExpr} (hparams : (Phrase.params ts).Read v) (hreturns : (Phrase.type t).Read w) :
    ReadsType (.function default ts t) (Tokens.between .leftParen .rightParen v ++ .symbol .arrow :: w) := by
  intro fuel c behind hc hfuel hends
  rw [append_assoc, Tokens.between_append] at hc
  rw [length_append, Tokens.length_between, length_cons] at hfuel
  obtain ⟨f, rfl⟩ : ∃ f, fuel = f + 2 := ⟨fuel - 2, by omega⟩
  have hbase : Reads (typeBase (f + 1)) c behind (·.blur .places = .function default ts t) := by
    rw [typeBase]
    refine .advance hc fun span c1 hc1 => ?_
    refine .unlessClosed rfl hc1 (hparams hc1 (by omega)) fun params c2 hc2 hparams => ?_
    refine .expect hc2 fun c3 hc3 => .expect hc3 fun c4 hc4 => ?_
    refine (hreturns.2.plain hreturns.1 hc4 (by omega) hends).bind fun returns c5 hc5 hreturns => ?_
    refine .spanFrom _ fun span => .pure hc5 ?_
    rw [TypeExpr.blur, hparams, hreturns]
    rfl
  exact typeOrVararg_base hc (by decide) hbase fun _ _ _ hc' ht => typeSuffixes_ends (by omega) hc' hends ht

theorem lastParam (h : ReadsType t w) (hstart : StartsWith TokenKind.startsType w) : (Phrase.params [t]).Read w := by
  intro fuel c behind hc hfuel
  obtain ⟨f, rfl⟩ : ∃ f, fuel = f + 1 := ⟨fuel - 1, by omega⟩
  refine .inl ⟨hstart, ?_⟩
  rw [typeList]
  refine (h hc (by omega) ⟨_, _, rfl, by decide⟩).bind fun t' c1 hc1 ht => ?_
  exact .accept_other hc1 (by decide) (.pure hc1 (congrArg ([·]) ht))

theorem moreParams {t' : TypeExpr} {ts : List TypeExpr} (h : ReadsType t v)
    (hstart : StartsWith TokenKind.startsType v) (hmore : (Phrase.params (t' :: ts)).Read w) :
    (Phrase.params (t :: t' :: ts)).Read (v ++ .symbol .comma :: w) := by
  intro fuel c behind hc hfuel
  obtain ⟨f, rfl⟩ : ∃ f, fuel = f + 1 := ⟨fuel - 1, by omega⟩
  rw [append_assoc] at hc
  rw [length_append, length_cons] at hfuel
  refine .inl ⟨hstart.append _, ?_⟩
  rw [typeList]
  refine (h hc (by omega) ⟨_, _, rfl, by decide⟩).bind fun first c1 hc1 hfirst => ?_
  refine .accept hc1 fun c2 hc2 => ?_
  obtain ⟨_, hlist⟩ | ⟨_, hempty⟩ := hmore hc2 (show 5 * w.length + 6 ≤ f by omega)
  · refine hlist.bind fun more c3 hc3 hmore => .pure hc3 ?_
    rw [TypeExpr.blurList, hfirst, hmore]
  · cases hempty

end Phrase.Read

/-- Every phrase is read where its row stands. -/
theorem Derives.read {phrase : Phrase} (h : Derives phrase w) : phrase.Read w := by
  induction h with
  | binary _ _ hleft hright => exact ReadsExpr.binary hleft hright
  | loosen _ ih => exact ReadsExpr.loosen ih
  | prefixed hop _ ih => exact .prefixed hop ih
  | cast _ _ htarget hoperand => exact .cast htarget hoperand
  | stepped hop _ ih => exact .stepped hop ih
  | call _ _ hcallee hargs => exact .call hcallee hargs
  | index _ _ hobject hposition => exact .index hobject hposition
  | member _ ih => exact .member ih
  | atom hk => exact .atom hk
  | parens _ ih => exact .parens ih
  | array _ ih => exact .array ih
  | sizeof _ ih => exact .sizeof ih
  | noItems => exact .noItems
  | lastItem hlast ih => exact .lastItem ih hlast.start
  | item hfirst _ ih hmore => exact .item ih hfirst.start hmore
  | typeName => exact .typeName
  | braces _ ih => exact .braces ih
  | pointer _ ih => exact ⟨rfl, ih.2.pointer⟩
  | sized _ hsize ih hread => exact ⟨rfl, ih.2.sized hread hsize.start⟩
  | plain _ ih => exact ⟨ih.1, ih.2.whole⟩
  | function _ _ hparams hreturns => exact ⟨rfl, Phrase.Read.function hparams hreturns⟩
  | param _ ih => exact ih.2
  | dots => exact .dots
  | noParams => exact fun _ _ _ _ _ => .inr ⟨rfl, rfl⟩
  | lastParam hlast ih => exact .lastParam ih hlast.start
  | moreParams hfirst _ ih hmore => exact .moreParams ih hfirst.start hmore

namespace Derives

variable {c : Cursor} {w behind : List TokenKind}

/-- An expression is read up to where all expressions end. -/
theorem readsExpression {a : Expr} (h : Derives (.expr 1 a) w) (hc : c.At (w ++ behind))
    (hstops : Stops 0 behind) : Reads Parse.expression c behind (·.blur .places = a) := by
  have hfuel : 5 * w.length + 5 ≤ c.depthBound := by
    rw [hc.depthBound, length_append]
    omega
  exact .get (ReadsExpr.whole h.read hc hfuel hstops)

theorem readsType {t : TypeExpr} (h : Derives (.type t) w) (hc : c.At (w ++ behind))
    (hends : EndsType behind) : Reads Parse.type c behind (·.blur .places = t) := by
  have hfuel : 5 * w.length + 6 ≤ c.depthBound := by
    rw [hc.depthBound, length_append]
    omega
  exact .get (h.read.2.plain h.read.1 hc hfuel hends)

end Derives

end Offside
