import Offside.Proofs.Grammar.Reading

/-! Reading accepts what the grammar derives, and nothing else.

Whenever a reader succeeds, the row of tokens that it has taken derives the tree that it gives
(`Parse.Derived.tighter`). What makes the loop of operators come out right is what it has just read: the token
behind an operand never binds tighter than the operand does (`Cursor.Halts`), so a binary operator finds
on its left what the grammar asks for, and what follows an operand finds an operand. Together with the
reading of all phrases this makes reading and the grammar agree (`Parse.reads_iff_derives`), and gives every
row at most one tree. -/
namespace Offside

open List

/-! ### What a reader takes -/

namespace Cursor

/-- The kinds of the tokens that are left. -/
def kinds (c : Cursor) : List TokenKind := c.tokens.map Token.kind

/-- The kind of the next token: behind the last one there are ends of file. -/
def upcoming (c : Cursor) : TokenKind := c.kinds.headD .endOfFile

theorem upcoming_eq {c : Cursor} {t : Token}
    (h : c.tokens.head? = some t ∨ c.tokens = [] ∧ t.kind = .endOfFile) : t.kind = c.upcoming := by
  unfold upcoming kinds
  cases htokens : c.tokens <;> simp_all

end Cursor

namespace Parse

variable {α β : Type}

/-- If `p` succeeds at the cursor, then it takes a row of tokens with `post`. -/
def Consumes (p : Parse α) (c : Cursor) (post : List TokenKind → α → Cursor → Prop) : Prop :=
  ∀ a c', p.run c = .ok a c' → ∃ w, c.kinds = w ++ c'.kinds ∧ post w a c'

namespace Consumes

variable {p : Parse α} {f : α → Parse β} {c : Cursor} {k : TokenKind}
  {between : List TokenKind → α → Cursor → Prop} {post : List TokenKind → β → Cursor → Prop}

theorem bind (hp : Consumes p c between) (hf : ∀ v a c', between v a c' → Consumes (f a) c' fun w => post (v ++ w)) :
    Consumes (p >>= f) c post := by
  intro b c'' h
  obtain ⟨a, c', ha, hb⟩ := run_bind_ok.mp h
  obtain ⟨v, hv, hbetween⟩ := hp a c' ha
  obtain ⟨w, hw, hpost⟩ := hf v a c' hbetween b c'' hb
  refine ⟨v ++ w, ?_, hpost⟩
  rw [hv, hw, append_assoc]

theorem pure {b : β} (h : post [] b c) : Consumes (Pure.pure b : Parse β) c post := by
  intro b' c' hrun
  cases hrun
  exact ⟨[], rfl, h⟩

theorem throw {failure : Failure} : Consumes (MonadExcept.throw failure : Parse β) c post := by
  intro b c' hrun
  cases hrun

theorem weaken {q : Parse β} {stronger : List TokenKind → β → Cursor → Prop} (h : Consumes q c stronger)
    (hpost : ∀ w b c', stronger w b c' → post w b c') : Consumes q c post := by
  intro b c' hrun
  obtain ⟨w, hw, hstrong⟩ := h b c' hrun
  exact ⟨w, hw, hpost w b c' hstrong⟩

/-- A step that takes no token. -/
theorem still (hp : ∀ a c', p.run c = .ok a c' → c'.kinds = c.kinds)
    (hf : ∀ a c', p.run c = .ok a c' → c'.kinds = c.kinds → Consumes (f a) c' post) :
    Consumes (p >>= f) c post := by
  intro b c'' h
  obtain ⟨a, c', ha, hb⟩ := run_bind_ok.mp h
  obtain ⟨w, hw, hpost⟩ := hf a c' ha (hp a c' ha) b c'' hb
  exact ⟨w, (hp a c' ha).symm.trans hw, hpost⟩

/-! ### Single steps -/

theorem get {f : Cursor → Parse β} (h : Consumes (f c) c post) : Consumes (MonadState.get >>= f) c post := by
  refine still (fun _ _ hrun => by cases hrun; rfl) fun _ _ hrun _ => ?_
  cases hrun
  exact h

theorem peek {f : Token → Parse β} (h : ∀ t, t.kind = c.upcoming → Consumes (f t) c post) :
    Consumes (Parse.peek >>= f) c post := by
  refine still (fun t c' ht => by rw [(peek_ok ht).1]) fun t c' ht _ => ?_
  obtain ⟨rfl, hfront⟩ := peek_ok ht
  exact h t (Cursor.upcoming_eq hfront)

theorem peekKind {f : TokenKind → Parse β} (h : Consumes (f c.upcoming) c post) :
    Consumes (Parse.peekKind >>= f) c post := by
  unfold Parse.peekKind
  rw [bind_assoc]
  refine peek fun t ht => ?_
  rw [pure_bind, ht]
  exact h

theorem next {f : Bool → Parse β} (kind : TokenKind) (h : Consumes (f (c.upcoming = kind)) c post) :
    Consumes (Parse.next kind >>= f) c post := by
  unfold Parse.next
  rw [bind_assoc]
  refine peek fun t ht => ?_
  rw [pure_bind, ht]
  exact h

/-- Taking the next token. Nothing is taken at the end, where no phrase goes on. -/
theorem advance {f : Token → Parse β} (hend : ∀ t c', t.kind = c.upcoming → t.kind = .endOfFile →
      Consumes (f t) c' fun _ _ _ => False)
    (h : ∀ t c', t.kind = c.upcoming → Consumes (f t) c' fun w => post (t.kind :: w)) :
    Consumes (Parse.advance >>= f) c post := by
  intro b c'' hrun
  obtain ⟨t, c', ht, hb⟩ := run_bind_ok.mp hrun
  obtain ⟨htail, hfront⟩ := advance_ok ht
  have hkind := Cursor.upcoming_eq hfront
  rcases hfront with hhead | ⟨_, hends⟩
  · obtain ⟨w, hw, hpost⟩ := h t c' hkind b c'' hb
    obtain ⟨rest, htokens⟩ := head?_eq_some_iff.mp hhead
    refine ⟨t.kind :: w, ?_, hpost⟩
    rw [htokens] at htail
    rw [cons_append, ← hw, Cursor.kinds, Cursor.kinds, htokens, htail]
    rfl
  · obtain ⟨_, _, hfalse⟩ := hend t c' hkind hends b c'' hb
    exact hfalse.elim

theorem accept {f : Bool → Parse β} {sign : Symbol}
    (h : c.upcoming = .symbol sign → ∀ c', Consumes (f true) c' fun w => post (.symbol sign :: w))
    (hnot : c.upcoming ≠ .symbol sign → Consumes (f false) c post) :
    Consumes (Parse.accept (.symbol sign) >>= f) c post := by
  unfold Parse.accept
  rw [bind_assoc]
  refine next (.symbol sign) ?_
  by_cases hnext : c.upcoming = .symbol sign
  · rw [decide_eq_true hnext, if_pos rfl, bind_assoc]
    refine advance (fun t _ ht hends => ?_) fun t c' ht => ?_
    · rw [ht, hnext] at hends
      cases hends
    · rw [pure_bind, ht, hnext]
      exact h hnext c'
  · rw [decide_eq_false hnext, if_neg (by decide), pure_bind]
    exact hnot hnext

theorem expectSymbol {f : Unit → Parse β} {sign : Symbol} {context : String}
    (h : ∀ c', Consumes (f ()) c' fun w => post (.symbol sign :: w)) :
    Consumes (Parse.expectSymbol sign context >>= f) c post := by
  unfold Parse.expectSymbol Parse.expect
  rw [bind_assoc]
  refine advance (fun t c' _ hends => ?_) fun t c' _ => ?_
  · rw [if_pos (by simp [hends])]
    exact .throw
  · by_cases hkind : t.kind = .symbol sign
    · rw [if_neg (by simp [hkind]), pure_bind, hkind]
      exact h c'
    · rw [if_pos hkind]
      exact .throw

theorem expectName {f : String × Span → Parse β} {context : String}
    (h : ∀ n span c', Consumes (f (n, span)) c' fun w => post (.identifier n :: w)) :
    Consumes (Parse.expectName context >>= f) c post := by
  unfold Parse.expectName
  rw [bind_assoc]
  refine advance (fun t c' _ hends => ?_) fun t c' _ => ?_
  · rw [hends]
    exact .throw
  · split
    · rename_i n hkind
      rw [hkind]
      exact h n t.span c'
    · exact .throw

theorem spanFrom {f : Span → Parse β} (start : Location) (h : ∀ span, Consumes (f span) c post) :
    Consumes (Parse.spanFrom start >>= f) c post := by
  refine still (fun _ _ hrun => by cases hrun; rfl) fun span c' hrun _ => ?_
  cases hrun
  exact h _

theorem fresh {f : Nat → Parse β} (h : ∀ id c', c'.kinds = c.kinds → Consumes (f id) c' post) :
    Consumes (Parse.fresh >>= f) c post :=
  still (fun _ _ hrun => by cases hrun; rfl) fun id c' _ hkinds => h id c' hkinds

theorem finish {build : ExprMark → Expr} {post : List TokenKind → Expr → Cursor → Prop} (start : Location)
    (h : ∀ m c', m.type = none → c'.kinds = c.kinds → post [] (build m) c') :
    Consumes (Parse.finish start build) c post := by
  unfold Parse.finish Parse.markFrom
  rw [bind_assoc]
  refine fresh fun id c' hkinds => ?_
  rw [bind_assoc]
  refine spanFrom start fun span => ?_
  rw [pure_bind]
  exact .pure (h _ c' rfl hkinds)

end Consumes

/-! ### Readers and phrases -/

end Parse

/-- An expression whose operators bind tighter than `level` ends here. -/
def Cursor.Halts (c : Cursor) (level : Nat) : Prop := Stops level [c.upcoming]

namespace Cursor.Halts

variable {c c' : Cursor} {level : Nat}

theorem follows (h : c.Halts level) (hk : c.upcoming.followsOperand) : postfixLevel ≤ level := by
  obtain ⟨_, _, hcons, hfollows, _⟩ := h
  cases hcons
  exact hfollows hk

theorem operator {op : BinaryOp} (h : c.Halts level) (hk : BinaryOp.ofToken c.upcoming = some op) :
    op.level ≤ level := by
  obtain ⟨_, _, hcons, _, hop⟩ := h
  cases hcons
  exact hop op hk

theorem congr (h : c.Halts level) (hkinds : c'.kinds = c.kinds) : c'.Halts level := by
  rw [Halts, upcoming, hkinds]
  exact h

end Cursor.Halts

/-- The level of an expression whose operators all bind tighter than `level`. A prefix operator does not
have to bind tighter than another one. -/
def tier (level : Nat) : Nat := min (level + 1) prefixLevel

namespace Parse

variable {c : Cursor}

namespace Derived

mutual

/-- Whenever reading succeeds with some fuel, what it has taken derives what it gives. -/
theorem tighter {fuel level : Nat} (hlevel : level ≤ prefixLevel) (c : Cursor) :
    Consumes (Parse.tighter fuel level) c fun w e c' =>
      Derives (.expr (tier level) (e.blur .places)) w ∧ c'.Halts level := by
  match fuel with
  | 0 => exact .throw
  | fuel + 1 =>
  rw [Parse.tighter]
  refine (operand c).bind fun v left c' hleft => ?_
  obtain ⟨least, hleast, hleft, hhalts⟩ := hleft
  exact goOn hlevel ((min_le_right _ _).trans hleast) hleft hhalts

theorem goOn {fuel level least : Nat} {c : Cursor} {left : Expr} {v : List TokenKind} (hlevel : level ≤ prefixLevel)
    (hleast : tier level ≤ least) (hleft : Derives (.expr least (left.blur .places)) v) (hhalts : c.Halts least) :
    Consumes (Parse.goOn fuel level left) c fun w e c' =>
      Derives (.expr (tier level) (e.blur .places)) (v ++ w) ∧ c'.Halts level := by
  match fuel with
  | 0 => exact .throw
  | fuel + 1 =>
  have hstay : Derives (.expr (tier level) (left.blur .places)) (v ++ []) := by
    rw [append_nil]
    exact hleft.loosenTo hleast
  rw [Parse.goOn]
  refine .peekKind ?_
  split
  · rename_i hfollows
    have hpostfix : ¬ postfixLevel ≤ level := by
      unfold postfixLevel
      unfold prefixLevel at hlevel
      omega
    rw [if_neg hpostfix]
    -- An operand stands on the left: nothing else has such a token behind it.
    refine (suffix (hleft.loosenTo (hhalts.follows hfollows)) c).bind fun w whole c' hwhole => ?_
    refine (goOn hlevel ?_ hwhole (.tightest le_rfl)).weaken fun w' e c'' he => ?_
    · exact (min_le_right _ _).trans (by decide)
    · rw [← append_assoc]
      exact he
  · rename_i hfollows
    split
    · rename_i hop
      exact .pure ⟨hstay, .closing (by simpa using hfollows) hop⟩
    · rename_i op hop
      have htoken : op.token = c.upcoming := BinaryOp.token_of_ofToken hop
      split
      · rename_i hle
        refine .pure ⟨hstay, ?_⟩
        rw [Cursor.Halts, ← htoken]
        exact .operator hle
      · rename_i hlt
        have hprefix : op.level < prefixLevel := by cases op <;> decide
        have htier : tier op.level = op.level + 1 := min_eq_left hprefix
        have hbinds : tier level ≤ op.level := (min_le_left _ _).trans (by omega)
        refine .advance (fun t c' ht hends => ?_) fun t c' ht => ?_
        · rw [← ht, hends] at hop
          cases hop
        · have hright := @tighter fuel _ hprefix.le c'
          rw [htier] at hright
          refine hright.bind fun w right c'' hright => .fresh fun id c3 hkinds => ?_
          have hboth (m : ExprMark) (hm : m.type = none) :
              Derives (.expr op.level ((Expr.binary m op left right).blur .places)) (v ++ op.token :: w) := by
            rw [Expr.blur, ExprMark.blur_places hm]
            exact .binary (hleft.loosenTo (hhalts.operator hop)) hright.1
          refine (goOn hlevel hbinds (hboth _ rfl) (hright.2.congr hkinds)).weaken fun w' e c4 he => ?_
          rw [ht, ← htoken]
          simpa using he

theorem operand {fuel : Nat} (c : Cursor) : Consumes (Parse.operand fuel) c fun w e c' =>
    ∃ least, prefixLevel ≤ least ∧ Derives (.expr least (e.blur .places)) w ∧ c'.Halts least := by
  match fuel with
  | 0 => exact .throw
  | fuel + 1 =>
  rw [Parse.operand]
  refine .peek fun t ht => ?_
  split
  · rename_i hless
    refine .advance (fun t' c' ht' hends => ?_) fun t' c1 ht' => ?_
    · rw [← ht'.trans ht.symm, hends] at hless
      cases hless
    · refine (plainType c1).bind fun v target c2 htarget => .expectSymbol fun c3 => ?_
      refine (tighter le_rfl c3).bind fun w value c4 hvalue => .finish _ fun m c5 hm hkinds => ?_
      refine ⟨prefixLevel, le_rfl, ?_, hvalue.2.congr hkinds⟩
      rw [Expr.blur, ExprMark.blur_places hm, ht'.trans ht.symm, hless]
      simpa [Tokens.between] using Derives.cast htarget.1 hvalue.1
  · split
    · rename_i op hop
      obtain ⟨htoken, hpostfix⟩ := UnaryOp.token_of_ofToken hop
      refine .advance (fun t' c' ht' hends => ?_) fun t' c1 ht' => ?_
      · rw [← ht'.trans ht.symm, hends] at hop
        cases hop
      · refine (tighter le_rfl c1).bind fun w value c2 hvalue => .finish _ fun m c3 hm hkinds => ?_
        refine ⟨prefixLevel, le_rfl, ?_, hvalue.2.congr hkinds⟩
        rw [Expr.blur, ExprMark.blur_places hm, ht'.trans ht.symm, ← htoken, append_nil]
        exact .prefixed hpostfix hvalue.1
    · refine (primary c).weaken fun w e c' he => ?_
      exact ⟨primaryLevel, by decide, he, .tightest (by decide)⟩

theorem primary {fuel : Nat} (c : Cursor) : Consumes (Parse.primary fuel) c fun w e _ =>
    Derives (.expr primaryLevel (e.blur .places)) w := by
  match fuel with
  | 0 => exact .throw
  | fuel + 1 =>
  rw [primary_step]
  refine .advance (fun t c' _ hends => ?_) fun t c1 _ => ?_
  · rw [hends]
    exact .throw
  · generalize t.kind = kind
    cases kind with
    | int | float | char | string | identifier =>
      refine .finish _ fun m _ hm _ => ?_
      rw [Expr.blur, ExprMark.blur_places hm]
      exact .atom rfl
    | keyword word =>
      cases word with
      | null_ =>
        refine .finish _ fun m _ hm _ => ?_
        rw [Expr.blur, ExprMark.blur_places hm]
        exact .atom rfl
      | sizeof_ =>
        refine .expectSymbol fun c2 => (plainType c2).bind fun w target c3 htarget => ?_
        refine .expectSymbol fun c4 => .finish _ fun m _ hm _ => ?_
        rw [Expr.blur, ExprMark.blur_places hm]
        exact .sizeof htarget.1
      | _ => exact .throw
    | symbol sign =>
      cases sign with
      | leftParen =>
        refine (tighter (Nat.zero_le _) c1).bind fun w inner c2 hinner => ?_
        exact .expectSymbol fun c3 => .pure (.parens hinner.1)
      | leftBracket =>
        refine (expressions _ c1).bind fun w items c2 hitems => ?_
        refine .expectSymbol fun c3 => .finish _ fun m _ hm _ => ?_
        rw [Expr.blur, ExprMark.blur_places hm]
        exact .array hitems
      | _ => exact .throw
    | _ => exact .throw

theorem suffix {fuel : Nat} {object : Expr} {v : List TokenKind}
    (hobject : Derives (.expr postfixLevel (object.blur .places)) v) (c : Cursor) :
    Consumes (Parse.suffix fuel object) c fun w e _ =>
      Derives (.expr postfixLevel (e.blur .places)) (v ++ w) := by
  match fuel with
  | 0 => exact .throw
  | fuel + 1 =>
  rw [Parse.suffix]
  refine .advance (fun t c' _ hends => ?_) fun t c1 _ => ?_
  · rw [hends]
    exact .throw
  · split
    · rename_i hk
      refine .finish _ fun m _ hm _ => ?_
      rw [Expr.blur, ExprMark.blur_places hm, hk]
      exact .stepped rfl hobject
    · rename_i hk
      refine .finish _ fun m _ hm _ => ?_
      rw [Expr.blur, ExprMark.blur_places hm, hk]
      exact .stepped rfl hobject
    · rename_i hk
      refine (expressions _ c1).bind fun w args c2 hargs => .expectSymbol fun c3 => ?_
      refine .finish _ fun m _ hm _ => ?_
      rw [Expr.blur, ExprMark.blur_places hm, hk]
      exact .call hobject hargs
    · rename_i hk
      refine (tighter (Nat.zero_le _) c1).bind fun w position c2 hposition => .expectSymbol fun c3 => ?_
      refine .finish _ fun m _ hm _ => ?_
      rw [Expr.blur, ExprMark.blur_places hm, hk]
      exact .index hobject hposition.1
    · rename_i hk
      refine .expectName fun n span c2 => .finish _ fun m _ hm _ => ?_
      rw [Expr.blur, ExprMark.blur_places hm, hk]
      exact .member hobject
    · rename_i hk
      refine .expectName fun n span c2 => .finish _ fun m _ hm _ => ?_
      rw [Expr.blur, ExprMark.blur_places hm, hk]
      exact .member hobject
    · exact .throw

theorem expressions {fuel : Nat} (closing : Symbol) (c : Cursor) :
    Consumes (Parse.expressions fuel closing) c fun w es _ =>
      Derives (.items (Expr.blurList .places es)) w := by
  match fuel with
  | 0 => exact .throw
  | fuel + 1 =>
  rw [Parse.expressions]
  refine .next _ ?_
  split
  · exact .pure .noItems
  · refine (tighter (Nat.zero_le _) c).bind fun v first c1 hfirst => .accept (fun _ c2 => ?_) fun _ => ?_
    · exact (expressions closing c2).bind fun w more c3 hmore => .pure (by simpa using .item hfirst.1 hmore)
    · refine .pure ?_
      rw [append_nil]
      exact .lastItem hfirst.1

theorem plainType {fuel : Nat} (c : Cursor) : Consumes (Parse.plainType fuel) c fun w t c' =>
    Derives (.type (t.blur .places)) w ∧ c'.upcoming ≠ .symbol .leftBracket := by
  match fuel with
  | 0 => exact .throw
  | fuel + 1 =>
  rw [Parse.plainType]
  refine (typeOrVararg c).bind fun w t c' ht => ?_
  split
  · exact .throw
  · rename_i hplain
    refine .pure ?_
    rw [append_nil]
    exact ht.2 (by simpa using hplain)

theorem typeOrVararg {fuel : Nat} (c : Cursor) : Consumes (Parse.typeOrVararg fuel) c fun w t c' =>
    Derives (.param (t.blur .places)) w ∧
      (t.isVararg = false → Derives (.type (t.blur .places)) w ∧ c'.upcoming ≠ .symbol .leftBracket) := by
  match fuel with
  | 0 => exact .throw
  | fuel + 1 =>
  rw [Parse.typeOrVararg]
  refine .peek fun t _ => .accept (fun _ c1 => ?_) fun _ => ?_
  · exact .spanFrom _ fun span => .pure ⟨.dots, fun h => by cases h⟩
  · refine (typeBase c).bind fun v base c1 hbase => ?_
    refine (typeSuffixes _ hbase.1 hbase.2).weaken fun w t c' ht => ?_
    exact ⟨.param ht.1, fun _ => ht⟩

theorem typeSuffixes {fuel : Nat} {c : Cursor} {t : TypeExpr} {v : List TokenKind} (start : Location)
    (htype : Derives (.type (t.blur .places)) v)
    (hbase : c.upcoming = .symbol .leftBracket → Derives (.base (t.blur .places)) v) :
    Consumes (Parse.typeSuffixes fuel start t) c fun w t' c' =>
      Derives (.type (t'.blur .places)) (v ++ w) ∧ c'.upcoming ≠ .symbol .leftBracket := by
  match fuel with
  | 0 => exact .throw
  | fuel + 1 =>
  -- A suffix wraps what stands before it, and the whole can be wrapped again.
  have hgo {whole : TypeExpr} {row : List TokenKind} (hwhole : Derives (.base (whole.blur .places)) row)
      (c' : Cursor) : Consumes (Parse.typeSuffixes fuel start whole) c' fun w t' c'' =>
        Derives (.type (t'.blur .places)) (row ++ w) ∧ c''.upcoming ≠ .symbol .leftBracket :=
    typeSuffixes start (.plain hwhole) fun _ => hwhole
  rw [Parse.typeSuffixes]
  refine .accept (fun hbracket c1 => ?_) fun hends => ?_
  · have helement := hbase hbracket
    refine .accept (fun _ c2 => .spanFrom _ fun span => ?_) fun _ => ?_
    · have hpointer : Derives (.base ((TypeExpr.pointer span t).blur .places)) _ := .pointer helement
      exact (hgo hpointer c2).weaken fun w t' c' ht => by simpa [Tokens.between] using ht
    · refine (tighter (Nat.zero_le _) c1).bind fun u size c2 hsize => ?_
      refine .expectSymbol fun c3 => .spanFrom _ fun span => ?_
      have harray : Derives (.base ((TypeExpr.array span t size).blur .places)) _ := .sized helement hsize.1
      exact (hgo harray c3).weaken fun w t' c' ht => by simpa [Tokens.between] using ht
  · refine .pure ⟨?_, hends⟩
    rw [append_nil]
    exact htype

theorem typeBase {fuel : Nat} (c : Cursor) : Consumes (Parse.typeBase fuel) c fun w t c' =>
    Derives (.type (t.blur .places)) w ∧
      (c'.upcoming = .symbol .leftBracket → Derives (.base (t.blur .places)) w) := by
  match fuel with
  | 0 => exact .throw
  | fuel + 1 =>
  rw [Parse.typeBase]
  refine .advance (fun t c' _ hends => ?_) fun t c1 _ => ?_
  · rw [hends]
    exact .throw
  · split
    · rename_i hk
      rw [hk]
      exact .pure ⟨.plain .typeName, fun _ => .typeName⟩
    · rename_i hk
      refine (plainType c1).bind fun w inner c2 hinner => .expectSymbol fun c3 => .pure ?_
      rw [hk]
      exact ⟨.plain (.braces hinner.1), fun _ => .braces hinner.1⟩
    · rename_i hk
      have hrest (v : List TokenKind) (params : List TypeExpr) (c2 : Cursor)
          (hparams : Derives (.params (TypeExpr.blurList .places params)) v) :
          Consumes (do
            expectSymbol .rightParen "callable type"
            expectSymbol .arrow "callable type"
            let returns ← Parse.plainType fuel
            return TypeExpr.function (← spanFrom t.start) params returns) c2 fun w t' c' =>
            Derives (.type (t'.blur .places)) (t.kind :: (v ++ w)) ∧
              (c'.upcoming = .symbol .leftBracket → Derives (.base (t'.blur .places)) (t.kind :: (v ++ w))) := by
        refine .expectSymbol fun c3 => .expectSymbol fun c4 => ?_
        refine (plainType c4).bind fun w returns c5 hreturns => .spanFrom _ fun span => .pure ?_
        rw [hk]
        have hwhole : Derives (.type ((TypeExpr.function span params returns).blur .places)) _ :=
          .function hparams hreturns.1
        refine ⟨?_, fun hbracket => absurd hbracket hreturns.2⟩
        simpa [Tokens.between] using hwhole
      refine .next _ ?_
      split
      · exact hrest [] [] c1 .noParams
      · exact (typeList c1).bind fun v params c2 hparams => hrest v params c2 hparams.1
    · exact .throw

theorem typeList {fuel : Nat} (c : Cursor) : Consumes (Parse.typeList fuel) c fun w ts _ =>
    Derives (.params (TypeExpr.blurList .places ts)) w ∧ ts ≠ [] := by
  match fuel with
  | 0 => exact .throw
  | fuel + 1 =>
  rw [Parse.typeList]
  refine (typeOrVararg c).bind fun v first c1 hfirst => .accept (fun _ c2 => ?_) fun _ => ?_
  · refine (typeList c2).bind fun w more c3 hmore => .pure ⟨?_, cons_ne_nil _ _⟩
    rw [append_nil]
    obtain ⟨hmore, hne⟩ := hmore
    cases more with
    | nil => exact absurd rfl hne
    | cons t ts => exact .moreParams hfirst.1 hmore
  · refine .pure ⟨?_, cons_ne_nil _ _⟩
    rw [append_nil]
    exact .lastParam hfirst.1

end

end Derived

/-! ### One tree for a row -/

/-- A reader that leaves `rest` has taken all that stands before it. -/
theorem Reads.consumed {α β : Type} {p : Parse α} {w rest : List TokenKind} {view : α → β} {b : β}
    (h : Reads p c rest (view · = b)) (phrase : β → Phrase)
    (hp : Consumes p c fun w a _ => Derives (phrase (view a)) w) (hc : c.At (w ++ rest)) :
    Derives (phrase b) w := by
  obtain ⟨a, c', hrun, hc', rfl⟩ := h
  obtain ⟨v, hv, hderives⟩ := hp a c' hrun
  rw [Cursor.kinds, Cursor.kinds, hc.tokens, hc'.tokens] at hv
  rw [append_cancel_right hv]
  exact hderives

theorem expression_consumes (c : Cursor) : Consumes expression c fun w e _ => Derives (.expr 1 (e.blur .places)) w :=
  .get ((Derived.tighter (Nat.zero_le _) c).weaken fun _ _ _ h => h.1)

theorem type_consumes (c : Cursor) : Consumes type c fun w t _ => Derives (.type (t.blur .places)) w :=
  .get ((Derived.plainType c).weaken fun _ _ _ h => h.1)

theorem Reads.unique {α β : Type} {p : Parse α} {rest : List TokenKind} {view : α → β}
    {b b' : β} (h : Reads p c rest (view · = b)) (h' : Reads p c rest (view · = b')) : b = b' := by
  obtain ⟨a, c1, ha, _, rfl⟩ := h
  obtain ⟨a', c2, ha', _, rfl⟩ := h'
  cases ha.symm.trans ha'
  rfl

end Parse

/-- A cursor before a row of tokens, whatever their places. -/
def Cursor.before (kinds : List TokenKind) : Cursor :=
  { file := "", tokens := kinds.map fun k => ⟨k, default⟩, failure := none, lastEnd := default }

theorem Cursor.before_at (kinds : List TokenKind) : (Cursor.before kinds).At kinds :=
  ⟨by simp [before, Function.comp_def], rfl⟩

namespace Derives

variable {w : List TokenKind}

theorem unique_expr {a b : Expr} (ha : Derives (.expr 1 a) w) (hb : Derives (.expr 1 b) w) : a = b :=
  (ha.readsExpression (Cursor.before_at _) (.closing rfl rfl : Stops 0 [.newline])).unique
    (hb.readsExpression (Cursor.before_at _) (.closing rfl rfl))

theorem unique_type {s t : TypeExpr} (hs : Derives (.type s) w) (ht : Derives (.type t) w) : s = t :=
  (hs.readsType (Cursor.before_at _) (⟨.newline, [], rfl, nofun⟩ : EndsType [.newline])).unique
    (ht.readsType (Cursor.before_at _) ⟨_, _, rfl, nofun⟩)

end Derives

namespace Parse

/-- **Reading accepts the grammar, exactly.** Before a token that goes on with no expression, reading an
expression takes a row `w` and gives a tree if and only if `w` derives that tree; the same holds of types
before a token that opens no suffix. A row derives at most one tree. -/
theorem reads_iff_derives (w rest : List TokenKind) (z : TokenKind) :
    (z.followsOperand = false → BinaryOp.ofToken z = none → ∀ (c : Cursor), c.At (w ++ z :: rest) →
      ∀ a, Reads expression c (z :: rest) (·.blur .places = a) ↔ Derives (.expr 1 a) w) ∧
    (z ≠ .symbol .leftBracket → ∀ (c : Cursor), c.At (w ++ z :: rest) →
      ∀ t, Reads type c (z :: rest) (·.blur .places = t) ↔ Derives (.type t) w) ∧
    (∀ a b, Derives (.expr 1 a) w → Derives (.expr 1 b) w → a = b) ∧
    (∀ s t, Derives (.type s) w → Derives (.type t) w → s = t) := by
  refine ⟨fun hfollows hop c hc a => ⟨fun h => ?_, fun h => ?_⟩, fun hz c hc t => ⟨fun h => ?_, fun h => ?_⟩,
    fun _ _ ha hb => ha.unique_expr hb, fun _ _ hs ht => hs.unique_type ht⟩
  · exact h.consumed (.expr 1) (expression_consumes c) hc
  · exact h.readsExpression hc (.closing hfollows hop)
  · exact h.consumed .type (type_consumes c) hc
  · exact h.readsType hc ⟨z, rest, rfl, hz⟩

/-- The rows of `-a - b * f(c,)` and of `() -> int[]`: the product goes under the difference, the comma
leaves nothing, and the suffix belongs to the type returned. -/
theorem reads_iff_derives_difference :
    let row : List TokenKind := [.symbol .minus, .identifier "a", .symbol .minus, .identifier "b", .symbol .star,
      .identifier "f", .symbol .leftParen, .identifier "c", .symbol .comma, .symbol .rightParen]
    let tree : Expr := .binary .bare .sub (.unary .bare .minus (.name .bare "a"))
      (.binary .bare .mul (.name .bare "b") (.call .bare (.name .bare "f") [.name .bare "c"]))
    let typeRow : List TokenKind := [.symbol .leftParen, .symbol .rightParen, .symbol .arrow, .identifier "int",
      .symbol .leftBracket, .symbol .rightBracket]
    let typeTree : TypeExpr := .function default [] (.pointer default (.name default "int"))
    Reads expression (.before (row ++ [.newline])) [.newline] (·.blur .places = tree) ∧
      Reads type (.before (typeRow ++ [.newline])) [.newline] (·.blur .places = typeTree) ∧
      (∀ b, Derives (.expr 1 b) row → b = tree) ∧ ∀ t, Derives (.type t) typeRow → t = typeTree := by
  intro row tree typeRow typeTree
  have hname (n : String) : Derives (.expr primaryLevel (.name .bare n)) [.identifier n] := .atom rfl
  have hcall : Derives (.expr postfixLevel (.call .bare (.name .bare "f") [.name .bare "c"])) _ :=
    .call (hname "f").loosen (.item ((hname "c").loosenTo (by decide)) .noItems)
  have hproduct : Derives (.expr BinaryOp.mul.level _) _ := .binary ((hname "b").loosenTo (by decide)) hcall.loosen
  have hminus : Derives (.expr prefixLevel (.unary .bare .minus (.name .bare "a"))) _ :=
    .prefixed rfl ((hname "a").loosenTo (by decide))
  have hrow : Derives (.expr BinaryOp.sub.level tree) row := .binary (hminus.loosenTo (by decide)) hproduct
  have htypeRow : Derives (.type typeTree) typeRow := .function .noParams (.plain (.pointer .typeName))
  have hexpr := reads_iff_derives row [] .newline
  have htype := reads_iff_derives typeRow [] .newline
  exact ⟨(hexpr.1 rfl rfl _ (Cursor.before_at _) tree).mpr (hrow.loosenTo (by decide)),
    (htype.2.1 nofun _ (Cursor.before_at _) typeTree).mpr htypeRow,
    fun b hb => hexpr.2.2.1 b tree hb (hrow.loosenTo (by decide)), fun t ht => htype.2.2.2 t typeTree ht htypeRow⟩

end Parse

end Offside
