import Offside.Proofs.Tree.Blur
import Offside.Proofs.Tree.Tokens
import Offside.Proofs.Tree.WellFormed

/-! The grammar of expressions and types.

`Derives phrase kinds` says that a row of tokens is a phrase: an expression of some level, the items of a
list, a type. A phrase names the tree that the row stands for, so the rules give the trees along with the
rows. The levels are those of the operators: ten of binary operators, which group to the left, then prefix
operators and casts, then what follows an operand, then operands without operators. The tokens of a
well-formed tree are derived for it (`Expr.derives`, `TypeExpr.derives`). -/
namespace Offside

variable {a : Expr} {w : List TokenKind}

/-! ### Phrases -/

/-- The mark of a node without number and place. -/
def ExprMark.bare : ExprMark := ⟨default, none⟩

theorem ExprMark.blur_places {m : ExprMark} (h : m.type = none) : m.blur .places = .bare := by
  rw [ExprMark.blur, h]
  rfl

/-- What a row of tokens can be, with the tree that it stands for, which has no numbers and places. -/
inductive Phrase where
  /-- An expression whose operators outside brackets have at least this level. -/
  | expr (level : Nat) (tree : Expr)
  /-- The arguments of a call or the items of an array. -/
  | items (trees : List Expr)
  | type (tree : TypeExpr)
  /-- A type that suffixes can follow. -/
  | base (tree : TypeExpr)
  /-- A parameter of a function type. -/
  | param (tree : TypeExpr)
  | params (trees : List TypeExpr)

/-- The operand that a single token is. -/
def TokenKind.atom : TokenKind → Option Expr
  | .int value => some (.int .bare value)
  | .float value => some (.float .bare value)
  | .char value => some (.char .bare value)
  | .string value => some (.string .bare value)
  | .keyword .null_ => some (.null .bare)
  | .identifier name => some (.name .bare name)
  | _ => none

inductive Derives : Phrase → List TokenKind → Prop where
  -- Binary operators. What binds tighter may stand where less is asked for.
  | binary {op : BinaryOp} {a b : Expr} {v w : List TokenKind} (left : Derives (.expr op.level a) v)
      (right : Derives (.expr (op.level + 1) b) w) :
      Derives (.expr op.level (.binary .bare op a b)) (v ++ op.token :: w)
  | loosen {level : Nat} {a : Expr} {w : List TokenKind} (whole : Derives (.expr (level + 1) a) w) :
      Derives (.expr level a) w
  -- Prefix operators and casts.
  | prefixed {op : UnaryOp} {a : Expr} {w : List TokenKind} (hop : op.isPostfix = false)
      (operand : Derives (.expr prefixLevel a) w) :
      Derives (.expr prefixLevel (.unary .bare op a)) (op.token :: w)
  | cast {t : TypeExpr} {a : Expr} {v w : List TokenKind} (target : Derives (.type t) v)
      (operand : Derives (.expr prefixLevel a) w) :
      Derives (.expr prefixLevel (.cast .bare t a)) (Tokens.between .less .greater v ++ w)
  -- What follows an operand.
  | stepped {op : UnaryOp} {a : Expr} {w : List TokenKind} (hop : op.isPostfix = true)
      (operand : Derives (.expr postfixLevel a) w) :
      Derives (.expr postfixLevel (.unary .bare op a)) (w ++ [op.token])
  | call {a : Expr} {args : List Expr} {v w : List TokenKind} (callee : Derives (.expr postfixLevel a) v)
      (arguments : Derives (.items args) w) :
      Derives (.expr postfixLevel (.call .bare a args)) (v ++ Tokens.between .leftParen .rightParen w)
  | index {a i : Expr} {v w : List TokenKind} (object : Derives (.expr postfixLevel a) v)
      (position : Derives (.expr 1 i) w) :
      Derives (.expr postfixLevel (.index .bare a i)) (v ++ Tokens.between .leftBracket .rightBracket w)
  | member {a : Expr} {name : String} {arrow : Bool} {w : List TokenKind}
      (object : Derives (.expr postfixLevel a) w) :
      Derives (.expr postfixLevel (.member .bare a name arrow))
        (w ++ [.symbol (if arrow then .arrow else .dot), .identifier name])
  -- Operands without operators. Parentheses leave no trace in the tree.
  | atom {k : TokenKind} {a : Expr} (hk : k.atom = some a) : Derives (.expr primaryLevel a) [k]
  | parens {a : Expr} {w : List TokenKind} (inner : Derives (.expr 1 a) w) :
      Derives (.expr primaryLevel a) (Tokens.between .leftParen .rightParen w)
  | array {as : List Expr} {w : List TokenKind} (items : Derives (.items as) w) :
      Derives (.expr primaryLevel (.array .bare as)) (Tokens.between .leftBracket .rightBracket w)
  | sizeof {t : TypeExpr} {w : List TokenKind} (target : Derives (.type t) w) :
      Derives (.expr primaryLevel (.sizeof .bare t))
        (.keyword .sizeof_ :: Tokens.between .leftParen .rightParen w)
  -- Items have commas between them, and there may be one behind the last.
  | noItems : Derives (.items []) []
  | lastItem {a : Expr} {w : List TokenKind} (last : Derives (.expr 1 a) w) : Derives (.items [a]) w
  | item {a : Expr} {as : List Expr} {v w : List TokenKind} (first : Derives (.expr 1 a) v)
      (more : Derives (.items as) w) : Derives (.items (a :: as)) (v ++ .symbol .comma :: w)
  -- A suffix wraps all that stands before it.
  | typeName {name : String} : Derives (.base (.name default name)) [.identifier name]
  | braces {t : TypeExpr} {w : List TokenKind} (inner : Derives (.type t) w) :
      Derives (.base t) (Tokens.between .leftBrace .rightBrace w)
  | pointer {t : TypeExpr} {w : List TokenKind} (target : Derives (.base t) w) :
      Derives (.base (.pointer default t)) (w ++ Tokens.between .leftBracket .rightBracket [])
  | sized {t : TypeExpr} {n : Expr} {v w : List TokenKind} (element : Derives (.base t) v)
      (size : Derives (.expr 1 n) w) :
      Derives (.base (.array default t n)) (v ++ Tokens.between .leftBracket .rightBracket w)
  | plain {t : TypeExpr} {w : List TokenKind} (base : Derives (.base t) w) : Derives (.type t) w
  -- A function type takes no suffix: those behind it belong to the type that it returns.
  | function {ts : List TypeExpr} {t : TypeExpr} {v w : List TokenKind} (params : Derives (.params ts) v)
      (returns : Derives (.type t) w) :
      Derives (.type (.function default ts t))
        (Tokens.between .leftParen .rightParen v ++ .symbol .arrow :: w)
  -- Parameters have commas between them only.
  | param {t : TypeExpr} {w : List TokenKind} (type : Derives (.type t) w) : Derives (.param t) w
  | dots : Derives (.param (.vararg default)) [.symbol .ellipsis]
  | noParams : Derives (.params []) []
  | lastParam {t : TypeExpr} {w : List TokenKind} (last : Derives (.param t) w) : Derives (.params [t]) w
  | moreParams {t t' : TypeExpr} {ts : List TypeExpr} {v w : List TokenKind}
      (first : Derives (.param t) v) (more : Derives (.params (t' :: ts)) w) :
      Derives (.params (t :: t' :: ts)) (v ++ .symbol .comma :: w)

/-! ### Levels and first tokens -/

theorem Derives.loosenTo {level least : Nat} (h : Derives (.expr level a) w)
    (hle : least ≤ level) : Derives (.expr least a) w := by
  induction hle with
  | refl => exact h
  | step _ ih => exact ih h.loosen

theorem TokenKind.startsExpr_of_atom {k : TokenKind} (h : k.atom = some a) :
    k.startsExpr = true := by
  cases k with
  | keyword word => cases word <;> first | rfl | cases h
  | int | float | char | string | identifier => rfl
  | _ => cases h

/-- What a phrase starts with. -/
def Phrase.Start : Phrase → List TokenKind → Prop
  | .expr _ _, w => StartsWith TokenKind.startsExpr w
  | .type _, w | .base _, w | .param _, w => StartsWith TokenKind.startsType w
  | .params (_ :: _), w => StartsWith TokenKind.startsType w
  | .params [], _ | .items _, _ => True

theorem Derives.start {phrase : Phrase} (h : Derives phrase w) : phrase.Start w := by
  induction h with
  | binary _ _ ih _ | call _ _ ih _ | index _ _ ih _ | sized _ _ ih _ | moreParams _ _ ih _ =>
    exact ih.append _
  | stepped _ _ ih | member _ ih | pointer _ ih => exact ih.append _
  | loosen _ ih | plain _ ih | param _ ih | lastParam _ ih => exact ih
  | @prefixed op =>
    refine ⟨_, _, rfl, ?_⟩
    cases op <;> rfl
  | atom hk => exact ⟨_, _, rfl, TokenKind.startsExpr_of_atom hk⟩
  | cast | parens | array | sizeof | typeName | braces | function | dots => exact ⟨_, _, rfl, rfl⟩
  | noItems | lastItem | item | noParams => trivial

/-! ### The tokens of trees -/

theorem Expr.level_pos (e : Expr) : 0 < e.level := by
  cases e with
  | binary m op l r =>
    show 0 < op.level
    cases op <;> decide
  | unary m op e =>
    show 0 < if op.isPostfix then postfixLevel else prefixLevel
    split <;> decide
  | _ => exact Nat.succ_pos _

namespace Derives

/-- Operands stand in parentheses where they would bind too loosely. -/
theorem inParens {e : Expr} {least : Nat} (h : Derives (.expr e.level a) w) (hleast : least ≤ primaryLevel) :
    Derives (.expr least a) (Tokens.inParens (e.level < least) w) := by
  unfold Tokens.inParens
  split
  · exact (Derives.parens (h.loosenTo e.level_pos)).loosenTo hleast
  · rename_i hlevel
    exact h.loosenTo (by simpa using hlevel)

/-- Among the parameters of a function type there may be dots. -/
theorem ofType {t : TypeExpr} (h : t.isVararg = false → Derives (.type (t.blur .places)) t.tokens) :
    Derives (.param (t.blur .places)) t.tokens := by
  cases t with
  | vararg s => exact .dots
  | _ => exact .param (h rfl)

end Derives

mutual

theorem Expr.derives : (e : Expr) → e.WellFormed → Derives (.expr e.level (e.blur .places)) e.tokens
  | .int _ _, h | .float _ _, h | .char _ _, h | .name _ _, h => by
    rw [Expr.blur, ExprMark.blur_places h.1]
    exact .atom rfl
  | .string _ _, h | .null _, h => by
    rw [Expr.blur, ExprMark.blur_places h]
    exact .atom rfl
  | .array _ items, h => by
    rw [Expr.blur, ExprMark.blur_places h.1]
    exact .array (Expr.derivesList items h.2)
  | .binary _ op l r, h => by
    have hlevel : op.level < primaryLevel := by cases op <;> decide
    rw [Expr.blur, ExprMark.blur_places h.1]
    exact .binary ((l.derives h.2.1).inParens hlevel.le) ((r.derives h.2.2).inParens hlevel)
  | .unary _ op e, h => by
    have he := e.derives h.2
    rw [Expr.blur, ExprMark.blur_places h.1, Expr.tokens, Expr.level]
    cases hop : op.isPostfix with
    | true => exact .stepped hop (he.inParens (by decide))
    | false => exact .prefixed hop (he.inParens (by decide))
  | .call _ f args, h => by
    rw [Expr.blur, ExprMark.blur_places h.1]
    exact .call ((f.derives h.2.1).inParens (by decide)) (Expr.derivesList args h.2.2)
  | .index _ o i, h => by
    rw [Expr.blur, ExprMark.blur_places h.1]
    exact .index ((o.derives h.2.1).inParens (by decide)) ((i.derives h.2.2).loosenTo i.level_pos)
  | .member _ o _ _, h => by
    rw [Expr.blur, ExprMark.blur_places h.1]
    exact .member ((o.derives h.2.1).inParens (by decide))
  | .cast _ t e, h => by
    rw [Expr.blur, ExprMark.blur_places h.1]
    exact .cast (t.derives h.2.2.1 h.2.1).2 ((e.derives h.2.2.2).inParens (by decide))
  | .sizeof _ t, h => by
    rw [Expr.blur, ExprMark.blur_places h.1]
    exact .sizeof (t.derives h.2.2 h.2.1).2

theorem Expr.derivesList : (es : List Expr) → Expr.WellFormedList es →
    Derives (.items (Expr.blurList .places es)) (Tokens.commaSeparated (Expr.tokensList es))
  | [], _ => .noItems
  | [e], h => by
    rw [Expr.tokensList, Expr.tokensList, Tokens.commaSeparated_single]
    exact .lastItem ((e.derives h.1).loosenTo e.level_pos)
  | e :: e' :: rest, h => by
    have hmore := Expr.derivesList (e' :: rest) h.2
    rw [Expr.tokensList, Expr.tokensList, Tokens.commaSeparated_cons_cons]
    exact .item ((e.derives h.1).loosenTo e.level_pos) hmore

/-- A function type goes into braces before a suffix. -/
theorem TypeExpr.derives : (t : TypeExpr) → t.WellFormed → t.isVararg = false →
    Derives (.base (t.blur .places)) (t.suffixBaseTokens t.tokens) ∧ Derives (.type (t.blur .places)) t.tokens
  | .name _ _, _, _ => ⟨.typeName, .plain .typeName⟩
  | .vararg _, _, h => nomatch h
  | .function _ params returns, h, _ =>
    have hwhole := Derives.function (TypeExpr.derivesList params h.1) (returns.derives h.2.2 h.2.1).2
    ⟨.braces hwhole, hwhole⟩
  | .pointer _ t, h, _ =>
    have hwhole := Derives.pointer (t.derives h.2 h.1).1
    ⟨hwhole, .plain hwhole⟩
  | .array _ t size, h, _ =>
    have hwhole := Derives.sized (t.derives h.2.1 h.1).1 ((size.derives h.2.2).loosenTo size.level_pos)
    ⟨hwhole, .plain hwhole⟩

theorem TypeExpr.derivesList : (ts : List TypeExpr) → TypeExpr.WellFormedList ts →
    Derives (.params (TypeExpr.blurList .places ts)) (Tokens.commaSeparated (TypeExpr.tokensList ts))
  | [], _ => .noParams
  | [t], h => by
    rw [TypeExpr.tokensList, TypeExpr.tokensList, Tokens.commaSeparated_single]
    exact .lastParam (.ofType fun hplain => (t.derives h.1 hplain).2)
  | t :: t' :: rest, h => by
    have hmore := TypeExpr.derivesList (t' :: rest) h.2
    rw [TypeExpr.tokensList, TypeExpr.tokensList, Tokens.commaSeparated_cons_cons]
    exact .moreParams (.ofType fun hplain => (t.derives h.1 hplain).2) hmore

end

end Offside
