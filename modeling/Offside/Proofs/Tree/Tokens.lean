import Offside.Tree.Print

/-! The tokens that a tree is written with.

Beside the text that a tree is printed as, the row of its tokens, with blocks made explicit. Printing and
this row agree on where parentheses and braces stand; that the printed text reads as the row is shown in
`Offside.Proofs.Tree.Written`, that the row reads as the tree in `Offside.Proofs.Grammar.Reading`. -/
namespace Offside

open List TokenKind

/-- The token that spells the operator, before its operand or behind it. -/
def UnaryOp.token : UnaryOp → TokenKind
  | plus => .symbol .plus
  | minus => .symbol .minus
  | logicalNot => .keyword .not_
  | bitNot => .symbol .tilde
  | addressOf => .symbol .ampersand
  | dereference => .symbol .star
  | preIncrement | postIncrement => .symbol .plusPlus
  | preDecrement | postDecrement => .symbol .minusMinus

theorem UnaryOp.ofToken_token {op : UnaryOp} (h : op.isPostfix = false) : ofToken op.token = some op := by
  cases op <;> first | rfl | cases h

theorem UnaryOp.token_of_ofToken {k : TokenKind} {op : UnaryOp} (h : ofToken k = some op) :
    op.token = k ∧ op.isPostfix = false := by
  unfold ofToken at h
  repeat' split at h
  all_goals cases h
  all_goals exact ⟨rfl, rfl⟩

namespace Tokens

/-- A row between two brackets. -/
def between (opening closing : Symbol) (kinds : List TokenKind) : List TokenKind :=
  .symbol opening :: (kinds ++ [.symbol closing])

def inParens (needed : Bool) (kinds : List TokenKind) : List TokenKind :=
  if needed then between .leftParen .rightParen kinds else kinds

def commaSeparated (items : List (List TokenKind)) : List TokenKind := [TokenKind.symbol .comma].intercalate items

theorem between_append (opening closing : Symbol) (kinds behind : List TokenKind) :
    between opening closing kinds ++ behind = .symbol opening :: (kinds ++ .symbol closing :: behind) := by
  rw [between, cons_append, append_assoc]
  rfl

theorem length_between (opening closing : Symbol) (kinds : List TokenKind) :
    (between opening closing kinds).length = kinds.length + 2 := by
  rw [between, length_cons, length_append]
  rfl

theorem commaSeparated_single (row : List TokenKind) : commaSeparated [row] = row := by
  simp [commaSeparated]

theorem commaSeparated_cons_cons (row row' : List TokenKind) (rows : List (List TokenKind)) :
    commaSeparated (row :: row' :: rows) = row ++ .symbol .comma :: commaSeparated (row' :: rows) := by
  rw [commaSeparated, intercalate_cons_cons, append_assoc]
  rfl

/-- A colon and an indented block. -/
def block (body : List TokenKind) : List TokenKind := .symbol .colon :: .newline :: .indent :: (body ++ [.dedent])

theorem block_append (body behind : List TokenKind) :
    block body ++ behind = .symbol .colon :: .newline :: .indent :: (body ++ .dedent :: behind) := by
  simp [block]

theorem length_block (body : List TokenKind) : (block body).length = body.length + 4 := by
  simp [block]

end Tokens

/-! ### Expressions and types -/

/-- A function type goes into braces before a suffix. -/
def TypeExpr.suffixBaseTokens (base : TypeExpr) (kinds : List TokenKind) : List TokenKind :=
  if base.isFunction then Tokens.between .leftBrace .rightBrace kinds else kinds

mutual

/-- The tokens of an expression without parentheses around it. -/
def Expr.tokens : Expr → List TokenKind
  | .int _ n => [.int n]
  | .float _ x => [.float x]
  | .char _ c => [.char c]
  | .string _ s => [.string s]
  | .null _ => [.keyword .null_]
  | .name _ n => [.identifier n]
  | .array _ items =>
    Tokens.between .leftBracket .rightBracket (Tokens.commaSeparated (Expr.tokensList items))
  | .binary _ op l r =>
    Tokens.inParens (l.level < op.level) l.tokens ++ op.token :: Tokens.inParens (r.level < op.level + 1) r.tokens
  | .unary _ op e =>
    if op.isPostfix then Tokens.inParens (e.level < postfixLevel) e.tokens ++ [op.token]
    else op.token :: Tokens.inParens (e.level < prefixLevel) e.tokens
  | .call _ f args =>
    Tokens.inParens (f.level < postfixLevel) f.tokens ++
      Tokens.between .leftParen .rightParen (Tokens.commaSeparated (Expr.tokensList args))
  | .index _ o i =>
    Tokens.inParens (o.level < postfixLevel) o.tokens ++ Tokens.between .leftBracket .rightBracket i.tokens
  | .member _ o n arrow =>
    Tokens.inParens (o.level < postfixLevel) o.tokens ++ [.symbol (if arrow then .arrow else .dot), .identifier n]
  | .cast _ t e =>
    Tokens.between .less .greater t.tokens ++ Tokens.inParens (e.level < prefixLevel) e.tokens
  | .sizeof _ t => .keyword .sizeof_ :: Tokens.between .leftParen .rightParen t.tokens

def Expr.tokensList : List Expr → List (List TokenKind)
  | [] => []
  | e :: rest => e.tokens :: Expr.tokensList rest

def TypeExpr.tokens : TypeExpr → List TokenKind
  | .name _ n => [.identifier n]
  | .vararg _ => [.symbol .ellipsis]
  | .function _ params returns =>
    Tokens.between .leftParen .rightParen (Tokens.commaSeparated (TypeExpr.tokensList params)) ++
      .symbol .arrow :: returns.tokens
  | .pointer _ t => t.suffixBaseTokens t.tokens ++ Tokens.between .leftBracket .rightBracket []
  | .array _ t size =>
    t.suffixBaseTokens t.tokens ++ Tokens.between .leftBracket .rightBracket size.tokens

def TypeExpr.tokensList : List TypeExpr → List (List TokenKind)
  | [] => []
  | t :: rest => t.tokens :: TypeExpr.tokensList rest

end

/-! ### First tokens

What a row starts with tells expressions from what else may stand in their place. -/

/-- Tokens that an expression can start with. -/
def TokenKind.startsExpr : TokenKind → Bool
  | .int _ | .float _ | .char _ | .string _ | .identifier _ => true
  | .keyword .null_ | .keyword .sizeof_ | .keyword .not_ => true
  | .symbol s =>
    match s with
    | .leftParen | .leftBracket | .less | .plus | .minus | .tilde | .ampersand | .star | .plusPlus
    | .minusMinus => true
    | _ => false
  | _ => false

/-- Tokens that a type can start with. -/
def TokenKind.startsType : TokenKind → Bool
  | .identifier _ | .symbol .leftParen | .symbol .leftBrace | .symbol .ellipsis => true
  | _ => false

/-- Rows that start with such a token. -/
def StartsWith (p : TokenKind → Bool) (kinds : List TokenKind) : Prop := ∃ k ks, kinds = k :: ks ∧ p k = true

namespace StartsWith

variable {p : TokenKind → Bool} {kinds : List TokenKind}

theorem append (h : StartsWith p kinds) (more : List TokenKind) : StartsWith p (kinds ++ more) := by
  obtain ⟨k, ks, rfl, hk⟩ := h
  exact ⟨k, ks ++ more, rfl, hk⟩

theorem ne_nil (h : StartsWith p kinds) : kinds ≠ [] := by
  obtain ⟨k, ks, rfl, _⟩ := h
  exact cons_ne_nil k ks

theorem inParens (h : StartsWith startsExpr kinds) (needed : Bool) :
    StartsWith startsExpr (Tokens.inParens needed kinds) := by
  unfold Tokens.inParens
  split
  · exact ⟨_, _, rfl, rfl⟩
  · exact h

end StartsWith

theorem Expr.tokens_start : (e : Expr) → StartsWith startsExpr e.tokens
  | .int _ _ | .float _ _ | .char _ _ | .string _ _ | .null _ | .name _ _ | .array _ _ | .cast _ _ _
  | .sizeof _ _ => ⟨_, _, rfl, rfl⟩
  | .binary _ _ l _ => (l.tokens_start.inParens _).append _
  | .unary _ op e => by
    rw [Expr.tokens]
    split
    · exact (e.tokens_start.inParens _).append _
    · exact ⟨_, _, rfl, by cases op <;> rfl⟩
  | .call _ f _ => (f.tokens_start.inParens _).append _
  | .index _ o _ => (o.tokens_start.inParens _).append _
  | .member _ o _ _ => (o.tokens_start.inParens _).append _

theorem TypeExpr.suffixBase_start {base : TypeExpr} {kinds : List TokenKind}
    (h : StartsWith startsType kinds) :
    StartsWith startsType (base.suffixBaseTokens kinds) := by
  unfold TypeExpr.suffixBaseTokens
  split
  · exact ⟨_, _, rfl, rfl⟩
  · exact h

theorem TypeExpr.tokens_start : (t : TypeExpr) → StartsWith startsType t.tokens
  | .name _ _ | .vararg _ | .function _ _ _ => ⟨_, _, rfl, rfl⟩
  | .pointer _ t => (suffixBase_start t.tokens_start).append _
  | .array _ t _ => (suffixBase_start t.tokens_start).append _

/-! ### Colons

No expression or type has a colon in it, which is why a colon behind a name makes a declaration and a
colon at the end of a line opens a block. -/

/-- Rows without a colon. -/
def ColonFree (kinds : List TokenKind) : Prop := .symbol .colon ∉ kinds

namespace ColonFree

variable {kinds more : List TokenKind}

theorem nil : ColonFree [] := not_mem_nil

theorem cons {k : TokenKind} (hk : k ≠ .symbol .colon) (h : ColonFree kinds) : ColonFree (k :: kinds) := by
  intro hmem
  rcases mem_cons.mp hmem with heq | hmem
  · exact hk heq.symm
  · exact h hmem

theorem append (h : ColonFree kinds) (hmore : ColonFree more) : ColonFree (kinds ++ more) := by
  intro hmem
  rcases mem_append.mp hmem with hmem | hmem
  · exact h hmem
  · exact hmore hmem

theorem single {k : TokenKind} (hk : k ≠ .symbol .colon) : ColonFree [k] := .cons hk .nil

theorem between {opening closing : Symbol} (ho : opening ≠ .colon) (hc : closing ≠ .colon)
    (h : ColonFree kinds) : ColonFree (Tokens.between opening closing kinds) :=
  .cons (by simpa using ho) (h.append (.single (by simpa using hc)))

theorem inParens (h : ColonFree kinds) (needed : Bool) : ColonFree (Tokens.inParens needed kinds) := by
  unfold Tokens.inParens
  split
  · exact h.between (by decide) (by decide)
  · exact h

theorem commaSeparated {rows : List (List TokenKind)} (h : ∀ row ∈ rows, ColonFree row) :
    ColonFree (Tokens.commaSeparated rows) := by
  unfold Tokens.commaSeparated
  induction rows with
  | nil => exact nil
  | cons row rows ih =>
    cases rows with
    | nil => simpa using h row mem_cons_self
    | cons other rows =>
      rw [intercalate_cons_cons]
      exact ((h row mem_cons_self).append (.single (by decide))).append (ih fun r hr => h r (mem_cons_of_mem _ hr))

theorem suffixBase (h : ColonFree kinds) (base : TypeExpr) : ColonFree (base.suffixBaseTokens kinds) := by
  unfold TypeExpr.suffixBaseTokens
  split
  · exact h.between (by decide) (by decide)
  · exact h

end ColonFree

theorem BinaryOp.token_ne_colon (op : BinaryOp) : op.token ≠ .symbol .colon := by cases op <;> decide

theorem UnaryOp.token_ne_colon (op : UnaryOp) : op.token ≠ .symbol .colon := by cases op <;> decide

mutual

theorem Expr.colonFree : (e : Expr) → ColonFree e.tokens
  | .int _ _ | .float _ _ | .char _ _ | .string _ _ | .null _ | .name _ _ => .single nofun
  | .array _ items => .between (by decide) (by decide) (.commaSeparated (Expr.colonFreeList items))
  | .binary _ op l r =>
    (l.colonFree.inParens _).append (.cons op.token_ne_colon (r.colonFree.inParens _))
  | .unary _ op e => by
    rw [Expr.tokens]
    split
    · exact (e.colonFree.inParens _).append (.single op.token_ne_colon)
    · exact .cons op.token_ne_colon (e.colonFree.inParens _)
  | .call _ f args => (f.colonFree.inParens _).append
      (.between (by decide) (by decide) (.commaSeparated (Expr.colonFreeList args)))
  | .index _ o i => (o.colonFree.inParens _).append (i.colonFree.between (by decide) (by decide))
  | .member _ o _ arrow =>
    (o.colonFree.inParens _).append (.cons (by cases arrow <;> decide) (.single nofun))
  | .cast _ t e => (t.colonFree.between (by decide) (by decide)).append (e.colonFree.inParens _)
  | .sizeof _ t => .cons nofun (t.colonFree.between (by decide) (by decide))

theorem Expr.colonFreeList : (es : List Expr) → ∀ row ∈ Expr.tokensList es, ColonFree row
  | [] => nofun
  | e :: rest => forall_mem_cons.mpr ⟨e.colonFree, Expr.colonFreeList rest⟩

theorem TypeExpr.colonFree : (t : TypeExpr) → ColonFree t.tokens
  | .name _ _ => .single nofun
  | .vararg _ => .single (by decide)
  | .function _ params returns =>
    (ColonFree.between (by decide) (by decide) (.commaSeparated (TypeExpr.colonFreeList params))).append
      (.cons (by decide) returns.colonFree)
  | .pointer _ t =>
    (t.colonFree.suffixBase t).append (.between (by decide) (by decide) .nil)
  | .array _ t size =>
    (t.colonFree.suffixBase t).append (size.colonFree.between (by decide) (by decide))

theorem TypeExpr.colonFreeList : (ts : List TypeExpr) → ∀ row ∈ TypeExpr.tokensList ts, ColonFree row
  | [] => nofun
  | t :: rest => forall_mem_cons.mpr ⟨t.colonFree, TypeExpr.colonFreeList rest⟩

end

/-! ### Parts of statements -/

/-- A token and a type behind it, if there is a type. -/
def TypeExpr.markedTokens (marker : Symbol) : Option TypeExpr → List TokenKind
  | none => []
  | some t => .symbol marker :: t.tokens

def VarDecl.tokens (d : VarDecl) : List TokenKind := .identifier d.name :: (TypeExpr.markedTokens .colon d.declared ++
    match d.init with
    | none => []
    | some e => .symbol .equal :: e.tokens)

def Field.tokens (f : Field) : List TokenKind := .identifier f.name :: .symbol .colon :: (f.type.tokens ++ [.newline])

def Param.tokens (p : Param) : List TokenKind := match p.kind with
  | .vararg => [.symbol .ellipsis]
  | .named n declared => .identifier n :: TypeExpr.markedTokens .colon declared

theorem Param.tokens_start (p : Param) : StartsWith (· != .symbol .rightParen) p.tokens := by
  unfold Param.tokens
  cases p.kind with
  | vararg => exact ⟨_, _, rfl, rfl⟩
  | named => exact ⟨_, _, rfl, rfl⟩

def FunctionHead.tokens (f : FunctionHead) : List TokenKind := .keyword .def_ :: .identifier f.name ::
    (Tokens.between .leftParen .rightParen (Tokens.commaSeparated (f.params.map Param.tokens)) ++
      TypeExpr.markedTokens .arrow f.returns)

/-- The tokens of an expression, if there is one. -/
def Expr.optionalTokens : Option Expr → List TokenKind
  | none => []
  | some e => e.tokens

/-! ### Statements -/

mutual

def Stmt.tokens : Stmt → List TokenKind
  | .expr _ e => e.tokens ++ [.newline]
  | .declare _ d => d.tokens ++ [.newline]
  | .assign _ target value => target.tokens ++ .symbol .equal :: (value.tokens ++ [.newline])
  | .announce _ f => f.tokens ++ [.newline]
  | .function _ f body => f.tokens ++ Tokens.block (Stmt.tokensList body)
  | .result _ value => .keyword .return_ :: (Expr.optionalTokens value ++ [.newline])
  | .ifElse _ c body orelse =>
    .keyword .if_ :: (c.tokens ++ Tokens.block (Stmt.tokensList body) ++ Stmt.elseTokens orelse)
  | .whileLoop _ c body [] => .keyword .while_ :: (c.tokens ++ Tokens.block (Stmt.tokensList body))
  | .whileLoop _ c body (s :: orelse) =>
    .keyword .while_ :: (c.tokens ++ Tokens.block (Stmt.tokensList body) ++
      .keyword .else_ :: Tokens.block (Stmt.tokens s ++ Stmt.tokensList orelse))
  | .doLoop _ body c =>
    .keyword .do_ :: (Tokens.block (Stmt.tokensList body) ++ .keyword .while_ :: (c.tokens ++ [.newline]))
  | .switch _ subject cases default =>
    .keyword .switch_ :: (subject.tokens ++ Tokens.block (SwitchCase.tokensList cases ++ Stmt.defaultTokens default))
  | .leave _ => [.keyword .break_, .newline]
  | .pass _ => [.keyword .pass_, .newline]
  | .struct _ n [] =>
    [.keyword .struct_, .identifier n, .symbol .colon, .keyword .pass_, .newline]
  | .struct _ n (f :: fields) =>
    .keyword .struct_ :: .identifier n :: Tokens.block ((f :: fields).flatMap Field.tokens)
  | .enum _ n members =>
    .keyword .enum_ :: .identifier n :: (Tokens.between .leftBrace .rightBrace
        (Tokens.commaSeparated (members.map fun m => [.identifier m])) ++ [.newline])
  | .typedef _ t n => .keyword .typedef_ :: (t.tokens ++ [.identifier n, .newline])
  | .define _ n value =>
    .keyword .define_ :: .identifier n :: (Expr.optionalTokens value ++ [.newline])
  | .includeFile _ path => [.keyword .include_, .string path, .newline]
  | .ifndef _ n => [.keyword .ifndef_, .identifier n, .newline]
  | .endif _ => [.keyword .endif_, .newline]

def Stmt.tokensList : List Stmt → List TokenKind
  | [] => []
  | s :: rest => Stmt.tokens s ++ Stmt.tokensList rest

/-- What follows the block of a condition. -/
def Stmt.elseTokens : List Stmt → List TokenKind
  | [] => []
  | [.ifElse _ c body orelse] =>
    .keyword .elif_ :: (c.tokens ++ Tokens.block (Stmt.tokensList body) ++ Stmt.elseTokens orelse)
  | s :: rest => .keyword .else_ :: Tokens.block (Stmt.tokens s ++ Stmt.tokensList rest)

def Stmt.defaultTokens : Option (List Stmt) → List TokenKind
  | none => []
  | some body => .keyword .else_ :: Tokens.block (Stmt.tokensList body)

def SwitchCase.tokens : SwitchCase → List TokenKind
  | .mk _ values body =>
    .keyword .case_ :: (Tokens.commaSeparated (Expr.tokensList values) ++ Tokens.block (Stmt.tokensList body))

def SwitchCase.tokensList : List SwitchCase → List TokenKind
  | [] => []
  | c :: rest => SwitchCase.tokens c ++ SwitchCase.tokensList rest

end

/-- All tokens of a file. -/
def Module.tokens (m : Module) : List TokenKind := Stmt.tokensList m.body ++ [.endOfFile]

/-! ### Floating point literals -/

mutual

/-- The floating point literals in an expression. -/
def Expr.floats : Expr → List Number.Double
  | .float _ x => [x]
  | .int _ _ | .char _ _ | .string _ _ | .null _ | .name _ _ => []
  | .array _ items => Expr.floatsList items
  | .binary _ _ l r => l.floats ++ r.floats
  | .unary _ _ e => e.floats
  | .call _ f args => f.floats ++ Expr.floatsList args
  | .index _ o i => o.floats ++ i.floats
  | .member _ o _ _ => o.floats
  | .cast _ t e => t.floats ++ e.floats
  | .sizeof _ t => t.floats

def Expr.floatsList : List Expr → List Number.Double
  | [] => []
  | e :: rest => e.floats ++ Expr.floatsList rest

def TypeExpr.floats : TypeExpr → List Number.Double
  | .name _ _ | .vararg _ => []
  | .pointer _ t => t.floats
  | .array _ t size => t.floats ++ size.floats
  | .function _ params returns => TypeExpr.floatsList params ++ returns.floats

def TypeExpr.floatsList : List TypeExpr → List Number.Double
  | [] => []
  | t :: rest => t.floats ++ TypeExpr.floatsList rest

end

def VarDecl.floats (d : VarDecl) : List Number.Double :=
  d.declared.elim [] TypeExpr.floats ++ d.init.elim [] Expr.floats

def Param.floats (p : Param) : List Number.Double := match p.kind with
  | .vararg => []
  | .named _ declared => declared.elim [] TypeExpr.floats

def FunctionHead.floats (f : FunctionHead) : List Number.Double :=
  f.params.flatMap Param.floats ++ f.returns.elim [] TypeExpr.floats

mutual

def Stmt.floats : Stmt → List Number.Double
  | .expr _ e => e.floats
  | .declare _ d => d.floats
  | .assign _ target value => target.floats ++ value.floats
  | .announce _ f => f.floats
  | .function _ f body => f.floats ++ Stmt.floatsList body
  | .result _ value => value.elim [] Expr.floats
  | .ifElse _ c body orelse | .whileLoop _ c body orelse =>
    c.floats ++ Stmt.floatsList body ++ Stmt.floatsList orelse
  | .doLoop _ body c => Stmt.floatsList body ++ c.floats
  | .switch _ subject cases default =>
    subject.floats ++ SwitchCase.floatsList cases ++ Stmt.floatsDefault default
  | .struct _ _ fields => fields.flatMap fun f => f.type.floats
  | .typedef _ t _ => t.floats
  | .define _ _ value => value.elim [] Expr.floats
  | .leave _ | .pass _ | .enum _ _ _ | .includeFile _ _ | .ifndef _ _ | .endif _ => []

def Stmt.floatsList : List Stmt → List Number.Double
  | [] => []
  | s :: rest => s.floats ++ Stmt.floatsList rest

def Stmt.floatsDefault : Option (List Stmt) → List Number.Double
  | none => []
  | some body => Stmt.floatsList body

def SwitchCase.floats : SwitchCase → List Number.Double
  | .mk _ values body => Expr.floatsList values ++ Stmt.floatsList body

def SwitchCase.floatsList : List SwitchCase → List Number.Double
  | [] => []
  | c :: rest => c.floats ++ SwitchCase.floatsList rest

end

/-- The floating point literals of a program. -/
def Module.floats (m : Module) : List Number.Double := Stmt.floatsList m.body

end Offside
