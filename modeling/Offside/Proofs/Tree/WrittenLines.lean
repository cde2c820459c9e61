import Offside.Proofs.Token.Lines
import Offside.Proofs.Tree.Written
import Mathlib.Data.List.Forall2

/-! The lines of a program read as its tokens.

Statements are printed line by line, each at its depth, and a block stands a step deeper than the line that
announces it. Accordingly a statement's text can stand before any text laid out at its depth
(`Stmt.laidOut`), and the text of a whole program is laid out from the left margin (`Module.tokens_print`). -/
namespace Offside

variable {inner kinds : List TokenKind} {body head : String}

open Number List

/-! ### Single lines -/

/-- Rows that do not end with a colon. -/
def EndsPlain (kinds : List TokenKind) : Prop := kinds.getLast? ≠ some (.symbol .colon)

theorem ColonFree.endsPlain (h : ColonFree kinds) : EndsPlain kinds := fun hlast => h (mem_of_getLast? hlast)

theorem EndsPlain.of_append (front : List TokenKind) (hne : kinds ≠ [])
    (h : EndsPlain kinds) : EndsPlain (front ++ kinds) := by
  unfold EndsPlain
  rwa [getLast?_append_of_ne_nil _ hne]

/-- Rows that do not start with a colon. -/
def Begins (kinds : List TokenKind) : Prop := ∃ k ks, kinds = k :: ks ∧ k ≠ .symbol .colon

theorem Begins.keyword (k : Keyword) (kinds : List TokenKind) : Begins (.keyword k :: kinds) := ⟨_, _, rfl, nofun⟩

theorem Expr.begins (e : Expr) (more : List TokenKind) : Begins (e.tokens ++ more) := by
  obtain ⟨k, ks, hcons, hk⟩ := e.tokens_start.append more
  refine ⟨k, ks, hcons, ?_⟩
  rintro rfl
  cases hk

section

variable {due : Bool} {depth : Nat} {text : String} {kinds more : List TokenKind} {rest : List Char}

theorem Writes.isLine (h : Writes Boundary text kinds) (hbegins : Begins kinds) : IsLine text.toList kinds :=
  ⟨fun _ => h.spells _ (.of_char (by decide) (by decide) (by decide)), h.solid, h.balanced, hbegins⟩

theorem toList_printLine (depth : Nat) (text : String) (rest : List Char) : (printLine depth text).toList ++ rest =
      replicate (4 * depth) ' ' ++ text.toList ++ '\n' :: rest := by
  rw [printLine, String.toList_append, String.toList_append, String.toList_ofList, append_assoc]
  rfl

variable (h : Writes Boundary text kinds)
include h

/-- A line that announces nothing. -/
theorem laidOut_line (hbegins : Begins kinds) (hplain : EndsPlain kinds) (hrest : LaidOut false depth rest more) :
    LaidOut due depth ((printLine depth text).toList ++ rest) (kinds ++ .newline :: more) := by
  rw [toList_printLine]
  exact .line (h.isLine hbegins) hplain hrest

/-- A line that announces a block, and the block. -/
theorem laidOut_block (hbegins : Begins kinds) (hbody : ∀ {rest more}, LaidOut false (depth + 1) rest more →
      LaidOut true (depth + 1) (body.toList ++ rest) (inner ++ more))
    (hrest : LaidOut false depth rest more) :
    LaidOut due depth ((printLine depth (text ++ ":") ++ body).toList ++ rest)
      (kinds ++ Tokens.block inner ++ more) := by
  have hheader : Writes Boundary (text ++ ":") (kinds ++ [.symbol .colon]) :=
    h.thenFinal .colon rfl (fun _ => rfl) (by decide)
  have hstart : Begins (kinds ++ [.symbol .colon]) := by
    obtain ⟨k, ks, rfl, hk⟩ := hbegins
    exact ⟨k, _, rfl, hk⟩
  have hlast : (kinds ++ [TokenKind.symbol .colon]).getLast? = some (.symbol .colon) := getLast?_concat
  have hopening : LaidOut due depth _ _ := .opening (hheader.isLine hstart) hlast (hbody hrest.closing)
  rw [String.toList_append, append_assoc, toList_printLine]
  simpa [Tokens.block] using hopening

theorem Writes.afterKeyword (k : Keyword) : Writes Boundary (k.spelling ++ " " ++ text) (.keyword k :: kinds) :=
  (Writes.keyword k).spaced (cons_ne_nil _ _) h fun _ => .blank

end

/-! ### Parts of statements -/

/-- A name and its type, with a colon between them. -/
theorem writes_typed {n : String} (hn : IsName n) {t : TypeExpr} (ht : t.Plain) (hf : Double.infinity ∉ t.floats) :
    Writes Boundary (n ++ (": " ++ t.print)) (.identifier n :: .symbol .colon :: t.tokens) := by
  have htype := (Writes.symbol .colon fun _ => rfl).spaced (cons_ne_nil _ _)
    (t.writes ht.wellFormed hf) (Symbol.endsBefore_blank _)
  rw [String.append_assoc] at htype
  have hblank : (": " : String) = ":" ++ " " := rfl
  rw [hblank, String.append_assoc]
  exact (Writes.name hn).beforeSymbol .colon htype (by decide)

theorem VarDecl.writes {d : VarDecl} (h : d.WellFormed) (hf : Double.infinity ∉ d.floats) :
    Writes Boundary d.print d.tokens := by
  obtain ⟨t, hdeclared, hplain⟩ := h.declared
  obtain ⟨hft, hfe⟩ := not_or.mp fun hor => hf (mem_append.mpr hor)
  rw [hdeclared] at hft
  have htyped := writes_typed h.name hplain hft
  unfold VarDecl.print VarDecl.tokens
  rw [hdeclared]
  simp only [shownTypeText, TypeExpr.markedTokens]
  cases hinit : d.init with
  | none => simpa using htyped
  | some e =>
    rw [hinit] at hfe
    have hvalue := (Writes.symbol .equal fun _ => rfl).spaced (cons_ne_nil _ _)
      (e.writes (h.init e hinit) hfe) (Symbol.endsBefore_blank _)
    have hwhole := htyped.spaced (cons_ne_nil _ _) hvalue fun _ => .blank
    have hequal : (" = " : String) = " " ++ (Symbol.equal.spelling ++ " ") := rfl
    rw [hequal]
    simp only [String.append_assoc] at hwhole ⊢
    exact hwhole

theorem Param.writes {p : Param} (h : p.WellFormed) (hf : Double.infinity ∉ p.floats) :
    Writes Boundary p.print p.tokens := by
  obtain ⟨kind, span, type⟩ := p
  obtain ⟨hnamed, rfl⟩ := h
  cases kind with
  | vararg => exact .finalSymbol .ellipsis rfl fun _ => rfl
  | named n declared =>
    obtain ⟨hn, hplain⟩ := hnamed n declared rfl
    cases declared with
    | none => exact .name hn
    | some t =>
      have htyped := writes_typed hn (hplain t rfl) hf
      rw [← String.append_assoc] at htyped
      exact htyped

/-- An arrow and a type behind it, if there is a type. -/
theorem writes_returns (h : Writes Boundary head kinds)
    (hne : kinds ≠ []) {returns : Option TypeExpr} (hplain : ∀ t, returns = some t → t.Plain)
    (hf : Double.infinity ∉ returns.elim [] TypeExpr.floats) :
    Writes Boundary (head ++ returns.elim "" fun t => " -> " ++ t.print)
      (kinds ++ TypeExpr.markedTokens .arrow returns) := by
  cases returns with
  | none => simpa [TypeExpr.markedTokens] using h
  | some t =>
    have htype := (Writes.symbol .arrow fun _ => rfl).spaced (cons_ne_nil _ _)
      (t.writes (hplain t rfl).wellFormed hf) (Symbol.endsBefore_blank _)
    have hwhole := h.spaced hne htype fun _ => .blank
    have harrow : (" -> " : String) = " " ++ (Symbol.arrow.spelling ++ " ") := rfl
    rw [Option.elim_some, harrow]
    simp only [String.append_assoc] at hwhole ⊢
    exact hwhole

theorem FunctionHead.writes {f : FunctionHead} (h : f.WellFormed) (hf : Double.infinity ∉ f.floats) :
    Writes Boundary f.print f.tokens := by
  obtain ⟨hfp, hfr⟩ := not_or.mp fun hor => hf (mem_append.mpr hor)
  have hparams : List.Forall₂ (Writes Boundary) (f.params.map Param.print) (f.params.map Param.tokens) := by
    rw [forall₂_map_left_iff, forall₂_map_right_iff]
    refine forall₂_same.mpr fun p hp => Param.writes (h.params p hp) fun hmem => ?_
    exact hfp (mem_flatMap.mpr ⟨p, hp, hmem⟩)
  have hlist : Writes Boundary _ _ := (Writes.commaSeparated hparams).inParentheses
  rw [String.append_assoc] at hlist
  have hhead := ((Writes.name h.name).afterKeyword .def_).beforeSymbol .leftParen hlist (by decide)
  have hwhole := writes_returns hhead (cons_ne_nil _ _) h.returns hfr
  have hprint : f.print = Keyword.def_.spelling ++ " " ++ f.name ++
      ("(" ++ (commaSeparated (f.params.map Param.print) ++ ")")) ++
      f.returns.elim "" fun t => " -> " ++ t.print := by
    unfold FunctionHead.print
    rw [h.untyped]
    have hdef : ("def " : String) = Keyword.def_.spelling ++ " " := rfl
    cases f.returns <;> simp only [hdef, String.append_assoc, Option.elim_none, Option.elim_some]
  rw [hprint]
  exact hwhole

/-! ### Statements -/

section

variable {due : Bool} {depth : Nat} {rest : List Char} {more : List TokenKind} {n : String}

/-- An optional expression at the end of a line. -/
theorem laidOut_optional {front : String} (h : Writes Boundary front kinds)
    (hbegins : Begins kinds) (hplain : EndsPlain kinds) {value : Option Expr}
    (hvalue : ∀ e, value = some e → e.WellFormed)
    (hf : Double.infinity ∉ value.elim [] Expr.floats) (hrest : LaidOut false depth rest more) :
    LaidOut due depth ((printLine depth (value.elim front fun e => front ++ " " ++ e.print)).toList ++ rest)
      (kinds ++ (Expr.optionalTokens value ++ [.newline]) ++ more) := by
  obtain ⟨k, ks, hcons, hk⟩ := hbegins
  have hne : kinds ≠ [] := by
    rw [hcons]
    exact cons_ne_nil k ks
  cases value with
  | none =>
    simpa [Expr.optionalTokens] using laidOut_line h ⟨k, ks, hcons, hk⟩ hplain hrest
  | some e =>
    have hline := h.spaced hne (e.writes (hvalue e rfl) hf) fun _ => .blank
    have hend := EndsPlain.of_append kinds e.tokens_start.ne_nil e.colonFree.endsPlain
    have hstart : Begins (kinds ++ e.tokens) := ⟨k, ks ++ e.tokens, by rw [hcons]; rfl, hk⟩
    simpa [Expr.optionalTokens, Expr.print] using laidOut_line hline hstart hend hrest

/-- A keyword and an expression that announce a block. -/
theorem laidOut_condition (k : Keyword) (hhead : head = k.spelling ++ " ") (c : Expr)
    (hc : c.WellFormed) (hf : Double.infinity ∉ c.floats)
    (hbody : ∀ {rest more}, LaidOut false (depth + 1) rest more →
      LaidOut true (depth + 1) (body.toList ++ rest) (inner ++ more))
    (hrest : LaidOut false depth rest more) :
    LaidOut due depth ((printLine depth (head ++ c.print ++ ":") ++ body).toList ++ rest)
      (.keyword k :: (c.tokens ++ Tokens.block inner ++ more)) := by
  rw [hhead]
  exact laidOut_block ((c.writes hc hf).afterKeyword k) (.keyword k _) hbody hrest

/-- A keyword that announces a block. -/
theorem laidOut_keyword (k : Keyword) (hhead : head = k.spelling ++ ":")
    (hbody : ∀ {rest more}, LaidOut false (depth + 1) rest more →
      LaidOut true (depth + 1) (body.toList ++ rest) (inner ++ more))
    (hrest : LaidOut false depth rest more) :
    LaidOut due depth ((printLine depth head ++ body).toList ++ rest)
      (.keyword k :: (Tokens.block inner ++ more)) := by
  rw [hhead]
  exact laidOut_block (.keyword k) (.keyword k _) hbody hrest

/-- A row of parts that is not empty may open a block. -/
theorem LaidOut.behindSome {α : Type} {parts : List α} (h : LaidOut false depth rest more)
    (hne : parts ≠ []) : LaidOut (due && parts.isEmpty) depth rest more := by
  rwa [isEmpty_eq_false_iff.mpr hne, Bool.and_false]

theorem VarDecl.laidOut {d : VarDecl} (h : d.WellFormed) (hf : Double.infinity ∉ d.floats)
    (hrest : LaidOut false depth rest more) :
    LaidOut due depth ((printLine depth d.print).toList ++ rest) (d.tokens ++ [.newline] ++ more) := by
  have hplain : EndsPlain d.tokens := by
    obtain ⟨t, hdeclared, _⟩ := h.declared
    unfold VarDecl.tokens
    rw [hdeclared]
    cases d.init with
    | none =>
      rw [append_nil]
      exact .of_append [_, _] t.tokens_start.ne_nil t.colonFree.endsPlain
    | some e =>
      have hvalue : ColonFree (.symbol .equal :: e.tokens) := .cons (by decide) e.colonFree
      exact .of_append (_ :: _ :: t.tokens) (cons_ne_nil _ _) hvalue.endsPlain
  simpa using laidOut_line (VarDecl.writes h hf) ⟨_, _, rfl, nofun⟩ hplain hrest

theorem FunctionHead.laidOut {f : FunctionHead} (h : f.WellFormed) (hf : Double.infinity ∉ f.floats)
    (hrest : LaidOut false depth rest more) :
    LaidOut due depth ((printLine depth f.print).toList ++ rest) (f.tokens ++ [.newline] ++ more) := by
  have hplain : EndsPlain f.tokens := by
    unfold FunctionHead.tokens Tokens.between
    cases f.returns with
    | none =>
      rw [TypeExpr.markedTokens, append_nil]
      exact .of_append (_ :: _ :: _ :: _) (cons_ne_nil _ _) nofun
    | some t =>
      have hreturns : ColonFree (.symbol .arrow :: t.tokens) := .cons (by decide) t.colonFree
      exact .of_append (_ :: _ :: _ :: _) (cons_ne_nil _ _) hreturns.endsPlain
  simpa using laidOut_line (FunctionHead.writes h hf) (.keyword _ _) hplain hrest

theorem laidOut_assign {target value : Expr} (ht : target.WellFormed) (hv : value.WellFormed)
    (hft : Double.infinity ∉ target.floats) (hfv : Double.infinity ∉ value.floats)
    (hrest : LaidOut false depth rest more) :
    LaidOut due depth ((printLine depth (target.print ++ " = " ++ value.print)).toList ++ rest)
      (target.tokens ++ .symbol .equal :: (value.tokens ++ .newline :: more)) := by
  have hvalue := (Writes.symbol .equal fun _ => rfl).spaced (cons_ne_nil _ _) (value.writes hv hfv)
    (Symbol.endsBefore_blank _)
  have hline := (target.writes ht hft).spaced target.tokens_start.ne_nil hvalue fun _ => .blank
  have hequal : (" = " : String) = " " ++ (Symbol.equal.spelling ++ " ") := rfl
  have hfree : ColonFree ([.symbol .equal] ++ value.tokens) := .cons (by decide) value.colonFree
  have hlaid : LaidOut due depth _ _ := laidOut_line hline (target.begins _)
    (.of_append _ (cons_ne_nil _ _) hfree.endsPlain) hrest
  rw [hequal]
  simp only [String.append_assoc, append_assoc, cons_append, nil_append] at hlaid ⊢
  exact hlaid

theorem laidOut_typedef {t : TypeExpr} (ht : t.Plain) (hn : IsName n)
    (hf : Double.infinity ∉ t.floats) (hrest : LaidOut false depth rest more) :
    LaidOut due depth ((printLine depth ("typedef " ++ t.print ++ " " ++ n)).toList ++ rest)
      (.keyword .typedef_ :: (t.tokens ++ .identifier n :: .newline :: more)) := by
  have htype := (t.writes ht.wellFormed hf).afterKeyword .typedef_
  have hline := htype.spaced (cons_ne_nil _ _) (.name hn) fun _ => .blank
  have hplain : EndsPlain (.keyword .typedef_ :: t.tokens ++ [.identifier n]) := .of_append _ (cons_ne_nil _ _) nofun
  have htypedef : ("typedef " : String) = Keyword.typedef_.spelling ++ " " := rfl
  rw [htypedef]
  simpa using laidOut_line hline (.keyword _ _) hplain hrest

theorem laidOut_enum {members : List String} (hn : IsName n)
    (hmembers : ∀ member ∈ members, IsName member) (hrest : LaidOut false depth rest more) :
    LaidOut due depth ((printLine depth ("enum " ++ n ++ " \x7b" ++ commaSeparated members ++ "\x7d")).toList ++ rest)
      (.keyword .enum_ :: .identifier n :: (Tokens.between .leftBrace .rightBrace
        (Tokens.commaSeparated (members.map fun m => [.identifier m])) ++ .newline :: more)) := by
  have hnames : List.Forall₂ (Writes Boundary) members (members.map fun m => [.identifier m]) := by
    rw [forall₂_map_right_iff]
    exact forall₂_same.mpr fun m hm => .name (hmembers m hm)
  have hlist : Writes Boundary _ _ := (Writes.commaSeparated hnames).inBraces
  have hline := ((Writes.name hn).afterKeyword .enum_).spaced (cons_ne_nil _ _) hlist fun _ => .blank
  have hbrace : (" \x7b" : String) = " " ++ "\x7b" := rfl
  have henum : ("enum " : String) = Keyword.enum_.spelling ++ " " := rfl
  have hlaid : LaidOut due depth _ _ := laidOut_line hline (.keyword _ _)
    (.of_append _ (cons_ne_nil _ _) (.of_append (_ :: _) (cons_ne_nil _ _) nofun)) hrest
  rw [henum, hbrace]
  simp only [String.append_assoc, cons_append, nil_append] at hlaid ⊢
  exact hlaid

/-- The fields of a struct, one on each line. -/
theorem laidOut_fields (depth : Nat) {fields : List Field} (h : ∀ f ∈ fields, f.WellFormed)
    (hf : ∀ f ∈ fields, Double.infinity ∉ f.type.floats)
    (hrest : LaidOut (due && fields.isEmpty) depth rest more) :
    LaidOut due depth ((fields.flatMap fun f => (printLine depth (f.name ++ ": " ++ f.type.print)).toList) ++ rest)
      (fields.flatMap Field.tokens ++ more) := by
  induction fields generalizing due with
  | nil =>
    rw [isEmpty_nil, Bool.and_true] at hrest
    exact hrest
  | cons f fields ih =>
    rw [isEmpty_cons, Bool.and_false] at hrest
    have hmore : LaidOut false depth _ _ := ih (fun g hg => h g (mem_cons_of_mem _ hg))
      (fun g hg => hf g (mem_cons_of_mem _ hg)) (by rwa [Bool.false_and])
    have hfield := h f mem_cons_self
    have hline := writes_typed hfield.name hfield.type (hf f mem_cons_self)
    have hplain : EndsPlain (.identifier f.name :: .symbol .colon :: f.type.tokens) :=
      .of_append [_, _] f.type.tokens_start.ne_nil f.type.colonFree.endsPlain
    have hlaid : LaidOut due depth _ _ := laidOut_line hline ⟨_, _, rfl, nofun⟩ hplain hmore
    rw [← String.append_assoc] at hlaid
    simpa [Field.tokens] using hlaid

theorem laidOut_emptyStruct (hn : IsName n) (hrest : LaidOut false depth rest more) :
    LaidOut due depth ((printLine depth ("struct " ++ n ++ ": pass")).toList ++ rest)
      (.keyword .struct_ :: .identifier n :: .symbol .colon :: .keyword .pass_ :: .newline :: more) := by
  have hcolon : Writes (fun _ => True) _ _ :=
    ((Writes.name hn).afterKeyword .struct_).thenFinal .colon rfl (fun _ => rfl) (by decide)
  have hline := hcolon.spaced (cons_ne_nil _ _) (.keyword .pass_) fun _ => trivial
  have hstruct : ("struct " : String) = Keyword.struct_.spelling ++ " " := rfl
  have hpass : (": pass" : String) = Symbol.colon.spelling ++ (" " ++ Keyword.pass_.spelling) := rfl
  have hlaid : LaidOut due depth _ _ := laidOut_line hline (.keyword _ _) nofun hrest
  rw [hstruct, hpass]
  simp only [String.append_assoc] at hlaid ⊢
  exact hlaid

/-- Printing line by line. -/
theorem toList_foldl_append {α : Type} (line : α → String) (items : List α) (shown : String) :
    (items.foldl (fun shown item => shown ++ line item) shown).toList =
      shown.toList ++ items.flatMap fun item => (line item).toList := by
  induction items generalizing shown with
  | nil => simp
  | cons item items ih => rw [foldl_cons, ih, String.toList_append, append_assoc, flatMap_cons]

theorem laidOut_struct (hn : IsName n) {fields : List Field} (hne : fields ≠ [])
    (h : ∀ f ∈ fields, f.WellFormed) (hf : ∀ f ∈ fields, Double.infinity ∉ f.type.floats)
    (hrest : LaidOut false depth rest more) :
    LaidOut due depth ((fields.foldl (fun shown f => shown ++ printLine (depth + 1) (f.name ++ ": " ++ f.type.print))
        (printLine depth ("struct " ++ n ++ ":"))).toList ++ rest)
      (.keyword .struct_ :: .identifier n :: (Tokens.block (fields.flatMap Field.tokens) ++ more)) := by
  let body := String.ofList (fields.flatMap fun f => (printLine (depth + 1) (f.name ++ ": " ++ f.type.print)).toList)
  have hbody {rest : List Char} {more : List TokenKind} (hr : LaidOut false (depth + 1) rest more) :
      LaidOut true (depth + 1) (body.toList ++ rest) (fields.flatMap Field.tokens ++ more) := by
    rw [String.toList_ofList]
    exact laidOut_fields (depth + 1) h hf (hr.behindSome hne)
  have hstruct : ("struct " : String) = Keyword.struct_.spelling ++ " " := rfl
  have hlaid : LaidOut due depth _ _ :=
    laidOut_block ((Writes.name hn).afterKeyword .struct_) (.keyword _ _) hbody hrest
  rw [toList_foldl_append, hstruct]
  simpa [body, String.toList_append] using hlaid

end

theorem Stmt.printBlock_eq (depth : Nat) {body : List Stmt} (h : body ≠ []) :
    Stmt.printBlock depth body = Stmt.printList depth body := by
  cases body with
  | nil => exact absurd rfl h
  | cons s rest => rfl

/-- Another branch that does not go on with a condition. -/
theorem laidOut_else {depth : Nat} {rest : List Char} {more : List TokenKind} {s : Stmt} {ss : List Stmt}
    (hchain : ∀ m c body orelse, s = .ifElse m c body orelse → ss = [] → False)
    (hbody : ∀ {rest more}, LaidOut false (depth + 1) rest more → LaidOut true (depth + 1)
      ((s.print (depth + 1) ++ Stmt.printList (depth + 1) ss).toList ++ rest)
      (s.tokens ++ Stmt.tokensList ss ++ more))
    (hrest : LaidOut false depth rest more) :
    LaidOut false depth ((Stmt.printElse depth (s :: ss)).toList ++ rest) (Stmt.elseTokens (s :: ss) ++ more) := by
  rw [Stmt.printElse, Stmt.elseTokens]
  · exact laidOut_keyword .else_ rfl hbody hrest
  · exact hchain
  · exact hchain

mutual

theorem Stmt.laidOut : (s : Stmt) → s.WellFormed → Double.infinity ∉ s.floats →
    ∀ {due : Bool} {depth : Nat} {rest : List Char} {more : List TokenKind},
      LaidOut false depth rest more →
      LaidOut due depth ((s.print depth).toList ++ rest) (s.tokens ++ more)
  | .expr _ e, h, hf, due, depth, rest, more, hrest => by
    have hbegins := e.begins []
    rw [append_nil] at hbegins
    rw [Stmt.print, Stmt.tokens, append_assoc]
    exact laidOut_line (e.writes h hf) hbegins e.colonFree.endsPlain hrest
  | .declare _ d, h, hf, due, depth, rest, more, hrest => d.laidOut h hf hrest
  | .assign _ target value, h, hf, due, depth, rest, more, hrest => by
    obtain ⟨hft, hfv⟩ := not_or.mp fun hor => hf (mem_append.mpr hor)
    rw [Stmt.print, Stmt.tokens, append_assoc, cons_append, append_assoc]
    exact laidOut_assign h.2.1 h.2.2 hft hfv hrest
  | .announce _ f, h, hf, due, depth, rest, more, hrest => f.laidOut h hf hrest
  | .function _ f body, h, hf, due, depth, rest, more, hrest => by
    obtain ⟨hff, hfb⟩ := not_or.mp fun hor => hf (mem_append.mpr hor)
    rw [Stmt.print, Stmt.tokens, Stmt.printBlock_eq _ h.2.1]
    exact laidOut_block (f.writes h.1 hff) (.keyword _ _)
      (fun hr => Stmt.laidOutList body h.2.2 hfb (hr.behindSome h.2.1)) hrest
  | .result _ value, h, hf, due, depth, rest, more, hrest => by
    have hline : LaidOut due depth _ _ :=
      laidOut_optional (.keyword .return_) (.keyword _ _) nofun h hf hrest
    cases value <;> exact hline
  | .ifElse _ c body orelse, h, hf, due, depth, rest, more, hrest => by
    simp only [Stmt.floats, mem_append, not_or] at hf
    obtain ⟨⟨hfc, hfb⟩, hfo⟩ := hf
    obtain ⟨hc, hne, hbody, horelse⟩ := h
    rw [Stmt.print, Stmt.tokens, Stmt.printBlock_eq _ hne, String.toList_append, append_assoc,
      cons_append, append_assoc]
    exact laidOut_condition .if_ rfl c hc hfc
      (fun hr => Stmt.laidOutList body hbody hfb (hr.behindSome hne))
      (Stmt.laidOutElse orelse horelse hfo hrest)
  | .whileLoop _ c body [], h, hf, due, depth, rest, more, hrest => by
    simp only [Stmt.floats, mem_append, not_or] at hf
    obtain ⟨⟨hfc, hfb⟩, _⟩ := hf
    obtain ⟨hc, hne, hbody, _⟩ := h
    rw [Stmt.print, Stmt.tokens, Stmt.printBlock_eq _ hne]
    exact laidOut_condition .while_ rfl c hc hfc
      (fun hr => Stmt.laidOutList body hbody hfb (hr.behindSome hne)) hrest
  | .whileLoop _ c body (s :: orelse), h, hf, due, depth, rest, more, hrest => by
    simp only [Stmt.floats, Stmt.floatsList, mem_append, not_or] at hf
    obtain ⟨⟨hfc, hfb⟩, hfs, hfo⟩ := hf
    obtain ⟨hc, hne, hbody, hs, horelse⟩ := h
    rw [Stmt.print, Stmt.tokens, Stmt.printBlock_eq _ hne, String.append_assoc, String.toList_append,
      append_assoc, cons_append, append_assoc]
    refine laidOut_condition .while_ rfl c hc hfc
      (fun hr => Stmt.laidOutList body hbody hfb (hr.behindSome hne))
      (laidOut_keyword .else_ rfl (fun hr => ?_) hrest)
    rw [String.toList_append, append_assoc, append_assoc]
    exact Stmt.laidOut s hs hfs (Stmt.laidOutList orelse horelse hfo (by rwa [Bool.false_and]))
  | .doLoop _ body c, h, hf, due, depth, rest, more, hrest => by
    obtain ⟨hfb, hfc⟩ := not_or.mp fun hor => hf (mem_append.mpr hor)
    obtain ⟨hne, hbody, hc⟩ := h
    have hfree : ColonFree (.keyword .while_ :: c.tokens) := .cons nofun c.colonFree
    have hcondition : LaidOut false depth _ _ :=
      laidOut_line ((c.writes hc hfc).afterKeyword .while_) (.keyword _ _) hfree.endsPlain hrest
    rw [Stmt.print, Stmt.tokens, Stmt.printBlock_eq _ hne, String.toList_append, append_assoc,
      cons_append, append_assoc, cons_append, append_assoc]
    exact laidOut_keyword .do_ rfl (fun hr => Stmt.laidOutList body hbody hfb (hr.behindSome hne))
      hcondition
  | .switch _ subject cases default, h, hf, due, depth, rest, more, hrest => by
    simp only [Stmt.floats, mem_append, not_or] at hf
    obtain ⟨⟨hfs, hfc⟩, hfd⟩ := hf
    obtain ⟨hsubject, hsome, hcases, hdefault⟩ := h
    rw [Stmt.print, Stmt.tokens, String.append_assoc, cons_append]
    refine laidOut_condition .switch_ rfl subject hsubject hfs (fun hr => ?_) hrest
    rw [String.toList_append, append_assoc, append_assoc]
    refine SwitchCase.laidOutList cases hcases hfc (Stmt.laidOutDefault default hdefault hfd ?_)
    -- A switch has a case or a default, and the first of them opens the block.
    cases cases with
    | nil => rwa [Option.isNone_eq_false_iff.mpr (Option.isSome_iff_ne_none.mpr (hsome rfl)), Bool.and_false]
    | cons c cases => exact hr
  | .leave _, _, _, due, depth, rest, more, hrest =>
    laidOut_line (.keyword .break_) (.keyword _ _) nofun hrest
  | .pass _, _, _, due, depth, rest, more, hrest =>
    laidOut_line (.keyword .pass_) (.keyword _ _) nofun hrest
  | .struct _ n [], h, hf, due, depth, rest, more, hrest => laidOut_emptyStruct h.1 hrest
  | .struct _ n (f :: fields), h, hf, due, depth, rest, more, hrest =>
    laidOut_struct h.1 (cons_ne_nil f fields) h.2.1
      (fun g hg hmem => hf (mem_flatMap.mpr ⟨g, hg, hmem⟩)) hrest
  | .enum _ n members, h, hf, due, depth, rest, more, hrest => by
    rw [Stmt.print, Stmt.tokens, cons_append, cons_append, append_assoc]
    exact laidOut_enum h.1 h.2.1 hrest
  | .typedef _ t n, h, hf, due, depth, rest, more, hrest => by
    rw [Stmt.print, Stmt.tokens, cons_append, append_assoc]
    exact laidOut_typedef h.1 h.2 hf hrest
  | .define _ n value, h, hf, due, depth, rest, more, hrest => by
    have hline : LaidOut due depth _ _ :=
      laidOut_optional ((Writes.name h.1).afterKeyword .define_) (.keyword _ _) nofun h.2 hf hrest
    cases value <;> exact hline
  | .includeFile _ path, h, hf, due, depth, rest, more, hrest =>
    laidOut_line ((writes_string path).afterKeyword .include_) (.keyword _ _) nofun hrest
  | .ifndef _ n, h, hf, due, depth, rest, more, hrest =>
    laidOut_line ((Writes.name h).afterKeyword .ifndef_) (.keyword _ _) nofun hrest
  | .endif _, _, _, due, depth, rest, more, hrest =>
    laidOut_line (.keyword .endif_) (.keyword _ _) nofun hrest

theorem Stmt.laidOutList : (ss : List Stmt) → Stmt.WellFormedList ss → Double.infinity ∉ Stmt.floatsList ss →
    ∀ {due : Bool} {depth : Nat} {rest : List Char} {more : List TokenKind},
      LaidOut (due && ss.isEmpty) depth rest more →
      LaidOut due depth ((Stmt.printList depth ss).toList ++ rest) (Stmt.tokensList ss ++ more)
  | [], _, _, due, depth, rest, more, hrest => by
    rw [isEmpty_nil, Bool.and_true] at hrest
    exact hrest
  | s :: ss, h, hf, due, depth, rest, more, hrest => by
    obtain ⟨hfs, hfss⟩ := not_or.mp fun hor => hf (mem_append.mpr hor)
    rw [isEmpty_cons, Bool.and_false] at hrest
    rw [Stmt.printList, Stmt.tokensList, String.toList_append, append_assoc, append_assoc]
    exact Stmt.laidOut s h.1 hfs (Stmt.laidOutList ss h.2 hfss (by rwa [Bool.false_and]))

theorem Stmt.laidOutElse : (ss : List Stmt) → Stmt.WellFormedList ss → Double.infinity ∉ Stmt.floatsList ss →
    ∀ {depth : Nat} {rest : List Char} {more : List TokenKind}, LaidOut false depth rest more →
      LaidOut false depth ((Stmt.printElse depth ss).toList ++ rest) (Stmt.elseTokens ss ++ more)
  | [], _, _, depth, rest, more, hrest => hrest
  | [s], h, hf, depth, rest, more, hrest => by
    obtain ⟨hfs, _⟩ := not_or.mp fun hor => hf (mem_append.mpr hor)
    have hplain {rest : List Char} {more : List TokenKind} (hr : LaidOut false (depth + 1) rest more) :
        LaidOut true (depth + 1) ((s.print (depth + 1)).toList ++ rest) (s.tokens ++ more) :=
      Stmt.laidOut s h.1 hfs hr
    cases s with
    | ifElse m c body orelse =>
      simp only [Stmt.floats, mem_append, not_or] at hfs
      obtain ⟨⟨hfc, hfb⟩, hfo⟩ := hfs
      obtain ⟨⟨hc, hne, hbody, horelse⟩, _⟩ := h
      rw [Stmt.printElse, Stmt.elseTokens, Stmt.printBlock_eq _ hne, String.toList_append,
        append_assoc, cons_append, append_assoc]
      exact laidOut_condition .elif_ rfl c hc hfc (fun hr => Stmt.laidOutList body hbody hfb (hr.behindSome hne))
        (Stmt.laidOutElse orelse horelse hfo hrest)
    | _ =>
      refine laidOut_else nofun (fun hr => ?_) hrest
      rw [Stmt.printList, Stmt.tokensList, String.append_empty, append_nil]
      exact hplain hr
  | s :: s' :: ss, h, hf, depth, rest, more, hrest => by
    simp only [Stmt.floatsList, mem_append, not_or] at hf
    obtain ⟨hfs, hfs', hfss⟩ := hf
    refine laidOut_else (fun _ _ _ _ _ => nofun) (fun hr => ?_) hrest
    rw [Stmt.printList, Stmt.tokensList, String.toList_append, String.toList_append, append_assoc,
      append_assoc, append_assoc, append_assoc]
    exact Stmt.laidOut s h.1 hfs (Stmt.laidOut s' h.2.1 hfs'
      (Stmt.laidOutList ss h.2.2 hfss (by rwa [Bool.false_and])))

theorem Stmt.laidOutDefault : (default : Option (List Stmt)) → Stmt.WellFormedBlock default →
    Double.infinity ∉ Stmt.floatsDefault default →
    ∀ {due : Bool} {depth : Nat} {rest : List Char} {more : List TokenKind},
      LaidOut (due && default.isNone) depth rest more →
      LaidOut due depth ((Stmt.printDefault depth default).toList ++ rest) (Stmt.defaultTokens default ++ more)
  | none, _, _, due, depth, rest, more, hrest => by
    rw [Option.isNone_none, Bool.and_true] at hrest
    exact hrest
  | some body, h, hf, due, depth, rest, more, hrest => by
    rw [Option.isNone_some, Bool.and_false] at hrest
    rw [Stmt.printDefault, Stmt.defaultTokens, Stmt.printBlock_eq _ h.1]
    exact laidOut_keyword .else_ rfl (fun hr => Stmt.laidOutList body h.2 hf (hr.behindSome h.1)) hrest

theorem SwitchCase.laidOut : (c : SwitchCase) → c.WellFormed → Double.infinity ∉ c.floats →
    ∀ {due : Bool} {depth : Nat} {rest : List Char} {more : List TokenKind}, LaidOut false depth rest more →
      LaidOut due depth ((c.print depth).toList ++ rest) (c.tokens ++ more)
  | .mk _ values body, h, hf, due, depth, rest, more, hrest => by
    obtain ⟨hfv, hfb⟩ := not_or.mp fun hor => hf (mem_append.mpr hor)
    obtain ⟨_, hvalues, hne, hbody⟩ := h
    have hline := (Writes.commaSeparated (Expr.writesList values hvalues hfv)).afterKeyword .case_
    have hlaid : LaidOut due depth _ _ := laidOut_block hline (.keyword _ _)
      (fun hr => Stmt.laidOutList body hbody hfb (hr.behindSome hne)) hrest
    rw [SwitchCase.print, SwitchCase.tokens, Stmt.printBlock_eq _ hne]
    exact hlaid

theorem SwitchCase.laidOutList : (cs : List SwitchCase) → SwitchCase.WellFormedList cs →
    Double.infinity ∉ SwitchCase.floatsList cs →
    ∀ {due : Bool} {depth : Nat} {rest : List Char} {more : List TokenKind},
      LaidOut (due && cs.isEmpty) depth rest more →
      LaidOut due depth ((SwitchCase.printList depth cs).toList ++ rest) (SwitchCase.tokensList cs ++ more)
  | [], _, _, due, depth, rest, more, hrest => by
    rw [isEmpty_nil, Bool.and_true] at hrest
    exact hrest
  | c :: cs, h, hf, due, depth, rest, more, hrest => by
    obtain ⟨hfc, hfcs⟩ := not_or.mp fun hor => hf (mem_append.mpr hor)
    rw [isEmpty_cons, Bool.and_false] at hrest
    rw [SwitchCase.printList, SwitchCase.tokensList, String.toList_append, append_assoc, append_assoc]
    exact SwitchCase.laidOut c h.1 hfc (SwitchCase.laidOutList cs h.2 hfcs (by rwa [Bool.false_and]))

end

/-- The printed text of a program has the tokens of the program. -/
theorem Module.tokens_print {m : Module} (h : Stmt.WellFormedList m.body) (hf : Double.infinity ∉ m.floats)
    (file : String) : (TokenStream.ofText file m.print).failure = none ∧
      (TokenStream.ofText file m.print).tokens.map Token.kind = m.tokens := by
  have hlaid : LaidOut false 0 _ _ := Stmt.laidOutList m.body h hf (by rw [Bool.false_and]; exact .done)
  rw [append_nil] at hlaid
  exact hlaid.tokens file

end Offside
