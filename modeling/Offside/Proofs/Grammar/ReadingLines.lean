import Offside.Grammar.Statement
import Offside.Proofs.Grammar.Reading

/-! Reading the tokens of lines.

The expressions and types in a statement are read as far as they go (`Parse.Reads.expression`,
`Parse.Reads.type`), and with them the statements that fit on a line, the fields of a struct, the heads of
functions and the values of a case. The head of the entry point has nothing left to fill in, and is not
changed when it is read again (`EntryPoint.fill_similar`). -/
namespace Offside

open List

variable {e : Expr} {p : Param}

namespace Parse.Reads

variable {β : Type} {c : Cursor} {k : TokenKind} {kinds behind rest : List TokenKind} {post : β → Prop}

/-! ### Parts of statements -/

theorem expression {f : Expr → Parse β} (he : e.WellFormed) (hc : c.At (e.tokens ++ behind)) (hstops : Stops 0 behind)
    (h : ∀ e' c', c'.At behind → e'.Similar e → Reads (f e') c' rest post) :
    Reads (Parse.expression >>= f) c rest post :=
  (((e.derives he).loosenTo e.level_pos).readsExpression hc hstops).bind h

theorem type {f : TypeExpr → Parse β} {t : TypeExpr} (ht : t.Plain) (hc : c.At (t.tokens ++ behind))
    (hends : EndsType behind)
    (h : ∀ t' c', c'.At behind → t'.Similar t → Reads (f t') c' rest post) :
    Reads (Parse.type >>= f) c rest post :=
  ((t.derives ht.wellFormed ht.noVararg).2.readsType hc hends).bind h

theorem optionalType {f : Option TypeExpr → Parse β} {marker : Symbol} {o : Option TypeExpr}
    (ho : ∀ t, o = some t → t.Plain) (hc : c.At (TypeExpr.markedTokens marker o ++ k :: behind))
    (hmarker : k ≠ .symbol marker) (hends : k ≠ .symbol .leftBracket)
    (h : ∀ o' c', c'.At (k :: behind) → o'.map (·.blur .places) = o.map (·.blur .places) →
      Reads (f o') c' rest post) :
    Reads (Parse.optionalType marker >>= f) c rest post := by
  unfold Parse.optionalType
  rw [bind_assoc]
  cases o with
  | none => exact .accept_other hc hmarker (h none c hc rfl)
  | some t =>
    refine .accept hc fun c1 hc1 => ?_
    rw [if_pos rfl, bind_assoc]
    refine .type (ho t rfl) hc1 ⟨k, behind, rfl, hends⟩ fun t' c2 hc2 hsimilar => ?_
    exact h (some t') c2 hc2 (congrArg some hsimilar)

/-- An expression that may be missing at the end of a line. -/
theorem optionalExpression {f : Option Expr → Parse β} {o : Option Expr}
    (ho : ∀ e, o = some e → e.WellFormed) (hc : c.At (Expr.optionalTokens o ++ .newline :: behind))
    (h : ∀ o' c', c'.At (.newline :: behind) → o'.map (·.blur .places) = o.map (·.blur .places) →
      Reads (f o') c' rest post) :
    Reads (Parse.optionalExpression >>= f) c rest post := by
  unfold Parse.optionalExpression
  rw [bind_assoc]
  cases o with
  | none => exact .peekKind hc (h none c hc rfl)
  | some e =>
    obtain ⟨k, ks, htokens, hk⟩ := e.tokens_start
    have hline : endsLine k = false := by
      cases k with
      | newline | dedent | endOfFile => cases hk
      | _ => rfl
    have hc' := hc
    rw [Expr.optionalTokens, htokens] at hc'
    refine .peekKind hc' ?_
    rw [hline, if_neg Bool.false_ne_true, bind_assoc]
    refine .expression (ho e rfl) hc (.closing rfl rfl) fun e' c1 hc1 hsimilar => ?_
    exact h (some e') c1 hc1 (congrArg some hsimilar)

end Parse.Reads

/-- The same statement, numbers and places aside. -/
def Stmt.Similar (s s' : Stmt) : Prop := s.blur .places = s'.blur .places

theorem Expr.Similar.isPlace {e' : Expr} (h : e.Similar e') : e.isPlace = e'.isPlace := by
  rw [← isPlace_blur .places e, h, isPlace_blur]

namespace Parse

variable {c : Cursor} {k : TokenKind} {kinds behind rest : List TokenKind} {seen : List String}
    {m : Mark} {n : String}

/-! ### Statements on a line -/

theorem result_reads {value : Option Expr} (hvalue : ∀ e, value = some e → e.WellFormed)
    (hc : c.At (Expr.optionalTokens value ++ .newline :: behind)) (start : Location) :
    Reads (result start) c behind (Stmt.Similar · (.result m value)) := by
  unfold result
  refine .optionalExpression hvalue hc fun value' c1 hc1 hsimilar => ?_
  refine .endLine hc1 fun c2 hc2 => .markFrom _ hc2 fun mark c3 hc3 => .pure hc3 ?_
  rw [Stmt.Similar, Stmt.blur, Stmt.blur, hsimilar]
  rfl

theorem declaration_reads {d : VarDecl} (hd : d.WellFormed)
    (hc : c.At (d.tokens ++ .newline :: behind)) (start : Location) :
    Reads (declaration start) c behind (Stmt.Similar · (.declare m d)) := by
  obtain ⟨t, hdeclared, ht⟩ := hd.declared
  have hinit := hd.init
  have htype := hd.untyped
  obtain ⟨name, declared, init, type⟩ := d
  cases hdeclared
  cases htype
  have hend (init' : Option Expr) (t' : TypeExpr) (c' : Cursor) (hc' : c'.At (.newline :: behind))
      (ht' : t'.Similar t) (hsimilar : init'.map (·.blur .places) = init.map (·.blur .places)) :
      Reads (do
        endLine "declaration"
        return .declare (← markFrom start) { name, declared := some t', init := init' }) c' behind
        (Stmt.Similar · (.declare m ⟨name, some t, init, none⟩)) := by
    refine .endLine hc' fun c1 hc1 => .markFrom _ hc1 fun mark c2 hc2 => .pure hc2 ?_
    simp only [Stmt.Similar, Stmt.blur, VarDecl.blur, hsimilar, Option.map_some]
    rw [ht']
    rfl
  unfold declaration
  cases init with
  | none =>
    simp only [VarDecl.tokens, TypeExpr.markedTokens, append_nil] at hc
    refine .expectName hc fun _ c1 hc1 => .expect hc1 fun c2 hc2 => ?_
    refine .type ht hc2 ⟨_, _, rfl, by decide⟩ fun t' c3 hc3 ht' => ?_
    exact .accept_other hc3 (by decide) (hend none t' c3 hc3 ht' rfl)
  | some e =>
    simp only [VarDecl.tokens, TypeExpr.markedTokens, cons_append, append_assoc] at hc
    refine .expectName hc fun _ c1 hc1 => .expect hc1 fun c2 hc2 => ?_
    refine .type ht hc2 ⟨_, _, rfl, by decide⟩ fun t' c3 hc3 ht' => .accept hc3 fun c4 hc4 => ?_
    refine .expression (hinit e rfl) hc4 (.closing rfl rfl) fun e' c5 hc5 he' => ?_
    exact hend (some e') t' c5 hc5 ht' (congrArg some he')

theorem expression_reads (he : e.WellFormed) (hc : c.At (e.tokens ++ .newline :: behind)) (start : Location) :
    Reads (expressionOrAssignment start) c behind (Stmt.Similar · (.expr m e)) := by
  unfold expressionOrAssignment
  refine .expression he hc (.closing rfl rfl) fun e' c1 hc1 hsimilar => .next hc1 _ ?_
  rw [decide_eq_false (by decide), if_neg Bool.false_ne_true]
  refine .endLine hc1 fun c2 hc2 => .markFrom _ hc2 fun mark c3 hc3 => .pure hc3 ?_
  rw [Stmt.Similar, Stmt.blur, Stmt.blur, hsimilar]
  rfl

theorem assignment_reads {target value : Expr} (hplace : target.isPlace)
    (htarget : target.WellFormed) (hvalue : value.WellFormed)
    (hc : c.At (target.tokens ++ .symbol .equal :: (value.tokens ++ .newline :: behind))) (start : Location) :
    Reads (expressionOrAssignment start) c behind (Stmt.Similar · (.assign m target value)) := by
  unfold expressionOrAssignment
  refine .expression htarget hc (.closing rfl rfl) fun target' c1 hc1 hsimilar => .next hc1 _ ?_
  rw [decide_eq_true rfl, if_pos rfl, hsimilar.isPlace, hplace, if_neg (by decide)]
  refine .advance hc1 fun _ c2 hc2 => ?_
  refine .expression hvalue hc2 (.closing rfl rfl) fun value' c3 hc3 hsimilar' => ?_
  refine .endLine hc3 fun c4 hc4 => .markFrom _ hc4 fun mark c5 hc5 => .pure hc5 ?_
  rw [Stmt.Similar, Stmt.blur, Stmt.blur, hsimilar, hsimilar']
  rfl

theorem typedef_reads {t : TypeExpr} (ht : t.Plain)
    (hc : c.At (t.tokens ++ .identifier n :: .newline :: behind)) (start : Location) :
    Reads (typedef start) c behind (Stmt.Similar · (.typedef m t n)) := by
  unfold typedef
  refine .type ht hc ⟨_, _, rfl, nofun⟩ fun t' c1 hc1 hsimilar => .expectName hc1 fun _ c2 hc2 => ?_
  refine .endLine hc2 fun c3 hc3 => .markFrom _ hc3 fun mark c4 hc4 => .pure hc4 ?_
  rw [Stmt.Similar, Stmt.blur, Stmt.blur, hsimilar]
  rfl

theorem define_reads {value : Option Expr} (hvalue : ∀ e, value = some e → e.WellFormed)
    (hc : c.At (.identifier n :: (Expr.optionalTokens value ++ .newline :: behind))) (start : Location) :
    Reads (define start) c behind (Stmt.Similar · (.define m n value)) := by
  unfold define
  refine .expectName hc fun _ c1 hc1 => .optionalExpression hvalue hc1 fun value' c2 hc2 hsimilar => ?_
  refine .endLine hc2 fun c3 hc3 => .markFrom _ hc3 fun mark c4 hc4 => .pure hc4 ?_
  rw [Stmt.Similar, Stmt.blur, Stmt.blur, hsimilar]
  rfl

/-! ### Enums and structs -/

/-- Names that differ from each other are still unseen when the first of them has been seen. -/
theorem unseen_tail {name : String} {names : List String} (hnodup : (name :: names).Nodup)
    (hseen : ∀ n ∈ name :: names, n ∉ seen) : ∀ n ∈ names, n ∉ name :: seen := by
  intro n hn hmem
  rcases mem_cons.mp hmem with rfl | hmem
  · exact (nodup_cons.mp hnodup).1 hn
  · exact hseen n (mem_cons_of_mem _ hn) hmem

/-- The row of an enum's members. -/
def memberTokens (members : List String) : List TokenKind :=
  Tokens.commaSeparated (members.map fun member => [.identifier member])

theorem enumMembers_reads {enum : String} {members : List String} (hnodup : members.Nodup)
    (hseen : ∀ member ∈ members, member ∉ seen) {fuel : Nat}
    (hfuel : (memberTokens members).length < fuel)
    (hc : c.At (memberTokens members ++ .symbol .rightBrace :: behind)) :
    Reads (enumMembers enum fuel seen) c (.symbol .rightBrace :: behind) (· = members) := by
  induction members generalizing seen fuel c with
  | nil =>
    obtain ⟨f, rfl⟩ : ∃ f, fuel = f + 1 := ⟨fuel - 1, by omega⟩
    rw [enumMembers]
    refine .next hc _ ?_
    rw [decide_eq_true rfl]
    exact .pure hc rfl
  | cons member members ih =>
    obtain ⟨f, rfl⟩ : ∃ f, fuel = f + 1 := ⟨fuel - 1, by omega⟩
    have hunseen : seen.contains member = false := by
      simpa using hseen member mem_cons_self
    rw [enumMembers]
    cases members with
    | nil =>
      rw [memberTokens, map_singleton, Tokens.commaSeparated_single] at hc
      refine .next hc _ (.expectName hc fun span c1 hc1 => ?_)
      dsimp only
      rw [hunseen]
      exact .accept_other hc1 (by decide) (.pure hc1 rfl)
    | cons other members =>
      rw [memberTokens, map_cons, map_cons, Tokens.commaSeparated_cons_cons] at hc hfuel
      rw [length_append, length_cons] at hfuel
      refine .next hc _ (.expectName hc fun span c1 hc1 => ?_)
      dsimp only
      rw [hunseen]
      refine .accept hc1 fun c2 hc2 => ?_
      have hless : (memberTokens (other :: members)).length < f := by
        rw [memberTokens, map_cons]
        simp only [length_nil, length_cons] at hfuel
        omega
      refine (ih hnodup.of_cons (unseen_tail hnodup hseen) hless hc2).bind fun more c3 hc3 hmore => .pure hc3 ?_
      rw [hmore]

theorem enum_reads {members : List String} (hnodup : members.Nodup) (hc : c.At (.identifier n :: .symbol .leftBrace ::
      (memberTokens members ++ .symbol .rightBrace :: .newline :: behind)))
    (start : Location) : Reads (enum start) c behind (Stmt.Similar · (.enum m n members)) := by
  unfold enum
  refine .expectName hc fun _ c1 hc1 => .expect hc1 fun c2 hc2 => .get ?_
  have hfuel : (memberTokens members).length < c2.depthBound := by
    rw [hc2.depthBound, length_append]
    omega
  refine (enumMembers_reads hnodup (fun _ _ => not_mem_nil) hfuel hc2).bind
    fun members' c3 hc3 hmembers => .expect hc3 fun c4 hc4 => ?_
  refine .endLine hc4 fun c5 hc5 => .markFrom _ hc5 fun mark c6 hc6 => .pure hc6 ?_
  rw [hmembers]
  rfl

theorem structFields_reads {struct : String} {fields : List Field} (hfields : ∀ f ∈ fields, f.WellFormed)
    (hnodup : (fields.map Field.name).Nodup)
    (hseen : ∀ name ∈ fields.map Field.name, name ∉ seen) {fuel : Nat}
    (hfuel : (fields.flatMap Field.tokens).length < fuel)
    (hc : c.At (fields.flatMap Field.tokens ++ .dedent :: behind)) :
    Reads (structFields struct fuel seen) c (.dedent :: behind)
      (·.map (·.blur .places) = fields.map (·.blur .places)) := by
  induction fields generalizing seen fuel c with
  | nil =>
    obtain ⟨f, rfl⟩ : ∃ f, fuel = f + 1 := ⟨fuel - 1, by omega⟩
    rw [structFields]
    exact .peek hc fun _ => .pure hc rfl
  | cons field fields ih =>
    obtain ⟨f, rfl⟩ : ∃ f, fuel = f + 1 := ⟨fuel - 1, by omega⟩
    have hunseen : seen.contains field.name = false := by
      simpa using hseen field.name mem_cons_self
    have htype := (hfields field mem_cons_self).type
    rw [flatMap_cons, Field.tokens] at hc hfuel
    simp only [cons_append, append_assoc] at hc
    simp only [length_append, length_cons] at hfuel
    rw [structFields]
    refine .peek hc fun span => .accept_other hc (by simp) (.expectName hc fun _ c1 hc1 => ?_)
    refine .expect hc1 fun c2 hc2 => .type htype hc2 ⟨_, _, rfl, by decide⟩ fun t' c3 hc3 hsimilar => ?_
    refine .endLine hc3 fun c4 hc4 => ?_
    rw [hunseen]
    refine .spanFrom _ fun _ => ?_
    have hrest := fun g hg => hfields g (mem_cons_of_mem _ hg)
    have hless : (fields.flatMap Field.tokens).length < f := by omega
    refine (ih hrest (nodup_cons.mp hnodup).2 (unseen_tail hnodup hseen) hless hc4).bind
      fun more c5 hc5 hmore => .pure hc5 ?_
    rw [map_cons, map_cons, hmore, Field.blur, Field.blur, hsimilar]
    rfl

theorem struct_reads {fields : List Field} (hfields : ∀ f ∈ fields, f.WellFormed)
    (hnodup : (fields.map Field.name).Nodup)
    (hc : c.At (.identifier n :: (Tokens.block (fields.flatMap Field.tokens) ++ behind))) (start : Location) :
    Reads (struct start) c behind (Stmt.Similar · (.struct m n fields)) := by
  rw [Tokens.block_append] at hc
  unfold struct
  refine .expectName hc fun _ c1 hc1 => .expect hc1 fun c2 hc2 => .accept hc2 fun c3 hc3 => ?_
  refine .expect hc3 fun c4 hc4 => .get ?_
  have hfuel : (fields.flatMap Field.tokens).length < c4.depthBound := by
    rw [hc4.depthBound, length_append]
    omega
  refine (structFields_reads hfields hnodup (fun _ _ => not_mem_nil) hfuel hc4).bind
    fun fields' c5 hc5 hsimilar => .expect hc5 fun c6 hc6 => ?_
  refine .markFrom _ hc6 fun mark c7 hc7 => .pure hc7 ?_
  rw [Stmt.Similar, Stmt.blur, Stmt.blur, hsimilar]
  rfl

theorem emptyStruct_reads (hc : c.At (.identifier n :: .symbol .colon :: .keyword .pass_ :: .newline :: behind))
    (start : Location) : Reads (struct start) c behind (Stmt.Similar · (.struct m n [])) := by
  unfold struct
  refine .expectName hc fun _ c1 hc1 => .expect hc1 fun c2 hc2 => .accept_other hc2 nofun ?_
  refine .expect hc2 fun c3 hc3 => .endLine hc3 fun c4 hc4 => ?_
  exact .markFrom _ hc4 fun mark c5 hc5 => .pure hc5 rfl

/-! ### Heads of functions -/

theorem parameter_reads (hp : p.WellFormed) (hc : c.At (p.tokens ++ k :: behind))
    (hcolon : k ≠ .symbol .colon) (hends : k ≠ .symbol .leftBracket) :
    Reads parameter c (k :: behind) (Param.blur .places · = p.blur .places) := by
  have htype := hp.untyped
  have hnamed := hp.named
  obtain ⟨kind, span, type⟩ := p
  cases htype
  unfold parameter
  cases kind with
  | vararg =>
    refine .peek hc fun _ => .accept hc fun c1 hc1 => .spanFrom _ fun _ => ?_
    exact .pure hc1 rfl
  | named name declared =>
    refine .peek hc fun _ => .accept_other hc (by simp) (.expectName hc fun _ c1 hc1 => ?_)
    refine .optionalType (hnamed name declared rfl).2 hc1 hcolon hends fun declared' c2 hc2 hsimilar => ?_
    refine .spanFrom _ fun _ => .pure hc2 ?_
    simp only [Param.blur, ParamKind.blur, hsimilar]
    rfl

/-- The parameters of a function, if there are any. -/
theorem parameters_reads {params : List Param} (h : ∀ p ∈ params, p.WellFormed)
    (hc : c.At (Tokens.commaSeparated (params.map Param.tokens) ++ .symbol .rightParen :: behind)) :
    StartsWith (· != .symbol .rightParen) (Tokens.commaSeparated (params.map Param.tokens)) ∧
        Reads (do parameters (← get).depthBound) c (.symbol .rightParen :: behind)
          (·.map (Param.blur .places) = params.map (Param.blur .places)) ∨
      Tokens.commaSeparated (params.map Param.tokens) = [] ∧
        [].map (Param.blur .places) = params.map (Param.blur .places) := by
  by_cases hparams : params = []
  · subst hparams
    exact .inr ⟨rfl, rfl⟩
  · refine .inl ⟨Tokens.commaSeparated_start hparams fun p _ => p.tokens_start, ?_⟩
    have hitem (p : Param) (hp : p ∈ params) {f : Nat} {c : Cursor} {k : TokenKind} {ks : List TokenKind}
        (hc : c.At (p.tokens ++ k :: ks)) (_ : 5 * p.tokens.length + 5 ≤ f)
        (hk : k = .symbol .comma ∨ k = .symbol .rightParen) :
        Reads parameter c (k :: ks) (Param.blur .places · = p.blur .places) := by
      rcases hk with rfl | rfl
      · exact parameter_reads (h p hp) hc (by decide) (by decide)
      · exact parameter_reads (h p hp) hc (by decide) (by decide)
    have hfuel : 5 * (Tokens.commaSeparated (params.map Param.tokens)).length + 6 ≤ c.depthBound := by
      rw [hc.depthBound, length_append]
      omega
    exact .get (separated_reads (by decide) parameters.eq_2 hparams hitem hc hfuel)

end Parse

namespace EntryPoint

variable {s : Span}

/-- Whether a type has the shape of a given one does not depend on notes. -/
theorem sameShape_countType_blur (b : Blur) (t : TypeExpr) (s : Span) :
    (t.blur b).sameShape (countType s) = t.sameShape (countType s) := by
  cases t <;> rfl

theorem sameShape_textsType_blur (b : Blur) (t : TypeExpr) (s : Span) :
    (t.blur b).sameShape (textsType s) = t.sameShape (textsType s) := by
  unfold textsType
  cases t with
  | pointer _ t =>
    simp only [TypeExpr.blur, TypeExpr.sameShape]
    cases t with
    | pointer _ t =>
      simp only [TypeExpr.blur, TypeExpr.sameShape]
      cases t <;> rfl
    | _ => rfl
  | _ => rfl

/-- A parameter that needs no filling has a type, and it is the expected one. -/
theorem fillParam_eq_ok {expected : TypeExpr} : fillParam p expected = .ok p ↔
      ∃ n t, p.kind = .named n (some t) ∧ t.sameShape expected := by
  obtain ⟨kind, span, type⟩ := p
  match kind with
  | .vararg => simp [fillParam]
  | .named n none => simp [fillParam]
  | .named n (some t) => simp [fillParam]

theorem fillParam_similar {q : Param} {expected : TypeExpr}
    (hshape : ∀ t : TypeExpr, (t.blur .places).sameShape expected = t.sameShape expected)
    (hsimilar : q.blur .places = p.blur .places) (h : fillParam p expected = .ok p) :
    fillParam q expected = .ok q := by
  obtain ⟨n, t, hkind, hsame⟩ := fillParam_eq_ok.mp h
  have hblur : q.kind.blur .places = .named n (some (t.blur .places)) := by
    rw [show q.kind.blur .places = p.kind.blur .places from congrArg Param.kind hsimilar, hkind]
    rfl
  match hq : q.kind with
  | .vararg =>
    rw [hq] at hblur
    cases hblur
  | .named n' none =>
    rw [hq] at hblur
    cases hblur
  | .named n' (some t') =>
    rw [hq] at hblur
    injection hblur with _ hblur
    have htype : t'.blur .places = t.blur .places := Option.some.inj hblur
    refine fillParam_eq_ok.mpr ⟨n', t', hq, ?_⟩
    rw [← hshape t', htype, hshape, hsame]

theorem fillParams_eq_ok {params : List Param} :
    fillParams s params = .ok params ↔ ∃ first second, params = [first, second] ∧
      fillParam first (countType s) = .ok first ∧ fillParam second (textsType s) = .ok second := by
  match params with
  | [] | [_] | _ :: _ :: _ :: _ => simp [fillParams, defaultParams]
  | [first, second] =>
    simp only [fillParams, cons.injEq, and_true, ↓existsAndEq, true_and]
    cases hfirst : fillParam first (countType s) with
    | error => simp [bind, Except.bind]
    | ok first' =>
      cases hsecond : fillParam second (textsType s) with
      | error => simp [bind, Except.bind]
      | ok second' => simp [bind, Except.bind, pure, Except.pure]

theorem fill_eq_ok {f : FunctionHead} : fill s f = .ok f ↔ fillParams s f.params = .ok f.params ∧
      ∃ t, f.returns = some t ∧ t.sameShape (countType s) := by
  obtain ⟨name, params, returns, signature⟩ := f
  unfold fill
  cases hparams : fillParams s params with
  | error => simp [bind, Except.bind]
  | ok params' =>
    cases returns with
    | none => simp [bind, Except.bind, pure, Except.pure, fillResult]
    | some t =>
      by_cases hsame : t.sameShape (countType s)
      · simp [bind, Except.bind, pure, Except.pure, fillResult, hsame]
      · simp [bind, Except.bind, fillResult, hsame]

/-- A head that needs no filling, read again, needs none either. -/
theorem fill_similar {f g : FunctionHead} (hsimilar : g.blur .places = f.blur .places)
    (h : fill s f = .ok f) : fill s g = .ok g := by
  obtain ⟨hparams, t, hreturns, hsame⟩ := fill_eq_ok.mp h
  obtain ⟨first, second, hpair, hfirst, hsecond⟩ := fillParams_eq_ok.mp hparams
  have hgparams : g.params.map (·.blur .places) = [first.blur .places, second.blur .places] := by
    rw [show g.params.map (·.blur .places) = f.params.map (·.blur .places) from
      congrArg FunctionHead.params hsimilar, hpair]
    rfl
  have hgreturns : g.returns.map (·.blur .places) = some (t.blur .places) := by
    rw [show g.returns.map (·.blur .places) = f.returns.map (·.blur .places) from
      congrArg FunctionHead.returns hsimilar, hreturns]
    rfl
  obtain ⟨first', rest, hcons, hfirst', hrest⟩ := map_eq_cons_iff.mp hgparams
  obtain ⟨second', rest', rfl, hsecond', hnil⟩ := map_eq_cons_iff.mp hrest
  obtain rfl := map_eq_nil_iff.mp hnil
  obtain ⟨t', ht', htype⟩ := Option.map_eq_some_iff.mp hgreturns
  refine fill_eq_ok.mpr ⟨fillParams_eq_ok.mpr ⟨first', second', hcons, ?_, ?_⟩, t', ht', ?_⟩
  · exact fillParam_similar (sameShape_countType_blur .places · s) hfirst' hfirst
  · exact fillParam_similar (sameShape_textsType_blur .places · s) hsecond' hsecond
  · rw [← sameShape_countType_blur .places t', htype, sameShape_countType_blur, hsame]

end EntryPoint

namespace Parse

variable {c : Cursor} {k : TokenKind} {behind : List TokenKind}

theorem functionHead_reads {head : FunctionHead} (h : head.WellFormed) (hc : c.At (.identifier head.name ::
      (Tokens.between .leftParen .rightParen (Tokens.commaSeparated (head.params.map Param.tokens)) ++
        (TypeExpr.markedTokens .arrow head.returns ++ k :: behind))))
    (harrow : k ≠ .symbol .arrow) (hends : k ≠ .symbol .leftBracket) :
    Reads functionHead c (k :: behind) (FunctionHead.blur .places · = head.blur .places) := by
  have huntyped := h.untyped
  rw [Tokens.between_append] at hc
  unfold functionHead
  refine .expectName hc fun span c1 hc1 => .expect hc1 fun c2 hc2 => ?_
  refine .unlessClosed (by decide) hc2 (parameters_reads h.params hc2) fun params c3 hc3 hparams => ?_
  refine .expect hc3 fun c4 hc4 => ?_
  refine .optionalType h.returns hc4 harrow hends fun returns c5 hc5 hreturns => ?_
  have hsimilar : FunctionHead.blur .places ⟨head.name, params, returns, none⟩ = head.blur .places := by
    simp only [FunctionHead.blur, hparams, hreturns, huntyped]
  dsimp only
  split
  · rename_i hentry
    rw [EntryPoint.fill_similar hsimilar (h.entry hentry span)]
    exact .pure hc5 hsimilar
  · exact .pure hc5 hsimilar

/-! ### Clauses of a switch -/

theorem wellFormed_of_mem {es : List Expr} (h : Expr.WellFormedList es) (he : e ∈ es) :
    e.WellFormed := by
  induction es with
  | nil => cases he
  | cons first es ih =>
    rcases mem_cons.mp he with rfl | he
    · exact h.1
    · exact ih h.2 he

theorem caseValues_reads {values : List Expr} (hvalues : values ≠ []) (h : Expr.WellFormedList values)
    (hc : c.At (Tokens.commaSeparated (Expr.tokensList values) ++ .symbol .colon :: behind)) :
    Reads (do caseValues (← get).depthBound) c (.symbol .colon :: behind)
      (Expr.blurList .places · = Expr.blurList .places values) := by
  have hitem (e : Expr) (he : e ∈ values) {f : Nat} {c : Cursor} {k : TokenKind} {ks : List TokenKind}
      (hc : c.At (e.tokens ++ k :: ks)) (_ : 5 * e.tokens.length + 5 ≤ f)
      (hk : k = .symbol .comma ∨ k = .symbol .colon) :
      Reads expression c (k :: ks) (Expr.blur .places · = e.blur .places) := by
    have hread : Reads (expression >>= pure) c (k :: ks) (Expr.blur .places · = e.blur .places) := by
      refine .expression (wellFormed_of_mem h he) hc ?_ fun e' c' hc' hsimilar => .pure hc' hsimilar
      rcases hk with rfl | rfl
      · exact .closing rfl rfl
      · exact .closing rfl rfl
    rwa [bind_pure] at hread
  simp only [Expr.blurList_eq]
  rw [Expr.tokensList_eq] at hc
  have hfuel : 5 * (Tokens.commaSeparated (values.map Expr.tokens)).length + 6 ≤ c.depthBound := by
    rw [hc.depthBound, length_append]
    omega
  exact .get (separated_reads (by decide) caseValues.eq_2 hvalues hitem hc hfuel)

end Parse

end Offside
