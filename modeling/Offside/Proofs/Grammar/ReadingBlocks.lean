import Offside.Proofs.Grammar.ReadingLines

/-! Reading the tokens of blocks and files.

A statement is read where its tokens stand, with what follows left alone (`Stmt.read`). That takes that no
`else` follows, which is so between statements and at the ends of blocks. A whole file is read as its tree,
numbers and places aside (`Module.read`). -/
namespace Offside

open List Stmt Tokens TokenKind

/-! ### Where statements end -/

/-- Tokens that a statement can start with. -/
def TokenKind.startsStmt : TokenKind → Bool
  | .keyword .else_ | .keyword .elif_ | .dedent | .endOfFile => false
  | _ => true

/-- A place where a statement ends: it goes on with no other branch. -/
def EndsStmt (kinds : List TokenKind) : Prop := ∃ k ks, kinds = k :: ks ∧ k ≠ .keyword .else_ ∧ k ≠ .keyword .elif_

theorem StartsWith.stmt_of_expr {kinds : List TokenKind} (h : StartsWith startsExpr kinds) :
    StartsWith startsStmt kinds := by
  obtain ⟨k, ks, rfl, hk⟩ := h
  refine ⟨k, ks, rfl, ?_⟩
  cases k with
  | keyword w => cases w <;> first | rfl | cases hk
  | dedent | endOfFile => cases hk
  | _ => rfl

theorem StartsWith.endsStmt {kinds : List TokenKind} (h : StartsWith startsStmt kinds) :
    EndsStmt kinds := by
  obtain ⟨k, ks, rfl, hk⟩ := h
  refine ⟨k, ks, rfl, ?_, ?_⟩
  · rintro rfl
    cases hk
  · rintro rfl
    cases hk

theorem Stmt.tokens_start (s : Stmt) : StartsWith startsStmt s.tokens := by
  cases s with
  | expr m e => exact (e.tokens_start.append _).stmt_of_expr
  | assign m target value => exact (target.tokens_start.append _).stmt_of_expr
  | whileLoop m c body orelse => cases orelse <;> exact ⟨_, _, rfl, rfl⟩
  | struct m n fields => cases fields <;> exact ⟨_, _, rfl, rfl⟩
  | _ => exact ⟨_, _, rfl, rfl⟩

/-- Between statements and at the ends of blocks there is no other branch. -/
theorem Stmt.tokensList_ends (ss : List Stmt) {k : TokenKind} (hk : k = .dedent ∨ k = .endOfFile)
    {behind : List TokenKind} : EndsStmt (tokensList ss ++ k :: behind) := by
  cases ss with
  | nil =>
    refine ⟨k, behind, rfl, ?_⟩
    rcases hk with rfl | rfl
    · exact ⟨nofun, nofun⟩
    · exact ⟨nofun, nofun⟩
  | cons s ss =>
    rw [tokensList]
    exact ((s.tokens_start.append _).append _).endsStmt

/-- The statement is read where its tokens stand. -/
def Stmt.Read (s : Stmt) : Prop := ∀ ⦃fuel : Nat⦄ ⦃c : Cursor⦄ ⦃behind : List TokenKind⦄, c.At (s.tokens ++ behind) →
    5 * s.tokens.length + 5 ≤ fuel → EndsStmt behind →
    Parse.Reads (Parse.statementWithin fuel) c behind (Stmt.Similar · s)

namespace Parse

variable {c : Cursor} {k : TokenKind} {row behind rest : List TokenKind} {fuel : Nat} {body : List Stmt}

/-- A line that starts with an expression and is no declaration. -/
theorem statement_expression {post : Stmt → Prop} (hstart : StartsWith startsExpr row)
    (hfree : ColonFree row) (hc : c.At (row ++ k :: behind)) (hk : k ≠ .symbol .colon)
    (h : ∀ start, Reads (expressionOrAssignment start) c rest post) :
    Reads (statementWithin (fuel + 1)) c rest post := by
  obtain ⟨first, ks, rfl, hfirst⟩ := hstart
  rw [statementWithin]
  refine .peek hc fun span => ?_
  cases first with
  | identifier n =>
    cases ks with
    | nil =>
      refine .peekSecond hc ?_
      rw [if_neg hk]
      exact h _
    | cons second ks =>
      refine .peekSecond hc ?_
      rw [if_neg fun heq => hfree (by simp [heq])]
      exact h _
  | keyword w => cases w <;> first | exact h _ | cases hfirst
  | newline | indent | dedent | endOfFile => cases hfirst
  | _ => exact h _

/-! ### Blocks -/

theorem statements_reads (h : ∀ s ∈ body, s.Read) (hk : k = .dedent ∨ k = .endOfFile)
    (hc : c.At (tokensList body ++ k :: behind))
    (hfuel : 5 * (tokensList body).length + 6 ≤ fuel) :
    Reads (statements fuel) c (k :: behind) (blurList .places · = blurList .places body) := by
  induction body generalizing fuel c with
  | nil =>
    obtain ⟨f, rfl⟩ : ∃ f, fuel = f + 1 := ⟨fuel - 1, by omega⟩
    rw [statements]
    refine .peekKind hc ?_
    rcases hk with rfl | rfl
    · exact .pure hc rfl
    · exact .pure hc rfl
  | cons s body ih =>
    obtain ⟨f, rfl⟩ : ∃ f, fuel = f + 1 := ⟨fuel - 1, by omega⟩
    obtain ⟨first, ks, htokens, hfirst⟩ := s.tokens_start
    have hdedent : first ≠ .dedent := by
      rintro rfl
      cases hfirst
    have hend : first ≠ .endOfFile := by
      rintro rfl
      cases hfirst
    have hlength : 0 < s.tokens.length := length_pos_iff.mpr s.tokens_start.ne_nil
    rw [tokensList, append_assoc] at hc
    rw [tokensList, length_append] at hfuel
    have hc' := hc
    rw [htokens] at hc'
    rw [statements]
    refine .peekKind hc' ?_
    rw [if_neg (by simp [hdedent, hend])]
    refine (h s mem_cons_self hc (by omega) (Stmt.tokensList_ends body hk)).bind
      fun s' c1 hc1 hsimilar => ?_
    refine (ih (fun x hx => h x (mem_cons_of_mem _ hx)) hc1 (by omega)).bind
      fun more c2 hc2 hmore => .pure hc2 ?_
    rw [blurList, blurList, hsimilar, hmore]

theorem block_reads (h : ∀ s ∈ body, s.Read) (context : String)
    (hc : c.At (Tokens.block (tokensList body) ++ behind))
    (hfuel : 5 * (tokensList body).length + 7 ≤ fuel) :
    Reads (block fuel context) c behind (blurList .places · = blurList .places body) := by
  obtain ⟨f, rfl⟩ : ∃ f, fuel = f + 1 := ⟨fuel - 1, by omega⟩
  rw [block_append] at hc
  rw [block]
  refine .expect hc fun c1 hc1 => .accept hc1 fun c2 hc2 => .expect hc2 fun c3 hc3 => ?_
  refine (statements_reads h (.inl rfl) hc3 (by omega)).bind fun body' c4 hc4 hsimilar => ?_
  exact .expect hc4 fun c5 hc5 => .pure hc5 hsimilar

/-! ### Conditions and clauses -/

/-- What follows the block of a condition. -/
def alternative (fuel : Nat) (start : Location) (condition : Expr) (body : List Stmt) : Parse Stmt := do
  let t ← peek
  match t.kind with
  | .keyword .elif_ => do
    let _ ← advance
    let other ← conditional fuel t.start
    return .ifElse (← markFrom start) condition body [other]
  | .keyword .else_ => do
    let _ ← advance
    let orelse ← block fuel "else clause"
    return .ifElse (← markFrom start) condition body orelse
  | _ => return .ifElse (← markFrom start) condition body []

theorem conditional_succ (fuel : Nat) (start : Location) : conditional (fuel + 1) start = (do
    let condition ← expression
    let body ← block fuel "if statement"
    alternative fuel start condition body) := by
  rw [conditional]
  rfl

end Parse

/-- The other branches of a condition are read where their tokens stand. -/
def Stmt.ReadElse (orelse : List Stmt) : Prop :=
  ∀ ⦃fuel : Nat⦄ ⦃c : Cursor⦄ ⦃behind : List TokenKind⦄ (start : Location) (condition : Expr)
    (body : List Stmt), c.At (elseTokens orelse ++ behind) →
    5 * (elseTokens orelse).length ≤ fuel → EndsStmt behind →
    Parse.Reads (Parse.alternative fuel start condition body) c behind fun s =>
      ∃ m orelse', s = .ifElse m condition body orelse' ∧ blurList .places orelse' = blurList .places orelse

namespace Parse

variable {c : Cursor} {k : TokenKind} {row behind rest : List TokenKind} {fuel : Nat} {body : List Stmt}

theorem conditional_reads (m : Mark) {condition : Expr} {orelse : List Stmt}
    (hcondition : condition.WellFormed) (hbody : ∀ s ∈ body, s.Read) (horelse : ReadElse orelse)
    (hc : c.At (condition.tokens ++ Tokens.block (tokensList body) ++ elseTokens orelse ++ behind))
    (hfuel : 5 * (condition.tokens ++ Tokens.block (tokensList body) ++
      elseTokens orelse).length + 1 ≤ fuel) (hends : EndsStmt behind) (start : Location) :
    Reads (conditional fuel start) c behind (Stmt.Similar · (.ifElse m condition body orelse)) := by
  rw [append_assoc, append_assoc] at hc
  rw [length_append, length_append, length_block] at hfuel
  obtain ⟨f, rfl⟩ : ∃ f, fuel = f + 1 := ⟨fuel - 1, by omega⟩
  rw [conditional_succ]
  refine .expression hcondition hc (.closing rfl rfl) fun condition' c1 hc1 hsimilar => ?_
  refine (block_reads hbody _ hc1 (by omega)).bind fun body' c2 hc2 hsimilar' => ?_
  refine (horelse start condition' body' hc2 (by omega) hends).weaken ?_
  rintro _ ⟨mark, orelse', rfl, hblur⟩
  rw [Stmt.Similar, blur, blur, hsimilar, hsimilar', hblur]
  rfl

end Parse

namespace Stmt.ReadElse

open Parse

theorem nil : ReadElse [] := by
  intro fuel c behind start condition body hc _ hends
  obtain ⟨k, ks, rfl, helse, helif⟩ := hends
  unfold alternative
  refine .peek hc fun span => ?_
  split
  · rename_i heq
    exact absurd heq helif
  · rename_i heq
    exact absurd heq helse
  · exact .markFrom _ hc fun mark c1 hc1 => .pure hc1 ⟨mark, [], rfl, rfl⟩

/-- A branch that goes on with a condition. -/
theorem elif {m : Mark} {condition : Expr} {body orelse : List Stmt} (hcondition : condition.WellFormed)
    (hbody : ∀ s ∈ body, s.Read) (horelse : ReadElse orelse) :
    ReadElse [.ifElse m condition body orelse] := by
  intro fuel c behind start outer outerBody hc hfuel hends
  rw [elseTokens] at hc hfuel
  rw [length_cons] at hfuel
  unfold alternative
  refine .peek hc fun span => .advance hc fun _ c1 hc1 => ?_
  refine (conditional_reads m hcondition hbody horelse hc1 (by omega) hends _).bind fun other c2 hc2 hsimilar => ?_
  refine .markFrom _ hc2 fun mark c3 hc3 => .pure hc3 ⟨mark, [other], rfl, ?_⟩
  exact congrArg ([·]) hsimilar

/-- A branch that does not. -/
theorem plain {s : Stmt} {ss : List Stmt} (hchain : ∀ m c body orelse, s = .ifElse m c body orelse → ss = [] → False)
    (h : ∀ x ∈ s :: ss, x.Read) : ReadElse (s :: ss) := by
  intro fuel c behind start condition body hc hfuel hends
  have htokens : elseTokens (s :: ss) = .keyword .else_ :: Tokens.block (tokensList (s :: ss)) := by
    rw [elseTokens, tokensList]
    exact hchain
  rw [htokens] at hc hfuel
  unfold alternative
  refine .peek hc fun span => .advance hc fun _ c1 hc1 => ?_
  rw [length_cons, length_block] at hfuel
  refine (block_reads h _ hc1 (by omega)).bind fun orelse' c2 hc2 hsimilar => ?_
  exact .markFrom _ hc2 fun mark c3 hc3 => .pure hc3 ⟨mark, orelse', rfl, hsimilar⟩

end Stmt.ReadElse

/-- The statements of a clause are read where their tokens stand, and its values are as they should be. -/
def SwitchCase.Read : SwitchCase → Prop
  | .mk _ values body => values ≠ [] ∧ Expr.WellFormedList values ∧ ∀ s ∈ body, s.Read

namespace Parse

variable {c : Cursor} {behind : List TokenKind} {fuel : Nat}

theorem clauses_end (hfuel : 0 < fuel) (hc : c.At (.dedent :: behind)) (default : Option (List Stmt)) :
    Reads (clauses fuel default) c behind (· = ([], default)) := by
  obtain ⟨f, rfl⟩ : ∃ f, fuel = f + 1 := ⟨fuel - 1, by omega⟩
  rw [clauses]
  exact .advance hc fun _ c1 hc1 => .pure hc1 rfl

theorem clauses_reads {cs : List SwitchCase} (h : ∀ x ∈ cs, x.Read) {default : Option (List Stmt)}
    (hdefault : ∀ body, default = some body → ∀ s ∈ body, s.Read)
    (hc : c.At (SwitchCase.tokensList cs ++ (defaultTokens default ++ .dedent :: behind)))
    (hfuel : 5 * ((SwitchCase.tokensList cs).length + (defaultTokens default).length) + 2 ≤ fuel) :
    Reads (clauses fuel none) c behind fun r =>
      SwitchCase.blurList .places r.1 = SwitchCase.blurList .places cs ∧
        blurBlock .places r.2 = blurBlock .places default := by
  induction cs generalizing fuel c with
  | nil =>
    cases default with
    | none =>
      refine (clauses_end (by omega) hc none).weaken ?_
      rintro _ rfl
      exact ⟨rfl, rfl⟩
    | some body =>
      obtain ⟨f, rfl⟩ : ∃ f, fuel = f + 1 := ⟨fuel - 1, by omega⟩
      rw [defaultTokens, length_cons, length_block] at hfuel
      rw [clauses]
      refine .advance hc fun span c1 hc1 => ?_
      refine (block_reads (hdefault body rfl) _ hc1 (by omega)).bind fun body' c2 hc2 hsimilar => ?_
      refine (clauses_end (by omega) hc2 _).weaken ?_
      rintro _ rfl
      exact ⟨rfl, congrArg some hsimilar⟩
  | cons first cs ih =>
    obtain ⟨place, values, body⟩ := first
    obtain ⟨hvalues, hwellFormed, hbody⟩ := h _ mem_cons_self
    obtain ⟨f, rfl⟩ : ∃ f, fuel = f + 1 := ⟨fuel - 1, by omega⟩
    rw [SwitchCase.tokensList, SwitchCase.tokens] at hc hfuel
    simp only [cons_append, append_assoc] at hc
    simp only [length_cons, length_append, length_block] at hfuel
    rw [clauses]
    refine .advance hc fun span c1 hc1 => ?_
    refine (caseValues_reads hvalues hwellFormed hc1).bind fun values' c2 hc2 hsimilar => ?_
    refine (block_reads hbody _ hc2 (by omega)).bind fun body' c3 hc3 hsimilar' => .spanFrom _ fun _ => ?_
    refine (ih (fun x hx => h x (mem_cons_of_mem _ hx)) hc3 (by omega)).bind ?_
    rintro ⟨more, default'⟩ c4 hc4 ⟨hmore, hdefault'⟩
    refine .pure hc4 ⟨?_, hdefault'⟩
    rw [SwitchCase.blurList, SwitchCase.blurList, SwitchCase.blur, SwitchCase.blur, hsimilar, hsimilar',
      hmore]
    rfl

end Parse

/-! ### All statements -/

open Parse

theorem Stmt.read_assign {m : Mark} {target value : Expr} (h : (Stmt.assign m target value).WellFormed) :
    (Stmt.assign m target value).Read := by
  intro fuel c behind hc hfuel hends
  obtain ⟨f, rfl⟩ : ∃ f, fuel = f + 1 := ⟨fuel - 1, by omega⟩
  obtain ⟨hplace, htarget, hvalue⟩ := h
  have hfree : ColonFree (target.tokens ++ .symbol .equal :: value.tokens) :=
    target.colonFree.append (.cons (by decide) value.colonFree)
  rw [Stmt.tokens, append_assoc, cons_append, append_assoc] at hc
  have hline : c.At (target.tokens ++ .symbol .equal :: value.tokens ++ .newline :: behind) := by
    rw [append_assoc]
    exact hc
  exact statement_expression (target.tokens_start.append _) hfree hline nofun
    (assignment_reads hplace htarget hvalue hc)

theorem Stmt.read_announce {m : Mark} {head : FunctionHead} (h : (Stmt.announce m head).WellFormed) :
    (Stmt.announce m head).Read := by
  intro fuel c behind hc hfuel hends
  obtain ⟨f, rfl⟩ : ∃ f, fuel = f + 1 := ⟨fuel - 1, by omega⟩
  rw [Stmt.tokens, FunctionHead.tokens] at hc
  simp only [cons_append, append_assoc] at hc
  rw [statementWithin]
  refine .peek hc fun span => .advance hc fun _ c1 hc1 => ?_
  refine (functionHead_reads h hc1 nofun nofun).bind fun head' c2 hc2 hsimilar => .next hc2 _ ?_
  refine .endLine hc2 fun c3 hc3 => .markFrom _ hc3 fun mark c4 hc4 => .pure hc4 ?_
  rw [Stmt.Similar, Stmt.blur, Stmt.blur, hsimilar]
  rfl

theorem Stmt.read_function {m : Mark} {head : FunctionHead} {body : List Stmt}
    (h : (Stmt.function m head body).WellFormed) (hbody : ∀ s ∈ body, s.Read) :
    (Stmt.function m head body).Read := by
  intro fuel c behind hc hfuel hends
  obtain ⟨f, rfl⟩ : ∃ f, fuel = f + 1 := ⟨fuel - 1, by omega⟩
  rw [Stmt.tokens, FunctionHead.tokens] at hc hfuel
  simp only [cons_append, append_assoc] at hc
  simp only [length_append, length_block] at hfuel
  rw [statementWithin]
  refine .peek hc fun span => .advance hc fun _ c1 hc1 => ?_
  refine (functionHead_reads h.1 hc1 (by decide) (by decide)).bind fun head' c2 hc2 hsimilar => .next hc2 _ ?_
  refine (block_reads hbody _ hc2 (by omega)).bind fun body' c3 hc3 hsimilar' => ?_
  refine .markFrom _ hc3 fun mark c4 hc4 => .pure hc4 ?_
  rw [Stmt.Similar, Stmt.blur, Stmt.blur, hsimilar, hsimilar']
  rfl

theorem Stmt.read_whileLoop {m : Mark} {condition : Expr} {body orelse : List Stmt} (hcondition : condition.WellFormed)
    (hbody : ∀ s ∈ body, s.Read) (horelse : ∀ s ∈ orelse, s.Read) :
    (Stmt.whileLoop m condition body orelse).Read := by
  intro fuel c behind hc hfuel hends
  obtain ⟨f, rfl⟩ : ∃ f, fuel = f + 1 := ⟨fuel - 1, by omega⟩
  cases orelse with
  | nil =>
    obtain ⟨k, ks, rfl, helse, _⟩ := hends
    rw [Stmt.tokens, cons_append, append_assoc] at hc
    rw [Stmt.tokens, length_cons, length_append, length_block] at hfuel
    rw [statementWithin]
    refine .peek hc fun span => .advance hc fun _ c1 hc1 => ?_
    refine .expression hcondition hc1 (.closing rfl rfl) fun condition' c2 hc2 hsimilar => ?_
    refine (block_reads hbody _ hc2 (by omega)).bind fun body' c3 hc3 hsimilar' => ?_
    refine .accept_other hc3 helse ?_
    rw [if_neg Bool.false_ne_true, pure_bind]
    refine .markFrom _ hc3 fun mark c4 hc4 => .pure hc4 ?_
    rw [Stmt.Similar, Stmt.blur, Stmt.blur, hsimilar, hsimilar']
    rfl
  | cons s orelse =>
    rw [Stmt.tokens] at hc hfuel
    rw [cons_append, append_assoc, append_assoc] at hc
    simp only [length_cons, length_append, length_block] at hfuel
    rw [statementWithin]
    refine .peek hc fun span => .advance hc fun _ c1 hc1 => ?_
    refine .expression hcondition hc1 (.closing rfl rfl) fun condition' c2 hc2 hsimilar => ?_
    refine (block_reads hbody _ hc2 (by omega)).bind fun body' c3 hc3 hsimilar' => ?_
    refine .accept hc3 fun c4 hc4 => ?_
    have hless : 5 * (tokensList (s :: orelse)).length + 7 ≤ f := by
      rw [Stmt.tokensList, length_append]
      omega
    refine (block_reads horelse _ hc4 hless).bind fun orelse' c5 hc5 hsimilar'' => ?_
    refine .markFrom _ hc5 fun mark c6 hc6 => .pure hc6 ?_
    rw [Stmt.Similar, Stmt.blur, Stmt.blur, hsimilar, hsimilar', hsimilar'']
    rfl

theorem Stmt.read_doLoop {m : Mark} {condition : Expr} {body : List Stmt} (hbody : ∀ s ∈ body, s.Read)
    (hcondition : condition.WellFormed) : (Stmt.doLoop m body condition).Read := by
  intro fuel c behind hc hfuel hends
  obtain ⟨f, rfl⟩ : ∃ f, fuel = f + 1 := ⟨fuel - 1, by omega⟩
  rw [Stmt.tokens] at hc hfuel
  simp only [cons_append, append_assoc] at hc
  simp only [length_cons, length_append, length_block] at hfuel
  rw [statementWithin]
  refine .peek hc fun span => .advance hc fun _ c1 hc1 => ?_
  refine (block_reads hbody _ hc1 (by omega)).bind fun body' c2 hc2 hsimilar => .expect hc2 fun c3 hc3 => ?_
  refine .expression hcondition hc3 (.closing rfl rfl) fun condition' c4 hc4 hsimilar' => ?_
  refine .endLine hc4 fun c5 hc5 => .markFrom _ hc5 fun mark c6 hc6 => .pure hc6 ?_
  rw [Stmt.Similar, Stmt.blur, Stmt.blur, hsimilar, hsimilar']
  rfl

theorem Stmt.read_switch {m : Mark} {subject : Expr} {cases : List SwitchCase} {default : Option (List Stmt)}
    (hsubject : subject.WellFormed) (hcases : ∀ x ∈ cases, x.Read)
    (hdefault : ∀ body, default = some body → ∀ s ∈ body, s.Read) : (Stmt.switch m subject cases default).Read := by
  intro fuel c behind hc hfuel hends
  obtain ⟨f, rfl⟩ : ∃ f, fuel = f + 1 := ⟨fuel - 1, by omega⟩
  rw [Stmt.tokens] at hc hfuel
  rw [cons_append, append_assoc, block_append, append_assoc] at hc
  simp only [length_cons, length_append, length_block] at hfuel
  rw [statementWithin]
  refine .peek hc fun span => .advance hc fun _ c1 hc1 => ?_
  refine .expression hsubject hc1 (.closing rfl rfl) fun subject' c2 hc2 hsimilar => ?_
  refine .expect hc2 fun c3 hc3 => .expect hc3 fun c4 hc4 => .expect hc4 fun c5 hc5 => ?_
  refine (clauses_reads hcases hdefault hc5 (by omega)).bind ?_
  rintro ⟨cases', default'⟩ c6 hc6 ⟨hcases', hdefault'⟩
  refine .markFrom _ hc6 fun mark c7 hc7 => .pure hc7 ?_
  rw [Stmt.Similar, Stmt.blur, Stmt.blur, hsimilar, hcases', hdefault']
  rfl

mutual

theorem Stmt.read (s : Stmt) (h : s.WellFormed) : s.Read := by
  intro fuel c behind hc hfuel hends
  obtain ⟨f, rfl⟩ : ∃ f, fuel = f + 1 := ⟨fuel - 1, by omega⟩
  cases s with
  | expr m e =>
    rw [tokens, append_assoc] at hc
    exact statement_expression e.tokens_start e.colonFree hc nofun (expression_reads h hc)
  | assign m target value => exact Stmt.read_assign h hc hfuel hends
  | declare m d =>
    obtain ⟨t, ht, _⟩ := h.declared
    rw [tokens, append_assoc] at hc
    have hc' := hc
    rw [VarDecl.tokens, ht] at hc'
    rw [statementWithin]
    refine .peek hc' fun span => .peekSecond hc' ?_
    exact declaration_reads h hc _
  | announce m head => exact Stmt.read_announce h hc hfuel hends
  | function m head body => exact Stmt.read_function h (Stmt.readList body h.2.2) hc hfuel hends
  | result m value =>
    rw [tokens, cons_append, append_assoc] at hc
    rw [statementWithin]
    exact .peek hc fun span => .advance hc fun _ c1 hc1 => result_reads h hc1 _
  | ifElse m condition body orelse =>
    obtain ⟨hcondition, _, hbody, horelse⟩ := h
    have hbody := Stmt.readList body hbody
    have horelse := Stmt.readElse orelse horelse
    rw [tokens] at hc hfuel
    rw [length_cons] at hfuel
    rw [statementWithin]
    refine .peek hc fun span => .advance hc fun _ c1 hc1 => ?_
    exact conditional_reads m hcondition hbody horelse hc1 (by omega) hends _
  | whileLoop m condition body orelse => exact Stmt.read_whileLoop h.1 (Stmt.readList body h.2.2.1) (Stmt.readList orelse h.2.2.2) hc hfuel hends
  | doLoop m body condition => exact Stmt.read_doLoop (Stmt.readList body h.2.1) h.2.2 hc hfuel hends
  | switch m subject cases default => exact Stmt.read_switch h.1 (SwitchCase.readList cases h.2.2.1) (Stmt.readDefault default h.2.2.2) hc hfuel hends
  | leave m | pass m | endif m =>
    rw [statementWithin]
    refine .peek hc fun span => .advance hc fun _ c1 hc1 => ?_
    exact .endLine hc1 fun c2 hc2 => .markFrom _ hc2 fun mark c3 hc3 => .pure hc3 rfl
  | struct m n fields =>
    rw [statementWithin]
    cases fields with
    | nil =>
      exact .peek hc fun span => .advance hc fun _ c1 hc1 => emptyStruct_reads hc1 _
    | cons field fields =>
      exact .peek hc fun span => .advance hc fun _ c1 hc1 => struct_reads h.2.1 h.2.2 hc1 _
  | enum m n members =>
    rw [tokens, cons_append, cons_append, append_assoc, between_append] at hc
    rw [statementWithin]
    exact .peek hc fun span => .advance hc fun _ c1 hc1 => enum_reads h.2.2 hc1 _
  | typedef m t n =>
    rw [tokens, cons_append, append_assoc] at hc
    rw [statementWithin]
    exact .peek hc fun span => .advance hc fun _ c1 hc1 => typedef_reads h.1 hc1 _
  | define m n value =>
    rw [tokens, cons_append, cons_append, append_assoc] at hc
    rw [statementWithin]
    exact .peek hc fun span => .advance hc fun _ c1 hc1 => define_reads h.2 hc1 _
  | includeFile m path =>
    rw [statementWithin]
    refine .peek hc fun span => .advance hc fun _ c1 hc1 => ?_
    refine .advance hc1 fun _ c2 hc2 => .endLine hc2 fun c3 hc3 => ?_
    exact .markFrom _ hc3 fun mark c4 hc4 => .pure hc4 rfl
  | ifndef m n =>
    rw [statementWithin]
    refine .peek hc fun span => .advance hc fun _ c1 hc1 => ?_
    refine .expectName hc1 fun _ c2 hc2 => .endLine hc2 fun c3 hc3 => ?_
    exact .markFrom _ hc3 fun mark c4 hc4 => .pure hc4 rfl

theorem Stmt.readList : (ss : List Stmt) → WellFormedList ss → ∀ s ∈ ss, s.Read
  | [], _ => nofun
  | s :: ss, h => forall_mem_cons.mpr ⟨s.read h.1, Stmt.readList ss h.2⟩

theorem Stmt.readElse : (ss : List Stmt) → WellFormedList ss → ReadElse ss
  | [], _ => .nil
  | [s], h => by
    have hs := s.read h.1
    cases s with
    | ifElse m condition body orelse =>
      obtain ⟨⟨hcondition, _, hbody, horelse⟩, _⟩ := h
      exact .elif hcondition (Stmt.readList body hbody) (Stmt.readElse orelse horelse)
    | _ => exact .plain nofun (forall_mem_singleton.mpr hs)
  | s :: s' :: ss, h =>
    .plain (fun _ _ _ _ _ => nofun) (forall_mem_cons.mpr
      ⟨s.read h.1, forall_mem_cons.mpr ⟨s'.read h.2.1, Stmt.readList ss h.2.2⟩⟩)

theorem Stmt.readDefault : (default : Option (List Stmt)) → WellFormedBlock default →
    ∀ body, default = some body → ∀ s ∈ body, s.Read
  | none, _, _, hsome => nomatch hsome
  | some body, h, _, hsome => Option.some.inj hsome ▸ Stmt.readList body h.2

theorem SwitchCase.read : (x : SwitchCase) → x.WellFormed → x.Read
  | .mk _ _ body, h => ⟨h.1, h.2.1, Stmt.readList body h.2.2.2⟩

theorem SwitchCase.readList : (cs : List SwitchCase) → SwitchCase.WellFormedList cs → ∀ x ∈ cs, x.Read
  | [], _ => nofun
  | x :: cs, h => forall_mem_cons.mpr ⟨x.read h.1, SwitchCase.readList cs h.2⟩

end

/-! ### Files -/

theorem fileBody_reads {body : List Stmt} (h : ∀ s ∈ body, s.Read) {c : Cursor} {fuel : Nat}
    (hc : c.At (tokensList body ++ [.endOfFile])) (hfuel : (tokensList body).length < fuel) :
    Reads (fileBody fuel) c [.endOfFile] (blurList .places · = blurList .places body) := by
  induction body generalizing fuel c with
  | nil =>
    obtain ⟨f, rfl⟩ : ∃ f, fuel = f + 1 := ⟨fuel - 1, by omega⟩
    rw [fileBody]
    exact .next hc _ (.pure hc rfl)
  | cons s body ih =>
    obtain ⟨f, rfl⟩ : ∃ f, fuel = f + 1 := ⟨fuel - 1, by omega⟩
    obtain ⟨first, ks, htokens, hfirst⟩ := s.tokens_start
    have hend : first ≠ .endOfFile := by
      rintro rfl
      cases hfirst
    have hlength : 0 < s.tokens.length := length_pos_iff.mpr s.tokens_start.ne_nil
    rw [tokensList, append_assoc] at hc
    rw [tokensList, length_append] at hfuel
    have hc' := hc
    rw [htokens] at hc'
    rw [fileBody]
    refine .next hc' _ ?_
    rw [decide_eq_false hend, if_neg Bool.false_ne_true]
    have hbound : 5 * s.tokens.length + 5 ≤ c.depthBound := by
      rw [hc.depthBound, length_append]
      omega
    have hread : Reads statement c _ (Stmt.Similar · s) :=
      .get (h s mem_cons_self hc hbound (Stmt.tokensList_ends body (.inr rfl)))
    refine hread.bind fun s' c1 hc1 hsimilar => ?_
    refine (ih (fun x hx => h x (mem_cons_of_mem _ hx)) hc1 (by omega)).bind
      fun more c2 hc2 hmore => .pure hc2 ?_
    rw [blurList, blurList, hsimilar, hmore]

/-- The tokens of a program are read as the program, numbers and places aside. -/
theorem Module.read {m : Module} (h : WellFormedList m.body) {c : Cursor} (hfile : c.file = m.file)
    (hc : c.At m.tokens) : ∃ m', Parse.file.outcome c = .ok m' ∧ m'.blur .places = m.blur .places := by
  have hfuel : (tokensList m.body).length < c.depthBound := by
    rw [hc.depthBound, Module.tokens, length_append]
    omega
  have hread : Reads Parse.file c [.endOfFile] (·.blur .places = m.blur .places) := by
    refine .get ((fileBody_reads (Stmt.readList m.body h) hc hfuel).bind fun body c' hc' hbody => ?_)
    refine .pure hc' ?_
    rw [Module.blur, Module.blur, hfile, hbody]
  obtain ⟨m', c', hrun, _, hsimilar⟩ := hread
  exact ⟨m', by rw [outcome, hrun], hsimilar⟩

end Offside
