import Offside.Proofs.Grammar.Readers

/-! Statements, blocks and whole files are read to their end.

What `Readers` says of expressions and types, for statements, blocks and files. A reader that is called
behind the first word of a statement is given the waypoint before that word. For files this means: the
statements come in a row, and all their nodes have any property that follows from standing in the order of
the text and of the numbers (`Module.ofText_row`); a text reads as something well formed
(`Module.ofText_wellFormed`); and of several faults of a text the first is reported
(`Module.ofText_firstFault`). -/
namespace Offside

open List

variable {G : Prop} {At : Location → Prop} {P : Node → Prop} {failure : Failure}

namespace Parse

abbrev ProperStmt (P : Node → Prop) (At : Location → Prop) (s : Stmt) : Prop :=
  s.Every P ∧ s.Anchored At ∧ s.WellFormed

abbrev ProperBody (P : Node → Prop) (At : Location → Prop) (body : List Stmt) : Prop :=
  Stmt.EveryList P body ∧ Stmt.AnchoredList At body ∧ Stmt.WellFormedList body

abbrev ProperField (P : Node → Prop) (At : Location → Prop) (f : Field) : Prop :=
  f.Every P ∧ f.Anchored At ∧ f.WellFormed

abbrev ProperNamed (P : Node → Prop) (At : Location → Prop) (p : Param) : Prop :=
  p.Every P ∧ p.Anchored At ∧ p.WellFormed

abbrev ProperCases (P : Node → Prop) (At : Location → Prop) (cases : List SwitchCase) : Prop :=
  SwitchCase.EveryList P cases ∧ SwitchCase.AnchoredList At cases ∧ SwitchCase.WellFormedList cases

abbrev ProperDefault (P : Node → Prop) (At : Location → Prop) (default : Option (List Stmt)) : Prop :=
  Stmt.EveryBlock P default ∧ Stmt.AnchoredBlock At default ∧ Stmt.WellFormedBlock default

/-- The statement is read from the waypoint up to the cursor. -/
abbrev StmtFrom (G : Prop) (P : Node → Prop) (At : Location → Prop) (p : Waypoint) (s : Stmt) (c : Cursor) :
    Prop := Traced G p [s.piece] (ProperStmt P At s) c

variable [Node.Textual P] {c : Cursor} {p : Waypoint}

/-- A statement is completed behind its parts. -/
theorem complete {pieces : List Piece} {build : Mark → Stmt} {every : Prop} (hc : c.Fit G At)
    (hplace : G → At p.place) (h : Traced G p pieces every c) (hspan : ∀ m, (build m).span = m.span)
    (hids : ∀ m, (build m).ids = pieces.flatMap Piece.ids ++ [m.id])
    (hproper : G → every → ∀ m : Mark, P ⟨m.id, m.span, pieces⟩ → At m.span.start →
      ProperStmt P At (build m)) :
    Leads G At c 0 (do return build (← markFrom p.place)) (StmtFrom G P At p) := by
  refine .markFrom p.place (.pure (hc.numbered _) fun hG => ?_)
  rw [Stmt.piece, hspan, hids]
  exact numbered_within (h.row hG) (.refl _) (h.row hG).chain (.refl _) (.refl _)
    fun hm => hproper hG (h.every hG) _ hm (hplace hG)

/-! ### Statements that fit on a line -/

variable (P) in
theorem optionalType_leads (marker : Symbol) (hc : c.Fit G At) : Leads G At c 0 (optionalType marker) fun r c' =>
      Traced G c.here (r.toList.map TypeExpr.piece) (∀ t ∈ r, ProperType P At t) c' := by
  refine .accept hc rfl (fun c1 hc1 _ hmarker => ?_)
    (.pure hc (.nil (.refl _) fun _ h => absurd h (Option.not_mem_none _)))
  refine (type_leads P hc1).bind fun t c2 hc2 _ ht => .pure hc2 ?_
  refine (ht.after (hc.ahead.trans (hmarker.trans hc1.ahead))).weaken fun h => ?_
  rintro _ ⟨⟩
  exact h

variable (P) in
theorem optionalExpression_leads (hc : c.Fit G At) : Leads G At c 0 optionalExpression fun r c' =>
      Traced G c.here (r.toList.map Expr.piece) (∀ e ∈ r, ProperExpr P At e) c' := by
  refine .peekKind ?_
  split
  · exact .pure hc (.nil (.refl _) fun _ h => absurd h (Option.not_mem_none _))
  · refine (expression_leads P hc).bind fun e c1 hc1 _ he => .pure hc1 ?_
    refine (he.after hc.ahead).weaken fun h => ?_
    rintro _ ⟨⟩
    exact h

theorem declaration_leads (hc : c.Fit G At) :
    Leads G At c 1 (declaration c.ahead.place) (StmtFrom G P At c.ahead) := by
  refine .expectName hc fun name c1 hc1 _ hname hpass => .expect hc1 rfl fun c2 hc2 _ hcolon => ?_
  refine (type_leads P hc2).bind fun declared c3 hc3 _ hdeclared => ?_
  have htype := hdeclared.after (hpass.trans (hc1.ahead.trans (hcolon.trans hc2.ahead)))
  have hrest (init : Option Expr) (c4 : Cursor) (hc4 : c4.Fit G At)
      (hinit : Traced G c3.here (init.toList.map Expr.piece) (∀ e ∈ init, ProperExpr P At e) c4) :
      Leads G At c4 0 (do
        endLine "declaration"
        return Stmt.declare (← markFrom c.ahead.place) { name, declared := some declared, init })
        (StmtFrom G P At c.ahead) := by
    refine .endLine hc4 fun c5 hc5 _ hline => ?_
    refine complete hc5 hc.place ((htype.append hinit).before hline) (fun _ => rfl) (fun m => rfl) ?_
    rintro hG ⟨⟨ht, ht', ht''⟩, hi⟩ m hm hat
    refine ⟨⟨hm, ?_, fun e he => (hi e he).1⟩, ⟨hat, ?_, fun e he => (hi e he).2.1⟩,
      hname hG, ⟨declared, rfl, ht''⟩, fun e he => (hi e he).2.2, rfl⟩
    · rintro _ ⟨⟩
      exact ht
    · rintro _ ⟨⟩
      exact ht'
  refine .accept hc3 rfl (fun c4 hc4 _ hequal => ?_)
    (hrest none c3 hc3 (.nil (.refl _) fun _ h => absurd h (Option.not_mem_none _)))
  refine (expression_leads P hc4).bind fun e c5 hc5 _ he => ?_
  refine hrest (some e) c5 hc5 ((he.after (hc3.ahead.trans (hequal.trans hc4.ahead))).weaken fun h => ?_)
  rintro _ ⟨⟩
  exact h

theorem expressionOrAssignment_leads (hc : c.Fit G At) :
    Leads G At c 1 (expressionOrAssignment c.ahead.place) (StmtFrom G P At c.ahead) := by
  refine (expression_leads P hc).bind fun target c1 hc1 _ htarget => .next _ ?_
  split
  · split
    · exact .fail fun hG => (htarget.every hG).2.1.start
    · rename_i hequal hplace
      have hsolid : c1.front.kind.isSolid := by
        rw [of_decide_eq_true hequal]
        rfl
      refine .take hc1 hsolid fun c2 hc2 _ hsign => (expression_leads P hc2).bind fun value c3 hc3 _ hvalue => ?_
      refine .endLine hc3 fun c4 hc4 _ hline => ?_
      refine complete hc4 hc.place
        ((htarget.append (hvalue.after (hc1.ahead.trans (hsign.trans hc2.ahead)))).before hline)
        (fun _ => rfl) (fun m => by simp [Stmt.ids, Expr.piece]) ?_
      rintro _ ⟨ht, hv⟩ m hm hat
      exact ⟨⟨hm, ht.1, hv.1⟩, ⟨hat, ht.2.1, hv.2.1⟩, by simpa using hplace, ht.2.2, hv.2.2⟩
  · refine .endLine hc1 fun c2 hc2 _ hline => ?_
    exact complete hc2 hc.place (htarget.before hline) (fun _ => rfl)
      (fun m => by simp [Stmt.ids, Expr.piece]) fun _ h _ hm hat => ⟨⟨hm, h.1⟩, ⟨hat, h.2.1⟩, h.2.2⟩

section

variable (hc : c.Fit G At) (hplace : G → At p.place) (hp : p.Hop G c.here)
include hc hplace hp

theorem result_leads : Leads G At c 0 (result p.place) (StmtFrom G P At p) := by
  refine (optionalExpression_leads P hc).bind fun value c1 hc1 _ hvalue => ?_
  refine .endLine hc1 fun c2 hc2 _ hline => ?_
  exact complete hc2 hplace ((hvalue.after hp).before hline) (fun _ => rfl)
    (fun m => by rw [Stmt.ids, Expr.idsList_eq]) fun _ h _ hm hat =>
      ⟨⟨hm, fun e he => (h e he).1⟩, ⟨hat, fun e he => (h e he).2.1⟩, fun e he => (h e he).2.2⟩

theorem typedef_leads : Leads G At c 0 (typedef p.place) (StmtFrom G P At p) := by
  refine (type_leads P hc).bind fun target c1 hc1 _ htarget => ?_
  refine .expectName hc1 fun name c2 hc2 _ hname hpass => .endLine hc2 fun c3 hc3 _ hline => ?_
  exact complete hc3 hplace ((htarget.after (hp.trans hc.ahead)).before
    (hc1.ahead.trans (hpass.trans hline))) (fun _ => rfl) (fun m => by simp [Stmt.ids, TypeExpr.piece])
    fun hG h _ hm hat => ⟨⟨hm, h.1⟩, ⟨hat, h.2.1⟩, h.2.2, hname hG⟩

theorem define_leads : Leads G At c 0 (define p.place) (StmtFrom G P At p) := by
  refine .expectName hc fun name c1 hc1 _ hname hpass => ?_
  refine (optionalExpression_leads P hc1).bind fun value c2 hc2 _ hvalue => ?_
  refine .endLine hc2 fun c3 hc3 _ hline => ?_
  exact complete hc3 hplace ((hvalue.after (hp.trans (hc.ahead.trans hpass))).before hline) (fun _ => rfl)
    (fun m => by rw [Stmt.ids, Expr.idsList_eq]) fun hG h _ hm hat =>
      ⟨⟨hm, fun e he => (h e he).1⟩, ⟨hat, fun e he => (h e he).2.1⟩, hname hG, fun e he => (h e he).2.2⟩

/-- A statement that has no parts ends with its line. -/
theorem endLine_complete {context : String} {build : Mark → Stmt} (hspan : ∀ m, (build m).span = m.span)
    (hids : ∀ m, (build m).ids = [m.id])
    (hproper : G → ∀ m : Mark, P ⟨m.id, m.span, []⟩ → At m.span.start → ProperStmt P At (build m)) :
    Leads G At c 0 (do endLine context; return build (← markFrom p.place)) (StmtFrom G P At p) :=
  .endLine hc fun _ hc1 _ hline => complete hc1 hplace (.nil (hp.trans hline) trivial) hspan hids
    fun hG _ => hproper hG

theorem includeFile_leads : Leads G At c 0 (includeFile p.place) (StmtFrom G P At p) := by
  refine .advance hc fun c1 hc1 _ hmoves => ?_
  split
  · exact .fewer (endLine_complete hc1 hplace (hp.trans hmoves.passes) (fun _ => rfl) (fun _ => rfl)
      fun _ _ hm hat => ⟨hm, hat, trivial⟩)
  · exact .unexpected hc.place

theorem ifndef_leads : Leads G At c 0 (ifndef p.place) (StmtFrom G P At p) := by
  refine .expectName hc fun name c1 hc1 _ hname hpass => ?_
  exact endLine_complete hc1 hplace (hp.trans (hc.ahead.trans hpass)) (fun _ => rfl) (fun _ => rfl)
    fun hG _ hm hat => ⟨hm, hat, hname hG⟩

end

omit [Node.Textual P] in
/-- New members differ from those seen and from each other. -/
theorem enumMembers_leads (enum : String) (fuel : Nat) (seen : List String) (hc : c.Fit G At)
    (h : c.left + 1 ≤ fuel) : Leads G At c 0 (enumMembers enum fuel seen) fun members c' =>
      Traced G c.here [] ((∀ m ∈ members, IsName m ∧ m ∉ seen) ∧ members.Nodup) c' := by
  induction fuel generalizing seen c with
  | zero => omega
  | succ fuel ih =>
    rw [enumMembers]
    refine .next _ ?_
    split
    · exact .pure hc (.nil (.refl _) ⟨forall_mem_nil _, nodup_nil⟩)
    · refine .expectName hc fun member c1 hc1 _ hname hpass => ?_
      dsimp only
      split
      · exact .fail hc.place
      · rename_i hseen
        have hseen : member ∉ seen := by simpa using hseen
        have hfirst := hc.ahead.trans hpass
        refine .accept hc1 rfl (fun c2 hc2 _ hcomma => ?_) (.pure hc1 fun hG =>
          ⟨.nil (hfirst hG), forall_mem_singleton.mpr ⟨hname hG, hseen⟩, pairwise_singleton _ _⟩)
        refine (ih _ hc2 (by omega)).bind fun more c3 hc3 _ hmore => .pure hc3 fun hG => ?_
        obtain ⟨hnew, hnodup⟩ := hmore.every hG
        refine ⟨(hmore.after (hfirst.trans (hc1.ahead.trans hcomma))).row hG, forall_mem_cons.mpr
          ⟨⟨hname hG, hseen⟩, fun m hm => ?_⟩, nodup_cons.mpr ⟨fun h => (hnew _ h).2 mem_cons_self, hnodup⟩⟩
        exact ⟨(hnew m hm).1, fun h => (hnew m hm).2 (mem_cons_of_mem _ h)⟩

theorem enum_leads (hc : c.Fit G At) (hplace : G → At p.place) (hp : p.Hop G c.here) :
    Leads G At c 0 (enum p.place) (StmtFrom G P At p) := by
  refine .expectName hc fun name c1 hc1 _ hname hpass => .expect hc1 rfl fun c2 hc2 _ hopening => ?_
  refine .ofCursor fun _ => (enumMembers_leads _ _ _ hc2 (by omega)).bind fun members c3 hc3 _ hmembers => ?_
  refine .expect hc3 rfl fun c4 hc4 _ hclosing => .endLine hc4 fun c5 hc5 _ hline => ?_
  have hhead := hp.trans (hc.ahead.trans (hpass.trans (hc1.ahead.trans hopening)))
  exact complete hc5 hplace ((hmembers.after hhead).before (hc3.ahead.trans (hclosing.trans hline)))
    (fun _ => rfl) (fun _ => rfl) fun hG h _ hm hat =>
      ⟨hm, hat, hname hG, fun m hm => (h.1 m hm).1, h.2⟩

/-! ### Structs -/

variable (P) in
/-- New fields differ from those seen and from each other. -/
theorem structFields_leads (struct : String) (fuel : Nat) (seen : List String) (hc : c.Fit G At)
    (h : c.left + 1 ≤ fuel) : Leads G At c 0 (structFields struct fuel seen) fun fields c' =>
      Traced G c.here (fields.map Field.piece)
        ((∀ f ∈ fields, ProperField P At f ∧ f.name ∉ seen) ∧ (fields.map Field.name).Nodup) c' := by
  induction fuel generalizing seen c with
  | zero => omega
  | succ fuel ih =>
    rw [structFields]
    refine .peek ?_
    split
    · exact .pure hc (.nil (.refl _) ⟨forall_mem_nil _, nodup_nil⟩)
    · refine .accept hc rfl (fun c1 hc1 _ hpass => ?_) ?_
      · refine .endLine hc1 fun c2 hc2 _ hline => (ih seen hc2 (by omega)).weaken (Nat.zero_le _) ?_
        exact fun fields c' hfields => hfields.after (hc.ahead.trans (hpass.trans hline))
      · refine .expectName hc fun name c1 hc1 _ hname hpass => .expect hc1 rfl fun c2 hc2 _ hcolon => ?_
        refine (type_leads P hc2).bind fun type c3 hc3 _ htype => .endLine hc3 fun c4 hc4 _ hline => ?_
        dsimp only
        split
        · exact .fail hc.place
        · rename_i hseen
          have hseen : name ∉ seen := by simpa using hseen
          refine .spanFrom _ ((ih _ hc4 (by omega)).bind fun more c5 hc5 _ hmore => .pure hc5 ?_)
          have hinside := htype.after (hpass.trans (hc1.ahead.trans (hcolon.trans hc2.ahead)))
          have hfield : Traced G c.ahead [Field.piece ⟨name, type, ⟨c.ahead.place, c4.lastEnd⟩⟩]
              (ProperField P At ⟨name, type, ⟨c.ahead.place, c4.lastEnd⟩⟩) c4 :=
            unnumbered (P := P) (hinside.before hline) (by simp [TypeExpr.piece]) fun hG h hm =>
              ⟨⟨hm, h.1⟩, ⟨hc.place hG, h.2.1⟩, hname hG, h.2.2⟩
          refine ((hfield.after hc.ahead).append hmore).weaken ?_
          rintro ⟨hfirst, hnew, hnodup⟩
          refine ⟨forall_mem_cons.mpr ⟨⟨hfirst, hseen⟩, fun f hf => ?_⟩, nodup_cons.mpr ⟨fun h => ?_, hnodup⟩⟩
          · exact ⟨(hnew f hf).1, fun h => (hnew f hf).2 (mem_cons_of_mem _ h)⟩
          · obtain ⟨f, hf, he⟩ := mem_map.mp h
            exact (hnew f hf).2 (he ▸ mem_cons_self)

theorem struct_leads (hc : c.Fit G At) (hplace : G → At p.place) (hp : p.Hop G c.here) :
    Leads G At c 0 (struct p.place) (StmtFrom G P At p) := by
  refine .expectName hc fun name c1 hc1 _ hname hpass => .expect hc1 rfl fun c2 hc2 _ hcolon => ?_
  have hhead := hp.trans (hc.ahead.trans (hpass.trans (hc1.ahead.trans hcolon)))
  refine .accept hc2 rfl (fun c3 hc3 _ hline => ?_) ?_
  · refine .expect hc3 rfl fun c4 hc4 _ hindent => .ofCursor fun _ => ?_
    refine (structFields_leads P _ _ _ hc4 (by omega)).bind fun fields c5 hc5 _ hfields => ?_
    refine .expect hc5 rfl fun c6 hc6 _ hdedent => ?_
    have hopening := hc2.ahead.trans (hline.trans (hc3.ahead.trans hindent))
    exact complete hc6 hplace ((hfields.after (hhead.trans hopening)).before (hc5.ahead.trans hdedent))
      (fun _ => rfl) (fun _ => rfl) fun hG h _ hm hat => ⟨⟨hm, fun f hf => (h.1 f hf).1.1⟩,
        ⟨hat, fun f hf => (h.1 f hf).1.2.1⟩, hname hG, fun f hf => (h.1 f hf).1.2.2, h.2⟩
  · refine .expect hc2 rfl fun c3 hc3 _ hword => ?_
    exact endLine_complete hc3 hplace (hhead.trans (hc2.ahead.trans hword)) (fun _ => rfl) (fun _ => rfl)
      fun hG _ hm hat => ⟨⟨hm, forall_mem_nil _⟩, ⟨hat, forall_mem_nil _⟩, hname hG, forall_mem_nil _, nodup_nil⟩

/-! ### Heads of functions -/

variable (P) in
theorem parameter_leads (hc : c.Fit G At) :
    Leads G At c 1 parameter fun q c' => Traced G c.ahead [q.piece] (ProperNamed P At q) c' := by
  refine .peek (.accept hc rfl (fun c1 hc1 _ hdots => ?_) ?_)
  · refine .spanFrom _ (.pure hc1 (unnumbered (P := P) (.nil hdots trivial) rfl fun hG _ hm => ?_))
    refine ⟨⟨hm, ?_⟩, ⟨hc.place hG, ?_⟩, fun _ _ h => ?_, rfl⟩
    · exact fun _ h => absurd h (Option.not_mem_none _)
    · exact fun _ h => absurd h (Option.not_mem_none _)
    · cases h
  · refine .expectName hc fun name c1 hc1 _ hname hpass => ?_
    refine (optionalType_leads P _ hc1).bind fun declared c2 hc2 _ hdeclared => .spanFrom _ (.pure hc2 ?_)
    refine unnumbered (P := P) (hdeclared.after hpass) (TypeExpr.idsList_eq _) fun hG h hm => ?_
    refine ⟨⟨hm, fun t ht => (h t ht).1⟩, ⟨hc.place hG, fun t ht => (h t ht).2.1⟩, ?_, rfl⟩
    rintro _ _ ⟨⟩
    exact ⟨hname hG, fun t ht => (h t ht).2.2⟩

variable (P) in
theorem parameters_leads (fuel : Nat) (hc : c.Fit G At) (h : c.left + 1 ≤ fuel) :
    Leads G At c 0 (parameters fuel) fun params c' =>
      Traced G c.here (params.map Param.piece) (∀ q ∈ params, ProperNamed P At q) c' := by
  induction fuel generalizing c with
  | zero => omega
  | succ fuel ih =>
    rw [parameters]
    refine (parameter_leads P hc).bind fun first c1 hc1 _ hfirst => ?_
    have hhead := hfirst.after hc.ahead
    refine .accept hc1 rfl (fun c2 hc2 _ hcomma => ?_) (.pure hc1 (hhead.weaken forall_mem_singleton.mpr))
    refine (ih hc2 (by omega)).bind fun more c3 hc3 _ hmore => .pure hc3 ?_
    exact (hhead.append (hmore.after (hc1.ahead.trans hcomma))).weaken forall_mem_cons.mpr

variable (P) in
/-- The parameters up to the closing bracket, which may be none, and what is read behind them. -/
theorem parameterList_leads {β : Type} {rest : List Param → Parse β} {post : β → Cursor → Prop}
    (hc : c.Fit G At)
    (hrest : ∀ params c', c'.Fit G At → c'.left ≤ c.left →
      Traced G c.here (params.map Param.piece) (∀ q ∈ params, ProperNamed P At q) c' →
      Leads G At c' 0 (rest params) post) :
    Leads G At c 0 (do
      if ← next (.symbol .rightParen) then pure [] >>= rest
      else parameters (← MonadState.get).depthBound >>= rest) post := by
  refine .next _ ?_
  split
  · exact hrest [] c hc (Nat.le_refl _) (.nil (.refl _) (forall_mem_nil _))
  · exact .ofCursor fun _ => (parameters_leads P _ hc (by omega)).bind hrest

variable (P) in
theorem functionHead_leads (hc : c.Fit G At) :
    Leads G At c 0 functionHead fun head c' => ∃ name written, head.Fills name written ∧
      Traced G c.here (written.piecesBehind name)
        (written.Every P ∧ head.Anchored At ∧ head.WellFormed) c' := by
  refine .expectName hc fun name c1 hc1 _ hname hpass => .expect hc1 rfl fun c2 hc2 _ hopening => ?_
  refine parameterList_leads P hc2 fun params c3 hc3 _ hparams => ?_
  refine .expect hc3 rfl fun c4 hc4 _ hclosing => ?_
  refine (optionalType_leads P _ hc4).bind fun returns c5 hc5 _ hreturns => ?_
  dsimp only
  have hboth := (hparams.after (hc1.ahead.trans hopening)).append
    (hreturns.after (hc3.ahead.trans hclosing))
  have hwritten {fact : Prop} (hfact : G → fact) : Traced G c.here
      (FunctionHead.piecesBehind { name, params, returns } ⟨c.ahead.place, c1.lastEnd⟩)
      (FunctionHead.Every P { name, params, returns } ∧ fact) c5 := fun hG =>
    ⟨((Row.nil (hpass hG)).bare.2.2.after (hc.ahead hG)).append (hboth.row hG),
      ⟨fun q hq => ((hboth.every hG).1 q hq).1, fun t ht => ((hboth.every hG).2 t ht).1⟩, hfact hG⟩
  split
  · rename_i hentry
    have hgives (hG : G) : EntryPoint.Gives At _ (EntryPoint.fill ⟨c.ahead.place, c1.lastEnd⟩
        { name, params, returns }) :=
      EntryPoint.fill_gives (hc.place hG) (hname hG) (fun q hq => ((hboth.every hG).1 q hq).2)
        (fun t ht => ((hboth.every hG).2 t ht).2) rfl
    split
    · rename_i head hfill
      rw [hfill] at hgives
      refine .pure hc5 ⟨_, _, ?_, hwritten hgives⟩
      unfold FunctionHead.Fills
      rw [if_pos hentry]
      exact hfill
    · rename_i hfill
      rw [hfill] at hgives
      exact .fail hgives
  · rename_i hother
    refine .pure hc5 ⟨_, _, ?_, hwritten fun hG => ?_⟩
    · unfold FunctionHead.Fills
      rw [if_neg hother]
    · obtain ⟨hps, hrs⟩ := hboth.every hG
      exact ⟨⟨fun q hq => (hps q hq).2.1, fun t ht => (hrs t ht).2.1⟩, hname hG,
        fun q hq => (hps q hq).2.2, fun t ht => (hrs t ht).2.2, rfl, fun h => absurd h hother⟩

/-! ### Statements with blocks -/

variable (P) in
theorem caseValues_leads (fuel : Nat) (hc : c.Fit G At) (h : c.left + 1 ≤ fuel) :
    Leads G At c 0 (caseValues fuel) fun values c' =>
      Traced G c.here (values.map Expr.piece) (values ≠ [] ∧ ProperList P At values) c' := by
  induction fuel generalizing c with
  | zero => omega
  | succ fuel ih =>
    rw [caseValues]
    refine (expression_leads P hc).bind fun first c1 hc1 _ hfirst => ?_
    have hhead := hfirst.after hc.ahead
    refine .accept hc1 rfl (fun c2 hc2 _ hcomma => ?_) (.pure hc1 (hhead.weaken fun h =>
      ⟨cons_ne_nil _ _, ⟨h.1, trivial⟩, ⟨h.2.1, trivial⟩, h.2.2, trivial⟩))
    refine (ih hc2 (by omega)).bind fun more c3 hc3 _ hmore => .pure hc3 ?_
    exact (hhead.append (hmore.after (hc1.ahead.trans hcomma))).weaken fun h =>
      ⟨cons_ne_nil _ _, ⟨h.1.1, h.2.2.1⟩, ⟨h.1.2.1, h.2.2.2.1⟩, h.1.2.2, h.2.2.2.2⟩

/-- A statement of a condition and two blocks is completed behind the second block. -/
theorem branches_complete {build : Mark → Stmt} {condition : Expr} {body orelse : List Stmt} {c1 : Cursor}
    (hbuild : build = (.ifElse · condition body orelse) ∨ build = (.whileLoop · condition body orelse))
    (hplace : G → At p.place) (hfirst : Traced G p ([condition.piece] ++ body.map Stmt.piece)
      (ProperExpr P At condition ∧ body ≠ [] ∧ ProperBody P At body) c1) (hc : c.Fit G At)
    (horelse : Traced G c1.here (orelse.map Stmt.piece) (ProperBody P At orelse) c) :
    Leads G At c 0 (do return build (← markFrom p.place)) (StmtFrom G P At p) := by
  have hwhole := hfirst.append horelse
  rw [append_assoc] at hwhole
  obtain rfl | rfl := hbuild
  all_goals
    refine complete hc hplace hwhole (fun _ => rfl)
      (fun m => by simp [Stmt.ids, Stmt.idsList_eq, Expr.piece]) ?_
    rintro _ ⟨⟨h, hsome, hb⟩, ho⟩ m hm hat
    exact ⟨⟨hm, h.1, hb.1, ho.1⟩, ⟨hat, h.2.1, hb.2.1, ho.2.1⟩, h.2.2, hsome, hb.2.2, ho.2.2⟩

/-- The block is read from one cursor up to the other. -/
abbrev BlockFrom (G : Prop) (P : Node → Prop) (At : Location → Prop) (c : Cursor) (body : List Stmt) (c' : Cursor) :
    Prop := Traced G c.here (body.map Stmt.piece) (body ≠ [] ∧ ProperBody P At body) c'

/-- The clauses of a switch are read: cases, and among them at most one default. -/
def ClausesFrom (G : Prop) (P : Node → Prop) (At : Location → Prop) (c : Cursor)
    (r : List SwitchCase × Option (List Stmt)) (c' : Cursor) : Prop :=
  (c.front.kind.isLayout = false → r.1 = [] → r.2 ≠ none) ∧ ∃ front back, r.1 = front ++ back ∧
    Traced G c.here (front.map SwitchCase.piece ++ (r.2.getD []).map Stmt.piece ++ back.map SwitchCase.piece)
      (ProperCases P At r.1 ∧ ProperDefault P At r.2) c'

section

variable {fuel : Nat} (hc : c.Fit G At) (h : 2 * c.left + 1 ≤ fuel) (hplace : G → At p.place) (hp : p.Hop G c.here)
  (hblock : ∀ {c : Cursor} (context : String), c.Fit G At → 2 * c.left + 1 ≤ fuel →
    Leads G At c 0 (block fuel context) (BlockFrom G P At c))
include hc h hplace hp hblock

theorem whileLoop_leads : Leads G At c 0 (do
      let condition ← expression
      let body ← block fuel "while statement"
      let orelse ←
        if ← accept (.keyword .else_) then block fuel "while-else clause" else pure []
      return Stmt.whileLoop (← markFrom p.place) condition body orelse) (StmtFrom G P At p) := by
  refine (expression_leads P hc).bind fun condition c1 hc1 _ hcondition => ?_
  refine (hblock _ hc1 (by omega)).bind fun body c2 hc2 _ hbody => ?_
  have hfirst := (hcondition.after (hp.trans hc.ahead)).append hbody
  refine .accept hc2 rfl (fun c3 hc3 _ helse => ?_)
    (branches_complete (.inr rfl) hplace hfirst hc2 (.nil (.refl _) ⟨trivial, trivial, trivial⟩))
  refine (hblock _ hc3 (by omega)).bind fun orelse c4 hc4 _ horelse => ?_
  exact branches_complete (.inr rfl) hplace hfirst hc4
    ((horelse.after (hc2.ahead.trans helse)).weaken And.right)

theorem doLoop_leads : Leads G At c 0 (do
      let body ← block fuel "do statement"
      expect (.keyword .while_) "do statement"
      let condition ← expression
      endLine "do statement"
      return Stmt.doLoop (← markFrom p.place) body condition) (StmtFrom G P At p) := by
  refine (hblock _ hc (by omega)).bind fun body c1 hc1 _ hbody => .expect hc1 rfl fun c2 hc2 _ hwhile => ?_
  refine (expression_leads P hc2).bind fun condition c3 hc3 _ hcondition => ?_
  refine .endLine hc3 fun c4 hc4 _ hline => ?_
  have hboth := (hbody.after hp).append (hcondition.after (hc1.ahead.trans (hwhile.trans hc2.ahead)))
  refine complete hc4 hplace (hboth.before hline) (fun _ => rfl)
    (fun m => by simp [Stmt.ids, Stmt.idsList_eq, Expr.piece]) ?_
  rintro _ ⟨⟨hsome, hb⟩, he⟩ m hm hat
  exact ⟨⟨hm, hb.1, he.1⟩, ⟨hat, hb.2.1, he.2.1⟩, hsome, hb.2.2, he.2.2⟩

theorem function_leads : Leads G At c 0 (do
      let head ← functionHead
      if ← next (.symbol .colon) then
        let body ← block fuel "function body"
        return Stmt.function (← markFrom p.place) head body
      else
        endLine "function declaration"
        return Stmt.announce (← markFrom p.place) head) (StmtFrom G P At p) := by
  refine (functionHead_leads P hc).bind fun head c1 hc1 _ hhead => ?_
  obtain ⟨name, written, hfills, hwritten⟩ := hhead
  have hfirst := hwritten.after hp
  refine .next _ ?_
  split
  · refine (hblock _ hc1 (by omega)).bind fun body c2 hc2 _ hbody => ?_
    refine complete hc2 hplace (hfirst.append hbody) (fun _ => rfl) (fun m => ?_) ?_
    · rw [Stmt.ids, hfills.ids, Stmt.idsList_eq, flatMap_append]
    · rintro _ ⟨⟨hw, hw', hw''⟩, hsome, hb⟩ m hm hat
      exact ⟨⟨name, written, hfills, hm, hw, hb.1⟩, ⟨hat, hw', hb.2.1⟩, hw'', hsome, hb.2.2⟩
  · refine .endLine hc1 fun c2 hc2 _ hline => ?_
    refine complete hc2 hplace (hfirst.before hline) (fun _ => rfl) (fun m => ?_)
      fun _ h m hm hat => ⟨⟨name, written, hfills, hm, h.1⟩, ⟨hat, h.2.1⟩, h.2.2⟩
    rw [Stmt.ids, hfills.ids]

omit hplace hp in
/-- A case and what follows it. -/
theorem case_leads {r : List SwitchCase × Option (List Stmt) → Cursor → Prop}
    {rest : Parse (List SwitchCase × Option (List Stmt))} {c0 : Cursor} (hp : c0.ahead.Hop G c.here)
    (hrest : ∀ (first : SwitchCase) (c1 : Cursor), c1.Fit G At → c1.left ≤ c.left →
      Traced G c0.ahead [first.piece] (first.Every P ∧ first.Anchored At ∧ first.WellFormed) c1 →
      Leads G At c1 0 rest fun more c' => r (first :: more.1, more.2) c') :
    Leads G At c 0 (do
      let values ← caseValues (← get).depthBound
      let body ← block fuel "case clause"
      let first := .mk (← spanFrom c0.front.start) values body
      let (more, default) ← rest
      return (first :: more, default)) r := by
  refine .ofCursor fun _ => (caseValues_leads P _ hc (by omega)).bind fun values c1 hc1 _ hvalues => ?_
  refine (hblock _ hc1 (by omega)).bind fun body c2 hc2 _ hbody => .spanFrom _ ?_
  refine (hrest (.mk ⟨c0.front.start, c2.lastEnd⟩ values body) c2 hc2 (by omega) (unnumbered (P := P)
    ((hvalues.after hp).append hbody) ?_ ?_)).bind fun more c3 hc3 _ hmore => .pure hc3 hmore
  · rw [SwitchCase.ids, Expr.idsList_eq, Stmt.idsList_eq, flatMap_append]
  · rintro _ ⟨⟨hsome, hv⟩, hsome', hb⟩ hm
    exact ⟨⟨hm, hv.1, hb.1⟩, ⟨hv.2.1, hb.2.1⟩, hsome, hv.2.2, hsome', hb.2.2⟩

omit hblock in
theorem switch_leads (hclauses : ∀ {c : Cursor}, c.Fit G At → 2 * c.left + 1 ≤ fuel →
      Leads G At c 0 (clauses fuel none) (ClausesFrom G P At c)) : Leads G At c 0 (do
      let subject ← expression
      expectSymbol .colon "switch statement"
      expect .newline "switch statement"
      expect .indent "switch statement"
      let r ← clauses fuel none
      return Stmt.switch (← markFrom p.place) subject r.1 r.2) (StmtFrom G P At p) := by
  refine (expression_leads P hc).bind fun subject c1 hc1 _ hsubject => ?_
  refine .expect hc1 rfl fun c2 hc2 _ hcolon => .expect hc2 rfl fun c3 hc3 _ hline => ?_
  refine .indent hc3 fun c4 hc4 _ hindent hsubstance => ?_
  refine (hclauses hc4 (by omega)).bind fun r c5 hc5 _ hclauses => ?_
  obtain ⟨hsome, front, back, hcases, hclauses⟩ := hclauses
  have hopening := hc1.ahead.trans
    (hcolon.trans (hc2.ahead.trans (hline.trans (hc3.ahead.trans hindent))))
  have hwhole := (hsubject.after (hp.trans hc.ahead)).append (hclauses.after hopening)
  refine .markFrom _ (.pure (hc5.numbered _) fun hG => ?_)
  obtain ⟨hs, hr, hd⟩ := hwhole.every hG
  refine numbered_within (P := P) (hwhole.row hG) (.refl _) (hwhole.row hG).chain (.refl _) ?_ fun hm =>
    ⟨⟨⟨front, back, hcases, hm⟩, hs.1, hr.1, hd.1⟩, ⟨hplace hG, hs.2.1, hr.2.1, hd.2.1⟩, hs.2.2,
      hsome (hsubstance hG), hr.2.2, hd.2.2⟩
  -- The numbers of the default come last, wherever it stands.
  rw [Stmt.ids, hcases, SwitchCase.idsList_eq, Stmt.idsBlock_eq]
  simp only [flatMap_append, map_append, flatMap_cons, flatMap_nil,
    append_nil, append_assoc, Expr.piece]
  refine .append_left _ (.append_left _ ?_)
  rw [← append_assoc, ← append_assoc]
  exact perm_append_comm.append_right _

end

namespace Leading

mutual

/-- What the readers of statements read with fuel that suffices. -/
theorem statementWithin {fuel : Nat} {c : Cursor} (hc : c.Fit G At) (h : 2 * c.left + 1 ≤ fuel) :
    Leads G At c 1 (Parse.statementWithin fuel) (StmtFrom G P At c.ahead) := by
  match fuel with
  | 0 => omega
  | fuel + 1 =>
  rw [Parse.statementWithin]
  refine .peek ?_
  dsimp only
  have hplace : c.front.start = c.ahead.place := rfl
  rw [hplace]
  -- Behind a word that starts a statement, that word has been passed.
  have hword {k : Keyword} {f : Token → Parse Stmt} (hfront : c.front.kind = .keyword k)
      (h : ∀ c1 : Cursor, c1.Fit G At → c1.left + 1 ≤ c.left → c.ahead.Hop G c1.here →
        Leads G At c1 0 (f c.front) (StmtFrom G P At c.ahead)) :
      Leads G At c 1 (advance >>= f) (StmtFrom G P At c.ahead) :=
    .take hc (by rw [hfront]; rfl) h
  have hline {k : Keyword} {context : String} {build : Mark → Stmt} (hfront : c.front.kind = .keyword k)
      (hspan : ∀ m, (build m).span = m.span) (hids : ∀ m, (build m).ids = [m.id])
      (hproper : ∀ m : Mark, P ⟨m.id, m.span, []⟩ → At m.span.start → ProperStmt P At (build m)) :
      Leads G At c 1 (do let _ ← advance; endLine context; return build (← markFrom c.ahead.place))
        (StmtFrom G P At c.ahead) :=
    hword hfront fun c1 hc1 _ hp => endLine_complete hc1 hc.place hp hspan hids fun _ => hproper
  split <;> try rename_i hfront
  · exact hword hfront fun c1 hc1 _ hp => conditional hc1 (by omega) hc.place hp
  · exact hword hfront fun c1 hc1 _ hp => whileLoop_leads hc1 (by omega) hc.place hp block
  · exact hword hfront fun c1 hc1 _ hp => doLoop_leads hc1 (by omega) hc.place hp block
  · exact hword hfront fun c1 hc1 _ hp => switch_leads hc1 (by omega) hc.place hp clauses
  · exact hword hfront fun c1 hc1 _ hp => result_leads hc1 hc.place hp
  · exact hline hfront (fun _ => rfl) (fun _ => rfl) fun _ hm hat => ⟨hm, hat, trivial⟩
  · exact hline hfront (fun _ => rfl) (fun _ => rfl) fun _ hm hat => ⟨hm, hat, trivial⟩
  · exact hword hfront fun c1 hc1 _ hp => function_leads hc1 (by omega) hc.place hp block
  · exact hword hfront fun c1 hc1 _ hp => struct_leads hc1 hc.place hp
  · exact hword hfront fun c1 hc1 _ hp => enum_leads hc1 hc.place hp
  · exact hword hfront fun c1 hc1 _ hp => typedef_leads hc1 hc.place hp
  · exact hword hfront fun c1 hc1 _ hp => define_leads hc1 hc.place hp
  · exact hword hfront fun c1 hc1 _ hp => includeFile_leads hc1 hc.place hp
  · exact hword hfront fun c1 hc1 _ hp => ifndef_leads hc1 hc.place hp
  · exact hline hfront (fun _ => rfl) (fun _ => rfl) fun _ hm hat => ⟨hm, hat, trivial⟩
  · refine .peekSecond hc (by rw [hfront]; rfl) fun kind c1 hc1 _ hsame => ?_
    rw [← hsame]
    split
    · exact declaration_leads hc1
    · exact expressionOrAssignment_leads hc1
  · exact expressionOrAssignment_leads hc

theorem conditional {fuel : Nat} {c : Cursor} {p : Waypoint} (hc : c.Fit G At)
    (h : 2 * c.left + 1 ≤ fuel) (hplace : G → At p.place) (hp : p.Hop G c.here) :
    Leads G At c 0 (Parse.conditional fuel p.place) (StmtFrom G P At p) := by
  match fuel with
  | 0 => omega
  | fuel + 1 =>
  rw [Parse.conditional]
  refine (expression_leads P hc).bind fun condition c1 hc1 _ hcondition => ?_
  refine (block _ hc1 (by omega)).bind fun body c2 hc2 _ hbody => .peek ?_
  have hfirst := (hcondition.after (hp.trans hc.ahead)).append hbody
  split
  · rename_i hfront
    refine .take hc2 (by rw [hfront]; rfl) fun c3 hc3 _ helif => ?_
    refine (conditional hc3 (by omega) hc2.place helif).bind fun other c4 hc4 _ hother => ?_
    exact branches_complete (.inl rfl) hplace hfirst hc4 ((hother.after hc2.ahead).weaken fun h =>
      ⟨⟨h.1, trivial⟩, ⟨h.2.1, trivial⟩, h.2.2, trivial⟩)
  · rename_i hfront
    refine .take hc2 (by rw [hfront]; rfl) fun c3 hc3 _ helse => ?_
    refine (block _ hc3 (by omega)).bind fun orelse c4 hc4 _ horelse => ?_
    exact branches_complete (.inl rfl) hplace hfirst hc4 ((horelse.after (hc2.ahead.trans helse)).weaken And.right)
  · exact branches_complete (.inl rfl) hplace hfirst hc2 (.nil (.refl _) ⟨trivial, trivial, trivial⟩)

theorem block {fuel : Nat} {c : Cursor} (context : String) (hc : c.Fit G At) (h : 2 * c.left + 1 ≤ fuel) :
    Leads G At c 0 (Parse.block fuel context) (BlockFrom G P At c) := by
  match fuel with
  | 0 => omega
  | fuel + 1 =>
  rw [Parse.block]
  refine .expect hc rfl fun c1 hc1 _ hcolon => ?_
  have hhead := hc.ahead.trans hcolon
  refine .accept hc1 rfl (fun c2 hc2 _ hline => ?_) ?_
  · refine .indent hc2 fun c3 hc3 _ hindent hsubstance => ?_
    refine (statements hc3 (by omega)).bind fun body c4 hc4 _ hbody => ?_
    refine .expect hc4 rfl fun c5 hc5 _ hdedent => .pure hc5 ?_
    have hopening := hhead.trans (hc1.ahead.trans (hline.trans (hc2.ahead.trans hindent)))
    intro hG
    exact ((hbody.after hopening).before (hc4.ahead.trans hdedent)).weaken (fun h => ⟨h.1 (hsubstance hG), h.2⟩) hG
  · refine (statementWithin hc1 (by omega)).bind fun only c2 hc2 _ honly => .pure hc2 ?_
    exact (honly.after (hhead.trans hc1.ahead)).weaken fun h =>
      ⟨cons_ne_nil _ _, ⟨h.1, trivial⟩, ⟨h.2.1, trivial⟩, h.2.2, trivial⟩

theorem statements {fuel : Nat} {c : Cursor} (hc : c.Fit G At) (h : 2 * c.left + 2 ≤ fuel) :
    Leads G At c 0 (Parse.statements fuel) fun body c' => Traced G c.here (body.map Stmt.piece)
      ((c.front.kind.isLayout = false → body ≠ []) ∧ ProperBody P At body) c' := by
  match fuel with
  | 0 => omega
  | fuel + 1 =>
  rw [Parse.statements]
  refine .peekKind ?_
  split
  · rename_i hend
    refine .pure hc (.nil (.refl _) ⟨fun hsolid => ?_, trivial, trivial, trivial⟩)
    cases hk : c.front.kind <;> simp_all [TokenKind.isLayout]
  · refine (statementWithin hc (by omega)).bind fun first c1 hc1 _ hfirst => ?_
    refine (statements hc1 (by omega)).bind fun more c2 hc2 _ hmore => .pure hc2 ?_
    exact ((hfirst.after hc.ahead).append hmore).weaken fun h => ⟨fun _ => cons_ne_nil _ _,
      ⟨h.1.1, h.2.2.1⟩, ⟨h.1.2.1, h.2.2.2.1⟩, h.1.2.2, h.2.2.2.2⟩

theorem clausesBehind {fuel : Nat} {c : Cursor} (body : List Stmt) (hc : c.Fit G At) (h : 2 * c.left + 1 ≤ fuel) :
    Leads G At c 0 (Parse.clauses fuel (some body)) fun r c' => r.2 = some body ∧
      Traced G c.here (r.1.map SwitchCase.piece) (ProperCases P At r.1) c' := by
  match fuel with
  | 0 => omega
  | fuel + 1 =>
  rw [Parse.clauses]
  refine .advance hc fun c1 hc1 hleft hmoves => ?_
  split
  · rename_i hcase
    rw [hcase] at hleft
    change _ + 1 ≤ _ at hleft
    refine .fewer (case_leads hc1 (by omega) block (hmoves.ahead (by rw [hcase]; rfl)) fun first c2 hc2 _ hfirst =>
      (clausesBehind body hc2 (by omega)).weaken (Nat.le_refl _) fun more c' hmore => ⟨hmore.1, ?_⟩)
    exact ((hfirst.after hc.ahead).append hmore.2).weaken fun h =>
      ⟨⟨h.1.1, h.2.1⟩, ⟨h.1.2.1, h.2.2.1⟩, h.1.2.2, h.2.2.2⟩
  · exact .fail hc.place
  · exact .fewer (.pure hc1 ⟨rfl, .nil hmoves.passes ⟨trivial, trivial, trivial⟩⟩)
  · exact .unexpected hc.place

theorem clauses {fuel : Nat} {c : Cursor} (hc : c.Fit G At) (h : 2 * c.left + 1 ≤ fuel) :
    Leads G At c 0 (Parse.clauses fuel none) (ClausesFrom G P At c) := by
  match fuel with
  | 0 => omega
  | fuel + 1 =>
  rw [Parse.clauses]
  refine .advance hc fun c1 hc1 hleft hmoves => ?_
  split
  · rename_i hcase
    rw [hcase] at hleft
    change _ + 1 ≤ _ at hleft
    refine .fewer (case_leads hc1 (by omega) block (hmoves.ahead (by rw [hcase]; rfl)) fun first c2 hc2 _ hfirst =>
      (clauses hc2 (by omega)).weaken (Nat.le_refl _) fun more c' hmore => ?_)
    obtain ⟨_, front, back, hcases, hmore⟩ := hmore
    refine ⟨fun _ h => absurd h (cons_ne_nil _ _), first :: front, back, congrArg _ hcases, ?_⟩
    refine ((hfirst.after hc.ahead).append hmore).weaken ?_
    rintro ⟨hf, hm, hd⟩
    exact ⟨⟨⟨hf.1, hm.1⟩, ⟨hf.2.1, hm.2.1⟩, hf.2.2, hm.2.2⟩, hd⟩
  · rename_i helse
    rw [helse] at hleft
    change _ + 1 ≤ _ at hleft
    refine .fewer ((block _ hc1 (by omega)).bind fun body c2 hc2 _ hbody =>
      (clausesBehind body hc2 (by omega)).weaken (Nat.le_refl _) fun r c' hr => ?_)
    obtain ⟨hdefault, hr⟩ := hr
    refine ⟨fun _ _ hnone => ?_, [], r.1, rfl, ?_⟩
    · rw [hdefault] at hnone
      cases hnone
    · rw [hdefault]
      refine ((hbody.after hmoves.passes).append hr).weaken ?_
      rintro ⟨⟨hsome, hb⟩, hr⟩
      exact ⟨hr, hb.1, hb.2.1, hsome, hb.2.2⟩
  · rename_i hdedent
    refine .fewer (.pure hc1 ⟨fun hsolid => ?_, [], [], rfl, .nil hmoves.passes
      ⟨⟨trivial, trivial, trivial⟩, trivial, trivial, trivial⟩⟩)
    rw [hdedent] at hsolid
    cases hsolid
  · exact .unexpected hc.place

end

end Leading

variable (P) in
theorem statement_leads (hc : c.Fit G At) : Leads G At c 1 statement (StmtFrom G P At c.ahead) :=
  .ofCursor fun _ => Leading.statementWithin hc (by omega)

/-! ### Whole files -/

variable (P) in
/-- A file is read to its end only if nothing cuts it short. -/
theorem fileBody_leads (fuel : Nat) (hc : c.Fit G At) (h : c.left + 1 ≤ fuel) :
    Leads G At c 0 (fileBody fuel) fun body c' => (G → c'.failure = none) ∧
      Traced G c.here (body.map Stmt.piece) (ProperBody P At body) c' := by
  induction fuel generalizing c with
  | zero => omega
  | succ fuel ih =>
    rw [fileBody, next, bind_assoc]
    refine .peek_sure fun hsure => ?_
    rw [pure_bind]
    split
    · rename_i hend
      refine .pure hc ⟨fun hG => ?_, .nil (.refl _) ⟨trivial, trivial, trivial⟩⟩
      by_contra hcut
      obtain ht | ⟨hnil, _⟩ := c.shows_front
      · exact (hc hG).1.unended hcut _ (mem_of_head? ht) (of_decide_eq_true hend)
      · exact hcut (hsure hnil)
    · refine (statement_leads P hc).bind fun first c1 hc1 _ hfirst => ?_
      refine (ih hc1 (by omega)).bind fun more c2 hc2 _ hmore => .pure hc2 ⟨hmore.1, ?_⟩
      exact ((hfirst.after hc.ahead).append hmore.2).weaken fun h =>
        ⟨⟨h.1.1, h.2.1⟩, ⟨h.1.2.1, h.2.2.1⟩, h.1.2.2, h.2.2.2⟩

variable (P) in
theorem file_leads (hc : c.Fit G At) : Leads G At c 0 file fun m c' => (G → c'.failure = none) ∧
    Traced G c.here (m.body.map Stmt.piece) (ProperBody P At m.body) c' :=
  .ofCursor fun _ => (fileBody_leads P _ hc (by omega)).bind fun _ _ hc1 _ hbody => .pure hc1 hbody

end Parse

namespace Module

variable {file text : String}

theorem fit (hc : (Cursor.ofText file text).Within At) : (Cursor.ofText file text).Fit True At :=
  fun _ => ⟨hc, Cursor.ofText_ordered file text⟩

/-- How a text that is read to its end is read. -/
theorem ofText_leads (P : Node → Prop) [Node.Textual P] (hc : (Cursor.ofText file text).Within At)
    {m : Module} (h : Module.ofText file text = .ok m) :
    (TokenStream.ofText file text).failure = none ∧
      (∃ q, Row ⟨⟨file, .start⟩, 0⟩ (m.body.map Stmt.piece) q) ∧ Parse.ProperBody P At m.body := by
  obtain ⟨c', hrun⟩ := Parse.outcome_ok h
  obtain ⟨_, hsame, _, hend, hread⟩ := (Parse.file_leads P (fit hc)).ok hrun
  exact ⟨hsame.symm.trans (hend trivial), ⟨_, hread.row trivial⟩, hread.every trivial⟩

/-- What a text reads as begins at places of the text. -/
theorem ofText_anchored (hc : (Cursor.ofText file text).Within At) {m : Module}
    (h : Module.ofText file text = .ok m) : Stmt.AnchoredList At m.body :=
  (ofText_leads Node.Nested hc h).2.2.2.1

/-- **What a text reads as is well formed.** -/
theorem ofText_wellFormed {m : Module} (h : Module.ofText file text = .ok m) : Stmt.WellFormedList m.body :=
  (ofText_leads Node.Nested (Cursor.ofText_within_inText file text) h).2.2.2.2

/-- A text is read to its end only if it has tokens to its end. -/
theorem ofText_complete {m : Module} (h : Module.ofText file text = .ok m) :
    (TokenStream.ofText file text).failure = none :=
  (ofText_leads Node.Nested (Cursor.ofText_within_inText file text) h).1

/-- The statements of a file come in a row from its start on, numbered from zero. -/
theorem ofText_row (P : Node → Prop) [Node.Textual P] {m : Module} (h : Module.ofText file text = .ok m) :
    (∃ q, Row ⟨⟨file, .start⟩, 0⟩ (m.body.map Stmt.piece) q) ∧ Stmt.EveryList P m.body := by
  obtain ⟨_, hrow, hevery, _⟩ := ofText_leads P (Cursor.ofText_within_inText file text) h
  exact ⟨hrow, hevery⟩

/-- What is reported of a text: what cut its tokens short, or a fault of the grammar at one of them. -/
theorem ofText_reported (hc : (Cursor.ofText file text).Within At) (h : Module.ofText file text = .error failure) :
    (TokenStream.ofText file text).failure = some failure ∨ ∃ fault l, failure = .grammar fault l ∧ At l := by
  have hleads := Parse.file_leads Node.Nested (fit hc)
  unfold Module.ofText Parse.outcome at h
  split at h
  · cases h
  · rename_i hrun
    cases h
    rw [Parse.Leads, hrun] at hleads
    obtain hcut | ⟨fault, l, hgrammar, hl⟩ := hleads
    · exact .inl hcut
    · exact .inr ⟨fault, l, hgrammar, hl trivial⟩

/-- **Reading a text fails for faults of the text only.** -/
theorem ofText_error (h : Module.ofText file text = .error failure) : failure.ofText = true := by
  obtain hcut | ⟨fault, l, rfl, _⟩ := ofText_reported (Cursor.ofText_within_inText file text) h
  · exact TokenStream.ofText_fault hcut
  · rfl

/-- What is reported of a text that cannot be read stands inside the text. -/
theorem ofText_error_inText (h : Module.ofText file text = .error failure) :
    failure.ofText ∧ ∃ l, failure.location? = some l ∧ l.InText file text := by
  refine ⟨ofText_error h, ?_⟩
  rcases ofText_reported (Cursor.ofText_within_inText file text) h with hcut | hgrammar
  · exact (TokenStream.failure_inText hcut).2
  · obtain ⟨fault, l, rfl, hl⟩ := hgrammar
    exact ⟨l, rfl, hl⟩

/-- **Of the faults of a text the first is reported.** Where its tokens are cut short, reading fails with
what cut them short or with a fault of the grammar that comes no later; where they are not, reading fails
for the grammar only. -/
theorem ofText_firstFault (file text : String) :
    (∀ failure, (TokenStream.ofText file text).toList = .error failure →
      ∃ place reported, failure.location? = some place ∧ Module.ofText file text = .error reported ∧
        (reported = failure ∨ ∃ fault l, reported = .grammar fault l ∧ l.UpTo place)) ∧
    ∀ tokens, (TokenStream.ofText file text).toList = .ok tokens →
      ∀ reported, Module.ofText file text = .error reported → ∃ fault l, reported = .grammar fault l := by
  obtain ⟨stop, hlocated⟩ := TokenStream.ofText_located file text
  constructor
  · intro failure hcut
    have hfailure : (TokenStream.ofText file text).failure = some failure := by
      unfold TokenStream.toList at hcut
      split at hcut <;> cases hcut
      assumption
    let place := Location.ofOffset file (foldLineEnds text.toList) stop
    have hc : (Cursor.ofText file text).Within fun l => l.UpTo place :=
      Cursor.ofText_within hlocated fun _ h => h.upTo
    refine ⟨place, ?_⟩
    cases hread : Module.ofText file text with
    | ok m =>
      rw [ofText_complete hread] at hfailure
      cases hfailure
    | error reported =>
      refine ⟨reported, hlocated.failure failure hfailure, rfl, ?_⟩
      rcases ofText_reported hc hread with hsame | hgrammar
      · rw [hfailure] at hsame
        cases hsame
        exact .inl rfl
      · exact .inr hgrammar
  · intro tokens hwhole reported hread
    have hnone : (TokenStream.ofText file text).failure = none := by
      unfold TokenStream.toList at hwhole
      split at hwhole <;> cases hwhole
      assumption
    rcases ofText_reported (Cursor.ofText_within hlocated fun _ h => h) hread with hcut | hgrammar
    · rw [hnone] at hcut
      cases hcut
    · obtain ⟨fault, l, rfl, _⟩ := hgrammar
      exact ⟨fault, l, rfl⟩

/-- A number too many before a character that no token has. -/
theorem ofText_firstFault_number : ∃ reported, Module.ofText "a.cu" "1 2 $" = .error reported ∧
      (reported = .lexical (.unknownSymbol '$') ⟨"a.cu", ⟨1, 5⟩⟩ ∨
        ∃ fault l, reported = .grammar fault l ∧ l.UpTo ⟨"a.cu", ⟨1, 5⟩⟩) := by
  have hcut : (TokenStream.ofText "a.cu" "1 2 $").toList =
      .error (.lexical (.unknownSymbol '$') ⟨"a.cu", ⟨1, 5⟩⟩) := by rfl
  obtain ⟨place, reported, hplace, hread, hfirst⟩ := (ofText_firstFault "a.cu" "1 2 $").1 _ hcut
  cases hplace
  exact ⟨reported, hread, hfirst⟩

end Module

/-- **Spans nest and are ordered.** In every text that can be read the statements stand one behind the
other, and each thing with a span, from statements and cases down to written types and the expressions in
them, goes forward in the text and holds the spans of its parts, one behind the other. -/
theorem Module.ofText_nested {file text : String} {m : Module} (h : Module.ofText file text = .ok m) :
    (m.body.map Stmt.span).Pairwise (fun s t => s.stop.UpTo t.start) ∧ Stmt.EveryList Node.Nested m.body := by
  obtain ⟨⟨q, hrow⟩, hevery⟩ := Module.ofText_row Node.Nested h
  have hspans : (m.body.map Stmt.piece).map Piece.span = m.body.map Stmt.span := by
    rw [List.map_map]
    rfl
  exact ⟨hspans ▸ hrow.chain.apart, hevery⟩

/-- An entry point with a parameter that has no type, a switch with its default in front, a sum in
parentheses. -/
theorem Module.ofText_nested_main :
    let text := "def main(n, t: char[][]):\n    switch n:\n        else:\n            n = (n + 1) * n\n" ++
      "        case 1, 2: pass\n    return <int[4]>t[0]\nx = 0\n"
    ∃ m, Module.ofText "a.cu" text = .ok m ∧ (m.body.map Stmt.span).Pairwise (fun s t => s.stop.UpTo t.start) ∧
      Stmt.EveryList Node.Nested m.body := by
  intro text
  have hread : (Module.ofText "a.cu" text).isOk = true := by decide +kernel
  cases h : Module.ofText "a.cu" text with
  | error failure =>
    rw [h] at hread
    cases hread
  | ok m => exact ⟨m, rfl, Module.ofText_nested h⟩

end Offside
