import Offside.Proofs.Grammar.Progress
import Offside.Proofs.Token.Places

/-! Where the parts of a tree begin.

What is read begins where one of the tokens does (`Stmt.Anchored`), also what is filled in for the entry
point, which begins where the name of the function does. A cursor over the tokens of a text stands at places
of the text (`Cursor.ofText_within_inText`). -/
namespace Offside

open List

variable {failure : Failure}

/-! ### Where the parts of a tree begin -/

mutual

/-- All that stands in an expression begins where `At` says. -/
def Expr.Anchored (At : Location → Prop) : Expr → Prop
  | .int m _ | .float m _ | .char m _ | .string m _ | .null m | .name m _ => At m.span.start
  | .array m items => At m.span.start ∧ Expr.AnchoredList At items
  | .binary m _ left right => At m.span.start ∧ left.Anchored At ∧ right.Anchored At
  | .unary m _ operand => At m.span.start ∧ operand.Anchored At
  | .call m callee arguments => At m.span.start ∧ callee.Anchored At ∧ Expr.AnchoredList At arguments
  | .index m object position => At m.span.start ∧ object.Anchored At ∧ position.Anchored At
  | .member m object _ _ => At m.span.start ∧ object.Anchored At
  | .cast m target operand => At m.span.start ∧ target.Anchored At ∧ operand.Anchored At
  | .sizeof m target => At m.span.start ∧ target.Anchored At

def Expr.AnchoredList (At : Location → Prop) : List Expr → Prop
  | [] => True
  | e :: rest => e.Anchored At ∧ Expr.AnchoredList At rest

/-- All that stands in a type begins where `At` says. -/
def TypeExpr.Anchored (At : Location → Prop) : TypeExpr → Prop
  | .name span _ | .vararg span => At span.start
  | .pointer span target => At span.start ∧ target.Anchored At
  | .array span element size => At span.start ∧ element.Anchored At ∧ size.Anchored At
  | .function span params returns =>
    At span.start ∧ TypeExpr.AnchoredList At params ∧ returns.Anchored At

def TypeExpr.AnchoredList (At : Location → Prop) : List TypeExpr → Prop
  | [] => True
  | t :: rest => t.Anchored At ∧ TypeExpr.AnchoredList At rest

end

structure VarDecl.Anchored (At : Location → Prop) (d : VarDecl) : Prop where
  declared : ∀ t ∈ d.declared, t.Anchored At
  init : ∀ e ∈ d.init, e.Anchored At

structure Field.Anchored (At : Location → Prop) (f : Field) : Prop where
  here : At f.span.start
  type : f.type.Anchored At

structure Param.Anchored (At : Location → Prop) (p : Param) : Prop where
  here : At p.span.start
  declared : ∀ t ∈ p.declared?, t.Anchored At

structure FunctionHead.Anchored (At : Location → Prop) (f : FunctionHead) : Prop where
  params : ∀ p ∈ f.params, p.Anchored At
  returns : ∀ t ∈ f.returns, t.Anchored At

mutual

/-- All that stands in a statement begins where `At` says, also what is filled in for the entry point. -/
def Stmt.Anchored (At : Location → Prop) : Stmt → Prop
  | .expr m e => At m.span.start ∧ e.Anchored At
  | .declare m d => At m.span.start ∧ d.Anchored At
  | .assign m target value => At m.span.start ∧ target.Anchored At ∧ value.Anchored At
  | .announce m f => At m.span.start ∧ f.Anchored At
  | .function m f body => At m.span.start ∧ f.Anchored At ∧ Stmt.AnchoredList At body
  | .result m value | .define m _ value => At m.span.start ∧ ∀ e ∈ value, e.Anchored At
  | .ifElse m c body orelse | .whileLoop m c body orelse =>
    At m.span.start ∧ c.Anchored At ∧ Stmt.AnchoredList At body ∧ Stmt.AnchoredList At orelse
  | .doLoop m body c => At m.span.start ∧ Stmt.AnchoredList At body ∧ c.Anchored At
  | .switch m subject cases default =>
    At m.span.start ∧ subject.Anchored At ∧ SwitchCase.AnchoredList At cases ∧ Stmt.AnchoredBlock At default
  | .struct m _ fields => At m.span.start ∧ ∀ f ∈ fields, f.Anchored At
  | .typedef m target _ => At m.span.start ∧ target.Anchored At
  | .leave m | .pass m | .enum m _ _ | .includeFile m _ | .ifndef m _ | .endif m => At m.span.start

def Stmt.AnchoredList (At : Location → Prop) : List Stmt → Prop
  | [] => True
  | s :: rest => s.Anchored At ∧ Stmt.AnchoredList At rest

def Stmt.AnchoredBlock (At : Location → Prop) : Option (List Stmt) → Prop
  | none => True
  | some body => Stmt.AnchoredList At body

def SwitchCase.Anchored (At : Location → Prop) : SwitchCase → Prop
  | .mk _ values body => Expr.AnchoredList At values ∧ Stmt.AnchoredList At body

def SwitchCase.AnchoredList (At : Location → Prop) : List SwitchCase → Prop
  | [] => True
  | c :: rest => c.Anchored At ∧ SwitchCase.AnchoredList At rest

end

section

variable {At : Location → Prop}

theorem Expr.Anchored.start {e : Expr} (h : e.Anchored At) : At e.start := by
  cases e with
  | int | float | char | string | null | name => exact h
  | _ => exact h.1

/-- Two spans together begin where one of them does. -/
theorem Span.extend_start {s t : Span} (hs : At s.start) (ht : At t.start) : At (s.extend t).start := by
  unfold Span.extend
  split
  · dsimp only
    split
    · exact hs
    · exact ht
  · exact hs

theorem TypeExpr.Anchored.start {t : TypeExpr} (h : t.Anchored At) : At t.start := by
  cases t with
  | name | vararg => exact h
  | _ => exact h.1

/-! ### The entry point -/

namespace EntryPoint

variable {α β : Type} {s : Span} {mid : α → Prop} {post : β → Prop}

/-- Filling in gives what `post` says, or a fault at a place that `At` knows. -/
def Gives (At : Location → Prop) (post : α → Prop) : Outcome α → Prop
  | .ok a => post a
  | .error (_, l) => At l

theorem Gives.bind {p : Outcome α} {f : α → Outcome β} (hp : Gives At mid p)
    (hf : ∀ a, mid a → Gives At post (f a)) : Gives At post (p >>= f) := by
  cases p with
  | ok a => exact hf a hp
  | error fault => exact hp

theorem countType_anchored (hs : At s.start) : (countType s).Anchored At := hs

theorem textsType_anchored (hs : At s.start) : (textsType s).Anchored At := ⟨hs, hs, hs⟩

/-- A parameter that has been filled in needs no filling. -/
theorem fillParam_gives {p : Param} {expected : Span → TypeExpr}
    (hshape : ∀ (t : TypeExpr) s s', t.sameShape (expected s) = t.sameShape (expected s'))
    (hself : (expected s).sameShape (expected s)) (hexpected : (expected s).Anchored At)
    (hplain : (expected s).Plain) (hp : p.Anchored At ∧ p.WellFormed) :
    Gives At (fun q => (q.Anchored At ∧ q.WellFormed) ∧ ∀ s', fillParam q (expected s') = .ok q)
      (fillParam p (expected s)) := by
  unfold fillParam
  split
  · exact hp.1.here
  · rename_i name hkind
    refine ⟨⟨⟨hp.1.here, ?_⟩, ?_, hp.2.untyped⟩, fun s' => ?_⟩
    · rintro _ ⟨⟩
      exact hexpected
    · rintro _ _ ⟨⟩
      refine ⟨(hp.2.named name none hkind).1, ?_⟩
      rintro _ ⟨⟩
      exact hplain
    · simp only [hshape (expected s) s' s, hself, if_true]
  · rename_i name declared hkind
    split
    · rename_i hsame
      exact ⟨hp, fun s' => by simp only [hkind, hshape declared s' s, hsame, if_true]⟩
    · exact hp.1.here

theorem fillParams_gives {params : List Param} (hs : At s.start)
    (hparams : ∀ p ∈ params, p.Anchored At ∧ p.WellFormed) :
    Gives At (fun filled => (∀ p ∈ filled, p.Anchored At ∧ p.WellFormed) ∧
      ∀ s', fillParams s' filled = .ok filled) (fillParams s params) := by
  have hcount := countType_anchored hs
  have htexts := textsType_anchored hs
  unfold fillParams
  split
  · have hdefault {name : String} {type : TypeExpr} (hname : IsName name) (htype : type.Anchored At)
        (hplain : type.Plain) : Param.Anchored At ⟨.named name (some type), s, none⟩ ∧
          Param.WellFormed ⟨.named name (some type), s, none⟩ := by
      refine ⟨⟨hs, ?_⟩, ?_, rfl⟩
      · rintro _ ⟨⟩
        exact htype
      · rintro _ _ ⟨⟩
        refine ⟨hname, ?_⟩
        rintro _ ⟨⟩
        exact hplain
    have hargc : IsName "argc" := by decide
    have hargv : IsName "argv" := by decide
    exact ⟨forall_mem_cons.mpr ⟨hdefault hargc hcount (countType_plain s),
      forall_mem_singleton.mpr (hdefault hargv htexts (textsType_plain s))⟩, fun _ => rfl⟩
  · obtain ⟨hfirst, hsecond⟩ := forall_mem_cons.mp hparams
    have hsecond := forall_mem_singleton.mp hsecond
    refine (fillParam_gives sameShape_countType rfl hcount (countType_plain s) hfirst).bind
      fun first h1 => ?_
    refine (fillParam_gives sameShape_textsType rfl htexts (textsType_plain s) hsecond).bind
      fun second h2 => ⟨forall_mem_cons.mpr ⟨h1.1, forall_mem_singleton.mpr h2.1⟩, fun s' => ?_⟩
    simp only [h1.2 s', h2.2 s', bind, Except.bind, pure, Except.pure]
  · exact hs

theorem fillResult_gives {returns : Option TypeExpr} (hs : At s.start)
    (hreturns : ∀ t ∈ returns, t.Anchored At ∧ t.Plain) :
    Gives At (fun t => (t.Anchored At ∧ t.Plain) ∧ ∀ s', fillResult s' (some t) = .ok t) (fillResult s returns) := by
  unfold fillResult
  split
  · exact ⟨⟨countType_anchored hs, countType_plain s⟩, fun _ => rfl⟩
  · rename_i declared
    have hdeclared := hreturns declared rfl
    split
    · rename_i hsame
      refine ⟨hdeclared, fun s' => ?_⟩
      rw [if_pos (sameShape_countType declared s' s ▸ hsame)]
    · exact hdeclared.1.start

/-- A head that has been filled in needs no filling. What is filled in begins where the name does. -/
theorem fill_gives {head : FunctionHead} (hs : At s.start) (hname : IsName head.name)
    (hparams : ∀ p ∈ head.params, p.Anchored At ∧ p.WellFormed)
    (hreturns : ∀ t ∈ head.returns, t.Anchored At ∧ t.Plain) (hsignature : head.signature = none) :
    Gives At (fun filled => filled.Anchored At ∧ filled.WellFormed) (fill s head) := by
  refine (fillParams_gives hs hparams).bind fun params h1 => ?_
  refine (fillResult_gives hs hreturns).bind fun returns h2 => ⟨⟨fun p hp => (h1.1 p hp).1, ?_⟩,
    hname, fun p hp => (h1.1 p hp).2, ?_, hsignature, fun _ s' => ?_⟩
  · rintro _ ⟨⟩
    exact h2.1.1
  · rintro _ ⟨⟩
    exact h2.1.2
  · simp only [fill, h1.2 s', h2.2 s', bind, Except.bind, pure, Except.pure]

end EntryPoint

end

/-! ### Cursors -/

/-- The tokens at a cursor, and the end of the one before it, stand where `At` says. Nothing but the end of
the file comes behind it. -/
structure Cursor.Within (At : Location → Prop) (c : Cursor) : Prop where
  lastEnd : At c.lastEnd
  tokens : ∀ t ∈ c.tokens, At t.span.start ∧ At t.span.stop
  unended : c.failure ≠ none → ∀ t ∈ c.tokens, t.kind ≠ .endOfFile
  sound : c.Sound

theorem Cursor.ofText_within {At : Location → Prop} {file text : String} {stop : Nat}
    (h : TokenStream.Located file (foldLineEnds text.toList) 0 stop
      ((TokenStream.ofText file text).tokens, (TokenStream.ofText file text).failure))
    (hAt : ∀ l : Location, l.Within file (foldLineEnds text.toList) stop → At l) :
    (Cursor.ofText file text).Within At where
  lastEnd := hAt _ ⟨0, Nat.zero_le stop, rfl⟩
  tokens t ht := ⟨hAt _ (h.tokens t ht).1, hAt _ (h.tokens t ht).2⟩
  unended := h.unended
  sound := ofText_sound file text

theorem Cursor.ofText_within_inText (file text : String) :
    (Cursor.ofText file text).Within (Location.InText file text) := by
  obtain ⟨stop, hlocated⟩ := TokenStream.ofText_located file text
  exact Cursor.ofText_within hlocated fun _ h => h.mono hlocated.inside

/-- What cuts the tokens of a text short does so inside the text. -/
theorem TokenStream.failure_inText {file text : String} (h : (TokenStream.ofText file text).failure = some failure) :
    failure.ofText ∧ ∃ l, failure.location? = some l ∧ l.InText file text := by
  obtain ⟨stop, hlocated⟩ := ofText_located file text
  exact ⟨TokenStream.ofText_fault h, _, hlocated.failure failure h, stop, hlocated.inside, rfl⟩

end Offside
