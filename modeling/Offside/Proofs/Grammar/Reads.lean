import Offside.Proofs.Grammar.Cursor

/-! Reading that succeeds.

`Reads p c rest post` says that `p` succeeds at the cursor, leaves the tokens `rest`, and gives an answer
with `post`. Each step of reading has a rule that goes from the tokens in front of the cursor to those
behind, so that a reader is followed step by step along the tokens it is given. -/
namespace Offside

/-! ### Cursors at known tokens -/

/-- The tokens that are left have these kinds, and nothing cuts them short. -/
structure Cursor.At (c : Cursor) (kinds : List TokenKind) : Prop where
  tokens : c.tokens.map Token.kind = kinds
  unbroken : c.failure = none

theorem Cursor.At.cons {c : Cursor} {k : TokenKind} {kinds : List TokenKind} (h : c.At (k :: kinds)) :
    ∃ t rest, c.tokens = t :: rest ∧ t.kind = k ∧ rest.map Token.kind = kinds := by
  obtain ⟨t, rest, htokens, hkind, hrest⟩ := List.map_eq_cons_iff.mp h.tokens
  exact ⟨t, rest, htokens, hkind, hrest⟩

theorem Cursor.At.depthBound {c : Cursor} {kinds : List TokenKind} (h : c.At kinds) :
    c.depthBound = 10 * (kinds.length + 10) := by
  rw [Cursor.depthBound, ← h.tokens, List.length_map]

namespace Parse

variable {α β : Type}

/-- `p` succeeds and leaves the tokens `rest`. -/
def Reads (p : Parse α) (c : Cursor) (rest : List TokenKind) (post : α → Prop) : Prop :=
  ∃ a c', p.run c = .ok a c' ∧ c'.At rest ∧ post a

namespace Reads

variable {p : Parse α} {f : α → Parse β} {c : Cursor} {k : TokenKind} {kinds mid rest : List TokenKind}
  {between : α → Prop} {post : β → Prop}

theorem pure {b : β} (hc : c.At rest) (h : post b) : Reads (Pure.pure b : Parse β) c rest post := ⟨b, c, rfl, hc, h⟩

theorem bind (hp : Reads p c mid between)
    (hf : ∀ a c', c'.At mid → between a → Reads (f a) c' rest post) : Reads (p >>= f) c rest post := by
  obtain ⟨a, c', ha, hc', hbetween⟩ := hp
  obtain ⟨b, c'', hb, hc'', hpost⟩ := hf a c' hc' hbetween
  exact ⟨b, c'', run_bind_ok.mpr ⟨a, c', ha, hb⟩, hc'', hpost⟩

theorem weaken {q : Parse β} {stronger : β → Prop} (h : Reads q c rest stronger)
    (hpost : ∀ b, stronger b → post b) : Reads q c rest post := by
  obtain ⟨b, c', hb, hc', hstrong⟩ := h
  exact ⟨b, c', hb, hc', hpost b hstrong⟩

/-- A step that leaves the cursor where it is. -/
theorem look {p : Parse α} {f : α → Parse β} {a : α} (hp : p.run c = .ok a c)
    (h : Reads (f a) c rest post) : Reads (p >>= f) c rest post := by
  obtain ⟨b, c', hb, hc', hpost⟩ := h
  exact ⟨b, c', run_bind_ok.mpr ⟨a, c, hp, hb⟩, hc', hpost⟩

/-! ### Single steps -/

theorem get {f : Cursor → Parse β} (h : Reads (f c) c rest post) :
    Reads (MonadState.get >>= f) c rest post := look rfl h

section

variable (hc : c.At (k :: kinds))
include hc

theorem peek {f : Token → Parse β}
    (h : ∀ span, Reads (f ⟨k, span⟩) c rest post) : Reads (Parse.peek >>= f) c rest post := by
  obtain ⟨⟨_, span⟩, tokens, htokens, rfl, _⟩ := hc.cons
  refine look ?_ (h span)
  rw [peek_run, htokens]

theorem peekKind {f : TokenKind → Parse β} (h : Reads (f k) c rest post) :
    Reads (Parse.peekKind >>= f) c rest post := by
  unfold Parse.peekKind
  rw [bind_assoc]
  refine peek hc fun span => ?_
  rw [pure_bind]
  exact h

theorem next {f : Bool → Parse β} (kind : TokenKind)
    (h : Reads (f (k = kind)) c rest post) : Reads (Parse.next kind >>= f) c rest post := by
  unfold Parse.next
  rw [bind_assoc]
  refine peek hc fun span => ?_
  rw [pure_bind]
  exact h

theorem advance {f : Token → Parse β}
    (h : ∀ (span : Span) (c' : Cursor), c'.At kinds → Reads (f ⟨k, span⟩) c' rest post) :
    Reads (Parse.advance >>= f) c rest post := by
  obtain ⟨t, tokens, htokens, rfl, hrest⟩ := hc.cons
  let after : Cursor := { c with
    tokens := c.tokens.tail
    lastEnd := if t.kind = .endOfFile then c.lastEnd else t.span.stop }
  have hpeek : Parse.peek.run c = .ok t c := by rw [peek_run, htokens]
  have hrun : Parse.advance.run c = .ok t after := by rw [advance_run, hpeek]
  have hafter : after.At kinds := by
    refine ⟨?_, hc.unbroken⟩
    show c.tokens.tail.map Token.kind = kinds
    rw [htokens]
    exact hrest
  obtain ⟨b, c', hb, hc', hpost⟩ := h t.span after hafter
  exact ⟨b, c', run_bind_ok.mpr ⟨t, after, hrun, hb⟩, hc', hpost⟩

/-- Taking a token that is there. -/
theorem accept {f : Bool → Parse β} (h : ∀ c' : Cursor, c'.At kinds → Reads (f true) c' rest post) :
    Reads (Parse.accept k >>= f) c rest post := by
  unfold Parse.accept
  rw [bind_assoc]
  refine next hc k ?_
  rw [decide_eq_true rfl, if_pos rfl, bind_assoc]
  refine advance hc fun _ c' hc' => ?_
  rw [pure_bind]
  exact h c' hc'

/-- Not taking a token that is not there. -/
theorem accept_other {f : Bool → Parse β} {kind : TokenKind} (hne : k ≠ kind)
    (h : Reads (f false) c rest post) : Reads (Parse.accept kind >>= f) c rest post := by
  unfold Parse.accept
  rw [bind_assoc]
  refine next hc kind ?_
  rw [decide_eq_false hne, if_neg (by decide), pure_bind]
  exact h

theorem expect {f : Unit → Parse β} {context : String} (h : ∀ c' : Cursor, c'.At kinds → Reads (f ()) c' rest post) :
    Reads (Parse.expect k context >>= f) c rest post := by
  unfold Parse.expect
  rw [bind_assoc]
  refine advance hc fun _ c' hc' => ?_
  rw [if_neg (by simp), pure_bind]
  exact h c' hc'

end

theorem expectName {f : String × Span → Parse β} {context n : String} (hc : c.At (.identifier n :: kinds))
    (h : ∀ (span : Span) (c' : Cursor), c'.At kinds → Reads (f (n, span)) c' rest post) :
    Reads (Parse.expectName context >>= f) c rest post := by
  unfold Parse.expectName
  rw [bind_assoc]
  exact advance hc h

theorem peekSecond {f : TokenKind → Parse β} {first second : TokenKind}
    (hc : c.At (first :: second :: kinds)) (h : Reads (f second) c rest post) :
    Reads (Parse.peekSecond >>= f) c rest post := by
  obtain ⟨t, tokens, htokens, _, htail⟩ := hc.cons
  obtain ⟨t', tokens', rfl, rfl, _⟩ := List.map_eq_cons_iff.mp htail
  refine look ?_ h
  unfold Parse.peekSecond
  rw [EStateM.run_bind, Parse.peekNth_run, htokens]
  rfl

/-- Steps that only look at where the cursor is or count nodes. -/
theorem spanFrom {f : Span → Parse β} (start : Location) (h : ∀ span, Reads (f span) c rest post) :
    Reads (Parse.spanFrom start >>= f) c rest post := look rfl (h _)

theorem fresh {f : Nat → Parse β} (hc : c.At kinds)
    (h : ∀ (id : Nat) (c' : Cursor), c'.At kinds → Reads (f id) c' rest post) :
    Reads (Parse.fresh >>= f) c rest post := by
  obtain ⟨b, c', hb, hc', hpost⟩ := h c.nextId { c with nextId := c.nextId + 1 } ⟨hc.tokens, hc.unbroken⟩
  exact ⟨b, c', run_bind_ok.mpr ⟨_, _, rfl, hb⟩, hc', hpost⟩

theorem markFrom {f : Mark → Parse β} (start : Location) (hc : c.At kinds)
    (h : ∀ (m : Mark) (c' : Cursor), c'.At kinds → Reads (f m) c' rest post) :
    Reads (Parse.markFrom start >>= f) c rest post := by
  unfold Parse.markFrom
  rw [bind_assoc]
  refine fresh hc fun id c' hc' => ?_
  rw [bind_assoc]
  refine spanFrom start fun span => ?_
  rw [pure_bind]
  exact h _ c' hc'

theorem finish {build : ExprMark → Expr} {post : Expr → Prop} (start : Location) (hc : c.At rest)
    (h : ∀ m : ExprMark, m.type = none → post (build m)) :
    Reads (Parse.finish start build) c rest post := by
  unfold Parse.finish
  exact markFrom start hc fun m c' hc' => .pure hc' (h _ rfl)

theorem endLine {f : Unit → Parse β} {context : String} (hc : c.At (.newline :: kinds))
    (h : ∀ c' : Cursor, c'.At kinds → Reads (f ()) c' rest post) :
    Reads (Parse.endLine context >>= f) c rest post := by
  unfold Parse.endLine
  rw [bind_assoc]
  refine peekKind hc ?_
  rw [if_pos rfl, bind_assoc]
  refine advance hc fun _ c' hc' => ?_
  rw [pure_bind]
  exact h c' hc'

end Reads

end Parse

end Offside
