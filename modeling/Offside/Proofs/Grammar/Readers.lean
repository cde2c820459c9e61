import Offside.Proofs.Grammar.Places
import Offside.Proofs.Grammar.Rows

/-! How reading ends.

`Parse.Leads` follows a reader from a cursor on. Reading ends with an answer, for which tokens have been
taken, or with what cut the tokens short, or with a fault of the grammar; fuel never runs out. So much holds
for any tokens. If they are those of a text, which the proposition `G` stands for, what is read is well
formed, begins where a token does and comes in a row, and a fault is reported at the place of a token. The
readers of expressions and types call each other with less and less fuel, so this is shown for all of them
at once, by recursion on the fuel (`Parse.Leading.tighter` and the theorems with it). -/
namespace Offside

open List

variable {ids : List Nat} {kind : TokenKind} {G : Prop} {At : Location → Prop} {P : Node → Prop}

/-- A property of nodes that stand in the order of the text and of the numbers. -/
class Node.Textual (P : Node → Prop) : Prop where
  holds (n : Node) : n.Nested → n.Tops → P n

instance : Node.Textual Node.Nested := ⟨fun _ h _ => h⟩

instance : Node.Textual Node.Tops := ⟨fun _ _ h => h⟩

/-! ### Cursors -/

/-- From one waypoint to another there are tokens and no nodes, if `G` holds. -/
def Waypoint.Hop (G : Prop) (p q : Waypoint) : Prop := G → p.Passes q

theorem Waypoint.Hop.refl (p : Waypoint) : p.Hop G p := fun _ => .refl p

theorem Waypoint.Hop.trans {p q r : Waypoint} (h : p.Hop G q) (h' : q.Hop G r) : p.Hop G r :=
  fun hG => (h hG).trans (h' hG)

namespace Cursor

variable {c c' : Cursor}

/-- If `G` holds, the tokens stand at places that `At` knows, one behind the other. -/
def Fit (G : Prop) (At : Location → Prop) (c : Cursor) : Prop := G → c.Within At ∧ c.Ordered

theorem shows_front (c : Cursor) : c.tokens.head? = some c.front ∨ c.tokens = [] ∧ c.front.kind = .endOfFile := by
  unfold front
  cases c.tokens with
  | nil => exact .inr ⟨rfl, rfl⟩
  | cons t rest => exact .inl rfl

/-- What comes first is not left once it is taken. -/
theorem left_tail (htail : c'.tokens = c.tokens.tail) : c'.left + c.front.kind.weight ≤ c.left := by
  unfold left front
  rw [htail]
  cases c.tokens with
  | nil => simp [ending, Token.atPoint, TokenKind.weight]
  | cons t rest =>
    simp only [tail_cons, headD_cons, map_cons, sum_cons]
    omega

theorem Within.place (hc : c.Within At) : At c.front.start := by
  obtain ht | ⟨hnil, _⟩ := c.shows_front
  · exact (hc.tokens _ (mem_of_head? ht)).1
  · unfold front
    rw [hnil]
    exact hc.lastEnd

theorem Fit.place (hc : c.Fit G At) (hG : G) : At c.front.start := (hc hG).1.place

theorem Fit.ahead (hc : c.Fit G At) : c.here.Hop G c.ahead := fun hG => (hc hG).2.ahead

theorem Fit.numbered (hc : c.Fit G At) (n : Nat) : { c with nextId := n }.Fit G At := fun hG =>
  have h := hc hG
  ⟨⟨h.1.lastEnd, h.1.tokens, h.1.unended, h.1.sound⟩, h.2.numbered n⟩

/-- What is known of the cursor behind the next token. -/
structure Moves (G : Prop) (c c' : Cursor) : Prop where
  passes : c.here.Hop G c'.here
  ahead : c.front.kind.isSolid → c.ahead.Hop G c'.here
  span : c.front.kind.isSolid → ⟨c.ahead.place, c'.lastEnd⟩ = c.front.span
  tokens : c'.tokens = c.tokens.tail

/-- Behind the next token. -/
theorem Fit.tail (hc : c.Fit G At) :
    let c' : Cursor := { c with
      tokens := c.tokens.tail
      lastEnd := if c.front.kind = .endOfFile then c.lastEnd else c.front.span.stop }
    c'.Fit G At ∧ c.Moves G c' := by
  have hstop (hsolid : c.front.kind.isSolid) :
      (if c.front.kind = .endOfFile then c.lastEnd else c.front.span.stop) = c.front.span.stop :=
    if_neg (TokenKind.ne_endOfFile hsolid)
  refine ⟨fun hG => ⟨?_, (hc hG).2.tail.1⟩, fun hG => (hc hG).2.tail.2.passes,
    fun hsolid hG => (hc hG).2.tail.2.ahead hsolid, fun hsolid => ?_, rfl⟩
  · obtain ⟨hlast, htokens, hunended, hsound⟩ := (hc hG).1
    have htail {u : Token} (hu : u ∈ c.tokens.tail) : u ∈ c.tokens := mem_of_mem_tail hu
    refine ⟨?_, fun u hu => htokens u (htail hu), fun hf u hu => hunended hf u (htail hu), hsound.tail⟩
    dsimp only
    split
    · exact hlast
    · rename_i hkind
      obtain ht | ⟨_, ht⟩ := c.shows_front
      · exact (htokens _ (mem_of_head? ht)).2
      · exact absurd ht hkind
  · dsimp only
    rw [hstop hsolid]
    rfl

end Cursor

namespace Parse

variable {α β : Type} {k l : Nat}

/-- An end of reading that began at `c`: with an answer, for which at least `k` tokens have been taken, or
with what cut the tokens short, or with a fault of the grammar at a place that `At` knows. -/
def Kept (G : Prop) (At : Location → Prop) (c : Cursor) (k : Nat) (post : α → Cursor → Prop) :
    EStateM.Result Failure Cursor α → Prop
  | .ok a c' => c'.Fit G At ∧ c'.failure = c.failure ∧ c'.left + k ≤ c.left ∧ post a c'
  | .error failure _ => c.failure = some failure ∨ ∃ fault l, failure = .grammar fault l ∧ (G → At l)

def Leads (G : Prop) (At : Location → Prop) (c : Cursor) (k : Nat) (p : Parse α) (post : α → Cursor → Prop) : Prop :=
  Kept G At c k post (p.run c)

/-- What comes behind owes what has not been taken. -/
theorem Kept.after {c c' : Cursor} {post : β → Cursor → Prop} {r : EStateM.Result Failure Cursor β}
    (h : Kept G At c' (l - k) post r) (hsame : c'.failure = c.failure) (hleft : c'.left + k ≤ c.left) :
    Kept G At c l post r := by
  cases r with
  | error failure c'' =>
    rw [Kept, ← hsame]
    exact h
  | ok b c'' =>
    obtain ⟨hc'', hsame', hleft', hb⟩ := h
    exact ⟨hc'', hsame'.trans hsame, by omega, hb⟩

namespace Leads

variable {c : Cursor} {p : Parse α} {f : α → Parse β} {mid : α → Cursor → Prop}
  {post : β → Cursor → Prop} {q r : Parse β} {context : String}

theorem ok {a : α} {c' : Cursor} (h : Leads G At c k p mid) (hrun : p.run c = .ok a c') :
    c'.Fit G At ∧ c'.failure = c.failure ∧ c'.left + k ≤ c.left ∧ mid a c' := by
  rw [Leads, hrun] at h
  exact h

theorem bind (hp : Leads G At c k p mid) (hf : ∀ a c', c'.Fit G At → c'.left + k ≤ c.left → mid a c' →
    Leads G At c' (l - k) (f a) post) : Leads G At c l (p >>= f) post := by
  unfold Leads at hp ⊢
  rw [EStateM.run_bind]
  cases hrun : p.run c with
  | error failure c' =>
    rw [hrun] at hp
    exact hp
  | ok a c' =>
    rw [hrun] at hp
    obtain ⟨hc', hsame, hleft, ha⟩ := hp
    exact Kept.after (hf a c' hc' hleft ha) hsame hleft

theorem pure {b : β} (hc : c.Fit G At) (h : post b c) : Leads G At c 0 (Pure.pure b) post :=
  ⟨hc, rfl, Nat.le_refl _, h⟩

theorem fail {fault : GrammarFault} {place : Location} (h : G → At place) :
    Leads G At c k (Parse.fail fault place) post :=
  .inr ⟨fault, place, rfl, h⟩

theorem unexpected {wanted : Expectation} {found : Token} (h : G → At found.start) :
    Leads G At c k (Parse.unexpected wanted found) post :=
  .inr ⟨_, _, rfl, h⟩

theorem unexpected_bind {wanted : Expectation} {found : Token} (h : G → At found.start) :
    Leads G At c k (Parse.unexpected wanted found >>= f) post :=
  .inr ⟨_, _, rfl, h⟩

theorem weaken {stronger : β → Cursor → Prop} (h : Leads G At c k q stronger) (hk : l ≤ k)
    (hpost : ∀ b c', stronger b c' → post b c') : Leads G At c l q post := by
  unfold Leads at h ⊢
  cases hrun : q.run c with
  | error failure c' =>
    rw [hrun] at h
    exact h
  | ok b c' =>
    rw [hrun] at h
    obtain ⟨hc', hsame, hleft, hb⟩ := h
    exact ⟨hc', hsame, by omega, hpost b c' hb⟩

theorem fewer (h : Leads G At c l q post) : Leads G At c (l - k) q post := h.weaken (Nat.sub_le _ _) fun _ _ h => h

/-! ### Single steps -/

/-- Where the fuel is taken from the cursor. -/
theorem ofCursor {f : Cursor → Parse β} (h : 4 * c.left + 4 ≤ c.depthBound → Leads G At c l (f c) post) :
    Leads G At c l (MonadState.get >>= f) post :=
  h c.left_lt_depthBound

/-- Behind the last token only the end of the file is seen, and nothing that cuts the tokens short. -/
theorem peek_sure {f : Token → Parse β} (h : (c.tokens = [] → c.failure = none) → Leads G At c l (f c.front) post) :
    Leads G At c l (Parse.peek >>= f) post := by
  unfold Leads at h ⊢
  rw [EStateM.run_bind, peek_run]
  unfold Cursor.front at h
  cases htokens : c.tokens with
  | cons t rest =>
    rw [htokens] at h
    exact h (List.cons_ne_nil t rest · |>.elim)
  | nil =>
    rw [htokens] at h
    cases hfailure : c.failure with
    | none => exact h fun _ => hfailure
    | some failure => exact .inl hfailure

theorem peek {f : Token → Parse β} (h : Leads G At c l (f c.front) post) : Leads G At c l (Parse.peek >>= f) post :=
  peek_sure fun _ => h

theorem peekKind {f : TokenKind → Parse β} (h : Leads G At c l (f c.front.kind) post) :
    Leads G At c l (Parse.peekKind >>= f) post := by
  unfold Parse.peekKind
  rw [bind_assoc]
  exact peek h

theorem next {f : Bool → Parse β} (kind : TokenKind) (h : Leads G At c l (f (c.front.kind = kind)) post) :
    Leads G At c l (Parse.next kind >>= f) post := by
  unfold Parse.next
  rw [bind_assoc]
  exact peek h

section

variable (hc : c.Fit G At)
include hc

theorem advance {f : Token → Parse β}
    (h : ∀ c' : Cursor, c'.Fit G At → c'.left + c.front.kind.weight ≤ c.left → c.Moves G c' →
      Leads G At c' (l - c.front.kind.weight) (f c.front) post) :
    Leads G At c l (Parse.advance >>= f) post := by
  rw [Parse.advance_eq, bind_assoc]
  obtain ⟨hc', hmoves⟩ := hc.tail
  have hleft := Cursor.left_tail hmoves.tokens
  exact peek (Kept.after (h _ hc' hleft hmoves) rfl hleft)

/-- The next token where it is known not to be the end of the file. -/
theorem take {f : Token → Parse β} (hsolid : c.front.kind.isSolid)
    (h : ∀ c' : Cursor, c'.Fit G At → c'.left + 1 ≤ c.left → c.ahead.Hop G c'.here →
      Leads G At c' (l - 1) (f c.front) post) : Leads G At c l (Parse.advance >>= f) post := by
  refine advance hc fun c' hc' hleft hmoves => ?_
  rw [TokenKind.weight_eq_one (TokenKind.ne_endOfFile hsolid)] at hleft ⊢
  exact h c' hc' hleft (hmoves.ahead hsolid)

/-- A token that is taken if it is there. -/
theorem accept (hkind : kind.isSolid)
    (htrue : ∀ c' : Cursor, c'.Fit G At → c'.left + 1 ≤ c.left → c.ahead.Hop G c'.here → Leads G At c' (l - 1) q post)
    (hfalse : Leads G At c l r post) :
    Leads G At c l (Parse.accept kind >>= fun b => if b = true then q else r) post := by
  unfold Parse.accept
  rw [bind_assoc]
  refine next kind ?_
  by_cases hfront : c.front.kind = kind
  · rw [decide_eq_true hfront, if_pos rfl, bind_assoc]
    exact take hc (hfront ▸ hkind) htrue
  · rw [decide_eq_false hfront, if_neg (by decide)]
    exact hfalse

theorem expect_moves {f : Unit → Parse β} (hkind : kind.isSolid)
    (h : ∀ c' : Cursor, c'.Fit G At → c'.left + 1 ≤ c.left → c.front.kind = kind → c.Moves G c' →
      Leads G At c' (l - 1) (f ()) post) : Leads G At c l (Parse.expect kind context >>= f) post := by
  unfold Parse.expect
  rw [bind_assoc]
  refine advance hc fun c' hc' hleft hmoves => ?_
  by_cases hfront : c.front.kind = kind
  · rw [if_neg (by simpa using hfront)]
    rw [hfront, TokenKind.weight_eq_one (TokenKind.ne_endOfFile hkind)] at hleft ⊢
    exact h c' hc' hleft hfront hmoves
  · rw [if_pos hfront]
    exact unexpected_bind hc.place

theorem expect {f : Unit → Parse β} (hkind : kind.isSolid)
    (h : ∀ c' : Cursor, c'.Fit G At → c'.left + 1 ≤ c.left → c.ahead.Hop G c'.here →
      Leads G At c' (l - 1) (f ()) post) : Leads G At c l (Parse.expect kind context >>= f) post :=
  expect_moves hc hkind fun c' hc' hleft hfront hmoves =>
    h c' hc' hleft (hmoves.ahead (hfront ▸ hkind))

/-- Where a block opens there is something to read. -/
theorem indent {f : Unit → Parse β} (h : ∀ c' : Cursor, c'.Fit G At → c'.left + 1 ≤ c.left → c.ahead.Hop G c'.here →
      (G → c'.front.kind.isLayout = false) → Leads G At c' (l - 1) (f ()) post) :
    Leads G At c l (Parse.expect .indent context >>= f) post := by
  refine expect_moves hc rfl fun c' hc' hleft hfront hmoves =>
    h c' hc' hleft (hmoves.ahead (by rw [hfront]; rfl)) fun hG => ?_
  obtain ht | ⟨_, hend⟩ := c.shows_front
  · obtain ⟨rest, htokens⟩ := head?_eq_some_iff.mp ht
    have hsound := (hc hG).1.sound
    rw [Cursor.Sound, htokens] at hsound
    obtain ⟨first, more, rfl, hfirst⟩ := hsound.2.1 hfront
    unfold Cursor.front
    rw [hmoves.tokens, htokens]
    exact hfirst
  · rw [hfront] at hend
    cases hend

theorem expectName {f : String × Span → Parse β}
    (h : ∀ (name : String) (c' : Cursor), c'.Fit G At → c'.left + 1 ≤ c.left → (G → IsName name) →
      c.ahead.Hop G c'.here → Leads G At c' (l - 1) (f (name, ⟨c.ahead.place, c'.lastEnd⟩)) post) :
    Leads G At c l (Parse.expectName context >>= f) post := by
  unfold Parse.expectName
  rw [bind_assoc]
  refine advance hc fun c' hc' hleft hmoves => ?_
  have hgenuine (hG : G) : c.front.kind.Genuine := (hc hG).1.sound.front c.shows_front
  split
  · rename_i name hkind
    have hsolid : c.front.kind.isSolid := by rw [hkind]; rfl
    rw [hkind] at hleft hgenuine ⊢
    rw [← hmoves.span hsolid]
    exact h name c' hc' hleft hgenuine (hmoves.ahead hsolid)
  · exact unexpected_bind hc.place

theorem endLine {f : Unit → Parse β} (h : ∀ c' : Cursor, c'.Fit G At → c'.left ≤ c.left → c.here.Hop G c'.here →
      Leads G At c' l (f ()) post) : Leads G At c l (Parse.endLine context >>= f) post := by
  unfold Parse.endLine
  rw [bind_assoc]
  refine peekKind ?_
  split
  · rw [bind_assoc]
    refine advance hc fun c' hc' hleft hmoves => ?_
    exact .fewer (h c' hc' (by omega) hmoves.passes)
  · split
    · rw [bind_assoc]
      exact advance hc fun c' _ _ _ => unexpected_bind hc.place
    · exact h c hc (Nat.le_refl _) (.refl _)

/-- Behind a token of a text that is not the end of the file there is another, so none is made up. -/
theorem peekSecond {f : TokenKind → Parse β} (hsolid : c.front.kind.isSolid)
    (h : ∀ kind (c' : Cursor), c'.Fit G At → c'.left = c.left → c'.ahead = c.ahead →
      Leads G At c' l (f kind) post) : Leads G At c l (Parse.peekSecond >>= f) post := by
  obtain ⟨file, tokens, failure, lastEnd, nextId⟩ := c
  have hsame (kind : TokenKind) := h kind _ hc rfl rfl
  cases tokens with
  | nil =>
    cases failure with
    | some failure => exact .inl rfl
    | none => exact hsame _
  | cons first rest =>
  cases rest with
  | cons second rest => exact hsame _
  | nil =>
  cases failure with
  | some failure => exact .inl rfl
  | none =>
    have hnot : ¬G := by
      intro hG
      obtain hnil | ⟨t, ht, hend⟩ := (hc hG).2.closed rfl
      · cases hnil
      · cases ht
        exact absurd hend (TokenKind.ne_endOfFile hsolid)
    have hleft : Cursor.left ⟨file, [first, .atPoint .endOfFile lastEnd], none, lastEnd, nextId⟩ =
        Cursor.left ⟨file, [first], none, lastEnd, nextId⟩ := by
      simp [Cursor.left, Token.atPoint, TokenKind.weight]
    exact Kept.after (k := 0) (h .endOfFile _ (fun hG => absurd hG hnot) hleft rfl) rfl (Nat.le_of_eq hleft)

end

theorem spanFrom {f : Span → Parse β} (start : Location) (h : Leads G At c l (f ⟨start, c.lastEnd⟩) post) :
    Leads G At c l (Parse.spanFrom start >>= f) post := h

theorem fresh {f : Nat → Parse β}
    (h : Leads G At { c with nextId := c.nextId + 1 } l (f c.nextId) post) :
    Leads G At c l (Parse.fresh >>= f) post := h

theorem markFrom {f : Mark → Parse β} (start : Location)
    (h : Leads G At { c with nextId := c.nextId + 1 } l (f ⟨c.nextId, ⟨start, c.lastEnd⟩⟩) post) :
    Leads G At c l (Parse.markFrom start >>= f) post := h

end Leads

/-- From a waypoint up to the cursor the pieces are read, and something holds of what they are of. -/
def Traced (G : Prop) (p : Waypoint) (pieces : List Piece) (every : Prop) (c : Cursor) : Prop :=
  G → Row p pieces c.here ∧ every

namespace Traced

variable {p q : Waypoint} {c c' : Cursor} {pieces more : List Piece} {fact also : Prop}

theorem row (h : Traced G p pieces fact c) (hG : G) : Row p pieces c.here := (h hG).1

theorem every (h : Traced G p pieces fact c) (hG : G) : fact := (h hG).2

theorem nil (h : p.Hop G c.here) (hfact : fact) : Traced G p [] fact c := fun hG => ⟨.nil (h hG), hfact⟩

theorem after (hp : p.Hop G q) (h : Traced G q pieces fact c) : Traced G p pieces fact c :=
  fun hG => ⟨(h.row hG).after (hp hG), h.every hG⟩

variable (h : Traced G p pieces fact c)
include h

theorem before (hc : c.here.Hop G c'.here) : Traced G p pieces fact c' :=
  fun hG => ⟨(h.row hG).before (hc hG), h.every hG⟩

theorem append (h' : Traced G c.here more also c') : Traced G p (pieces ++ more) (fact ∧ also) c' :=
  fun hG => ⟨(h.row hG).append (h'.row hG), h.every hG, h'.every hG⟩

theorem weaken (hfact : fact → also) : Traced G p pieces also c := fun hG => ⟨h.row hG, hfact (h.every hG)⟩

end Traced

/-! ### Nodes -/

/-- The nodes of an expression have a property, its parts begin where `At` says, and it is well formed. -/
abbrev ProperExpr (P : Node → Prop) (At : Location → Prop) (e : Expr) : Prop :=
  e.Every P ∧ e.Anchored At ∧ e.WellFormed

abbrev ProperList (P : Node → Prop) (At : Location → Prop) (es : List Expr) : Prop :=
  Expr.EveryList P es ∧ Expr.AnchoredList At es ∧ Expr.WellFormedList es

abbrev ProperType (P : Node → Prop) (At : Location → Prop) (t : TypeExpr) : Prop :=
  t.Every P ∧ t.Anchored At ∧ t.Plain

/-- A type, or the dots that stand for further parameters. -/
abbrev ProperParam (P : Node → Prop) (At : Location → Prop) (t : TypeExpr) : Prop :=
  t.Every P ∧ t.Anchored At ∧ t.WellFormed

abbrev ProperParams (P : Node → Prop) (At : Location → Prop) (ts : List TypeExpr) : Prop :=
  TypeExpr.EveryList P ts ∧ TypeExpr.AnchoredList At ts ∧ TypeExpr.WellFormedList ts

/-- The expression is read from the waypoint up to the cursor. -/
abbrev ExprFrom (G : Prop) (P : Node → Prop) (At : Location → Prop) (p : Waypoint) (e : Expr) (c : Cursor) :
    Prop := Traced G p [e.piece] (ProperExpr P At e) c

abbrev TypeFrom (G : Prop) (P : Node → Prop) (At : Location → Prop) (p : Waypoint) (t : TypeExpr)
    (c : Cursor) : Prop := Traced G p [t.piece] (ProperType P At t) c

section

variable [Node.Textual P] {c : Cursor} {build : ExprMark → Expr} {pieces : List Piece} {p : Waypoint}

/-- A node is numbered behind its parts, in a span that holds them. -/
theorem numbered_within {start stop : Location} {every : Prop} (hrow : Row p pieces c.here)
    (hstart : p.place.UpTo start)
    (hchain : Chain start (pieces.map Piece.span) stop) (hstop : stop.UpTo c.lastEnd)
    (hids : (pieces.flatMap Piece.ids ++ [c.nextId]).Perm ids)
    (hevery : P ⟨c.nextId, ⟨start, stop⟩, pieces⟩ → every) :
    Row p [⟨⟨start, stop⟩, ids⟩] { c with nextId := c.nextId + 1 }.here ∧ every := by
  obtain ⟨hnested, htops, hwhole⟩ := hrow.within hstart hchain hstop
  exact ⟨hwhole.reorder hids, hevery (Node.Textual.holds _ hnested htops)⟩

/-- What has a span but no number takes all of its row. -/
theorem unnumbered {every also : Prop} (h : Traced G p pieces every c) (hids : ids = pieces.flatMap Piece.ids)
    (hevery : G → every → P ⟨none, ⟨p.place, c.lastEnd⟩, pieces⟩ → also) :
    Traced G p [⟨⟨p.place, c.lastEnd⟩, ids⟩] also c := by
  intro hG
  obtain ⟨hnested, htops, hwhole⟩ := (h.row hG).bare
  rw [hids]
  exact ⟨hwhole, hevery hG (h.every hG) (Node.Textual.holds _ hnested htops)⟩

/-- An expression is completed behind its parts. -/
theorem finish_within {start : Location} {every : Prop} (hc : c.Fit G At) (h : Traced G p pieces every c)
    (hstart : G → At start ∧ p.place.UpTo start ∧ Chain start (pieces.map Piece.span) c.lastEnd)
    (hspan : ∀ m, (build m).span = m.span)
    (hids : ∀ m, (build m).ids = pieces.flatMap Piece.ids ++ [m.id])
    (hproper : G → every → ∀ m : ExprMark, P ⟨m.id, m.span, pieces⟩ → At m.span.start → m.type = none →
      ProperExpr P At (build m)) :
    Leads G At c 0 (finish start build) (ExprFrom G P At p) := by
  unfold finish
  refine .markFrom start (.pure (hc.numbered _) fun hG => ?_)
  obtain ⟨hat, hstart, hchain⟩ := hstart hG
  rw [Expr.piece, hspan, hids]
  exact numbered_within (h.row hG) hstart hchain (.refl _) (.refl _) fun hm => hproper hG (h.every hG) _ hm hat rfl

/-- An expression that takes all of its row. -/
theorem finish_row {every : Prop} (hc : c.Fit G At) (hplace : G → At p.place) (h : Traced G p pieces every c)
    (hspan : ∀ m, (build m).span = m.span)
    (hids : ∀ m, (build m).ids = pieces.flatMap Piece.ids ++ [m.id])
    (hproper : G → every → ∀ m : ExprMark, P ⟨m.id, m.span, pieces⟩ → At m.span.start → m.type = none →
      ProperExpr P At (build m)) :
    Leads G At c 0 (finish p.place build) (ExprFrom G P At p) :=
  finish_within hc h (fun hG => ⟨hplace hG, .refl _, (h.row hG).chain⟩) hspan hids hproper

/-- An expression that starts with its first part. -/
theorem finish_behind {object : Expr} {every : Prop} (hc : c.Fit G At)
    (h : Traced G p (object.piece :: pieces) (ProperExpr P At object ∧ every) c)
    (hspan : ∀ m, (build m).span = m.span)
    (hids : ∀ m, (build m).ids = (object.piece :: pieces).flatMap Piece.ids ++ [m.id])
    (hproper : G → ProperExpr P At object → every → ∀ m : ExprMark,
      P ⟨m.id, m.span, object.piece :: pieces⟩ → At m.span.start → m.type = none →
      ProperExpr P At (build m)) :
    Leads G At c 0 (finish object.start build) (ExprFrom G P At p) :=
  finish_within hc h (fun hG => ⟨(h.every hG).1.2.1.start, (h.row hG).chain_first⟩) hspan hids
    fun hG hevery => hproper hG hevery.1 hevery.2

end

/-! ### Expressions and types -/

variable [Node.Textual P]

namespace Leading

mutual

/-- What the readers of expressions and types read with fuel that suffices. A reader that calls another
before it has taken a token needs more. -/
theorem tighter {fuel : Nat} {c : Cursor} (level : Nat) (hc : c.Fit G At) (h : 4 * c.left + 3 ≤ fuel) :
    Leads G At c 1 (Parse.tighter fuel level) (ExprFrom G P At c.ahead) := by
  match fuel with
  | 0 => omega
  | fuel + 1 =>
  rw [Parse.tighter]
  exact (operand hc (by omega)).bind fun left c1 hc1 _ hleft => goOn level hc1 (by omega) hleft

theorem expressions {fuel : Nat} {c : Cursor} (closing : Symbol) (hc : c.Fit G At) (h : 4 * c.left + 4 ≤ fuel) :
    Leads G At c 0 (Parse.expressions fuel closing) fun es c' =>
      Traced G c.here (es.map Expr.piece) (ProperList P At es) c' := by
  match fuel with
  | 0 => omega
  | fuel + 1 =>
  rw [Parse.expressions]
  refine .next _ ?_
  split
  · exact .pure hc (.nil (.refl _) ⟨trivial, trivial, trivial⟩)
  · refine (tighter 0 hc (by omega)).bind fun first c1 hc1 _ hfirst => ?_
    have hhead := hfirst.after hc.ahead
    refine .accept hc1 rfl (fun c2 hc2 _ hcomma => ?_) (.pure hc1 (hhead.weaken fun h =>
      ⟨⟨h.1, trivial⟩, ⟨h.2.1, trivial⟩, h.2.2, trivial⟩))
    refine (expressions closing hc2 (by omega)).bind fun more c3 hc3 _ hmore => .pure hc3 ?_
    exact (hhead.append (hmore.after (hc1.ahead.trans hcomma))).weaken fun h =>
      ⟨⟨h.1.1, h.2.1⟩, ⟨h.1.2.1, h.2.2.1⟩, h.1.2.2, h.2.2.2⟩

theorem plainType {fuel : Nat} {c : Cursor} (hc : c.Fit G At) (h : 4 * c.left + 3 ≤ fuel) :
    Leads G At c 1 (Parse.plainType fuel) (TypeFrom G P At c.ahead) := by
  match fuel with
  | 0 => omega
  | fuel + 1 =>
  rw [Parse.plainType]
  refine (typeOrVararg hc (by omega)).bind fun type c1 hc1 _ htype => ?_
  split
  · exact .fail fun hG => (htype.every hG).2.1.start
  · rename_i hplain
    exact .pure hc1 (htype.weaken fun h => ⟨h.1, h.2.1, by simpa using hplain, h.2.2⟩)

theorem typeList {fuel : Nat} {c : Cursor} (hc : c.Fit G At) (h : 4 * c.left + 3 ≤ fuel) :
    Leads G At c 1 (Parse.typeList fuel) fun ts c' =>
      Traced G c.ahead (ts.map TypeExpr.piece) (ProperParams P At ts) c' := by
  match fuel with
  | 0 => omega
  | fuel + 1 =>
  rw [Parse.typeList]
  refine (typeOrVararg hc (by omega)).bind fun first c1 hc1 _ hfirst => ?_
  refine .accept hc1 rfl (fun c2 hc2 _ hcomma => ?_) (.pure hc1 (hfirst.weaken fun h =>
    ⟨⟨h.1, trivial⟩, ⟨h.2.1, trivial⟩, h.2.2, trivial⟩))
  refine (typeList hc2 (by omega)).bind fun more c3 hc3 _ hmore => .pure hc3 ?_
  exact (hfirst.append (hmore.after (hc1.ahead.trans (hcomma.trans hc2.ahead)))).weaken fun h =>
    ⟨⟨h.1.1, h.2.1⟩, ⟨h.1.2.1, h.2.2.1⟩, h.1.2.2, h.2.2.2⟩

theorem goOn {fuel : Nat} {c : Cursor} {p : Waypoint} (level : Nat) {left : Expr} (hc : c.Fit G At)
    (h : 4 * c.left + 2 ≤ fuel) (hleft : ExprFrom G P At p left c) :
    Leads G At c 0 (Parse.goOn fuel level left) (ExprFrom G P At p) := by
  match fuel with
  | 0 => omega
  | fuel + 1 =>
  rw [Parse.goOn]
  refine .peekKind ?_
  split
  · rename_i hfollows
    have hsolid : c.front.kind.isSolid := by
      generalize c.front.kind = kind at hfollows
      cases kind <;> first | rfl | cases hfollows
    split
    · exact .pure hc hleft
    · exact (suffix hc (by omega) hsolid hleft).bind fun whole c1 hc1 _ hwhole =>
        goOn level hc1 (by omega) hwhole
  · split
    · exact .pure hc hleft
    · rename_i op hop
      have hsolid : c.front.kind.isSolid := by
        generalize c.front.kind = kind at hop
        cases kind <;> first | rfl | cases hop
      split
      · exact .pure hc hleft
      · refine .take hc hsolid fun c1 hc1 _ hsign => ?_
        refine (tighter _ hc1 (by omega)).bind fun right c2 hc2 _ hright => .fresh ?_
        have hboth := hleft.append (hright.after (hc.ahead.trans (hsign.trans hc1.ahead)))
        refine goOn level (hc2.numbered _) (show 4 * c2.left + 2 ≤ fuel by omega) fun hG => ?_
        -- The span ends with the right operand, which may stand in parentheses.
        obtain ⟨⟨hstart, hchain⟩, hl, hr⟩ := And.intro (hboth.row hG).chain_first (hboth.every hG)
        have hextend : left.span.extend right.span = ⟨left.span.start, right.span.stop⟩ :=
          Span.extend_eq hchain.2.1 hchain.2.2.1 hchain.2.2.2.1
        have hbegin := Span.extend_start hl.2.1.start hr.2.1.start
        rw [Expr.piece, Expr.span, Expr.mark, hextend]
        rw [hextend] at hbegin
        refine numbered_within (hboth.row hG) hstart ?_ hchain.2.2.2.2 (.of_eq ?_)
          fun hm => ⟨⟨hm, hl.1, hr.1⟩, ⟨hbegin, hl.2.1, hr.2.1⟩, rfl, hl.2.2, hr.2.2⟩
        · exact ⟨hchain.1, hchain.2.1, hchain.2.2.1, hchain.2.2.2.1, .refl _⟩
        · simp [Expr.ids, Expr.piece]

theorem operand {fuel : Nat} {c : Cursor} (hc : c.Fit G At) (h : 4 * c.left + 2 ≤ fuel) :
    Leads G At c 1 (Parse.operand fuel) (ExprFrom G P At c.ahead) := by
  match fuel with
  | 0 => omega
  | fuel + 1 =>
  rw [Parse.operand]
  refine .peek ?_
  split
  · rename_i hless
    refine .take hc (by rw [hless]; rfl) fun c1 hc1 _ hopening => ?_
    refine (plainType hc1 (by omega)).bind fun target c2 hc2 _ htarget => ?_
    refine .expect hc2 rfl fun c3 hc3 _ hclosing => ?_
    refine (tighter _ hc3 (by omega)).bind fun value c4 hc4 _ hvalue => ?_
    refine finish_row hc4 hc.place ((htarget.after (hopening.trans hc1.ahead)).append
      (hvalue.after (hc2.ahead.trans (hclosing.trans hc3.ahead)))) (fun _ => rfl)
      (fun m => by simp [Expr.ids, Expr.piece, TypeExpr.piece]) ?_
    rintro _ ⟨⟨ht, ht', hplain⟩, hv, hv', hv''⟩ m hm hat hnone
    exact ⟨⟨hm, ht, hv⟩, ⟨hat, ht', hv'⟩, hnone, hplain.noVararg, hplain.wellFormed, hv''⟩
  · split
    · rename_i op hop
      have hsolid : c.front.kind.isSolid := by
        generalize c.front.kind = kind at hop
        cases kind <;> first | rfl | cases hop
      refine .take hc hsolid fun c1 hc1 _ hsign => ?_
      refine (tighter _ hc1 (by omega)).bind fun value c2 hc2 _ hvalue => ?_
      exact finish_row hc2 hc.place (hvalue.after (hsign.trans hc1.ahead)) (fun _ => rfl)
        (fun m => by simp [Expr.ids, Expr.piece])
        fun _ h m hm hat hnone => ⟨⟨hm, h.1⟩, ⟨hat, h.2.1⟩, hnone, h.2.2⟩
    · exact primary hc (by omega)

theorem primary {fuel : Nat} {c : Cursor} (hc : c.Fit G At) (h : 4 * c.left + 1 ≤ fuel) :
    Leads G At c 1 (Parse.primary fuel) (ExprFrom G P At c.ahead) := by
  match fuel with
  | 0 => omega
  | fuel + 1 =>
  rw [primary_step]
  refine .advance hc fun c1 hc1 hleft hmoves => ?_
  have htaken := hmoves.ahead
  have hgenuine (hG : G) : c.front.kind.Genuine := (hc hG).1.sound.front c.shows_front
  have hplace : c.front.start = c.ahead.place := rfl
  have hbad {k : Nat} {post : Expr → Cursor → Prop} :
      Leads G At c1 k (unexpected .expression c.front) post := .unexpected hc.place
  rw [hplace]
  generalize c.front.kind = kind at htaken hleft hgenuine ⊢
  cases kind with
  | int | float | char | identifier =>
    exact finish_row hc1 hc.place (.nil (htaken rfl) trivial) (fun _ => rfl) (fun _ => rfl)
      fun hG _ _ hm hat hnone => ⟨hm, hat, hnone, hgenuine hG⟩
  | string =>
    exact finish_row hc1 hc.place (.nil (htaken rfl) trivial) (fun _ => rfl) (fun _ => rfl)
      fun _ _ _ hm hat hnone => ⟨hm, hat, hnone⟩
  | keyword word =>
    change _ + 1 ≤ _ at hleft
    cases word with
    | null_ =>
      exact finish_row hc1 hc.place (.nil (htaken rfl) trivial) (fun _ => rfl) (fun _ => rfl)
        fun _ _ _ hm hat hnone => ⟨hm, hat, hnone⟩
    | sizeof_ =>
      refine .expect hc1 rfl fun c2 hc2 _ hopening => ?_
      refine (plainType hc2 (by omega)).bind fun target c3 hc3 _ htarget => ?_
      refine .expect hc3 rfl fun c4 hc4 _ hclosing => ?_
      have hinside := htarget.after ((htaken rfl).trans (hc1.ahead.trans (hopening.trans hc2.ahead)))
      exact finish_row hc4 hc.place (hinside.before (hc3.ahead.trans hclosing)) (fun _ => rfl)
        (fun m => by simp [Expr.ids, TypeExpr.piece]) fun _ h m hm hat hnone =>
          ⟨⟨hm, h.1⟩, ⟨hat, h.2.1⟩, hnone, h.2.2.noVararg, h.2.2.wellFormed⟩
    | _ => exact hbad
  | symbol sign =>
    change _ + 1 ≤ _ at hleft
    cases sign with
    | leftParen =>
      refine (tighter 0 hc1 (by omega)).bind fun inner c2 hc2 _ hinner => ?_
      refine .expect hc2 rfl fun c3 hc3 _ hclosing => .pure hc3 ?_
      exact (hinner.after ((htaken rfl).trans hc1.ahead)).before (hc2.ahead.trans hclosing)
    | leftBracket =>
      refine (expressions _ hc1 (by omega)).bind fun items c2 hc2 _ hitems => ?_
      refine .expect hc2 rfl fun c3 hc3 _ hclosing => ?_
      exact finish_row hc3 hc.place ((hitems.after (htaken rfl)).before (hc2.ahead.trans hclosing))
        (fun _ => rfl) (fun m => by rw [Expr.ids, Expr.idsList_eq])
        fun _ h m hm hat hnone => ⟨⟨hm, h.1⟩, ⟨hat, h.2.1⟩, hnone, h.2.2⟩
    | _ => exact hbad
  | _ => exact hbad

theorem suffix {fuel : Nat} {c : Cursor} {p : Waypoint} {object : Expr} (hc : c.Fit G At) (h : 4 * c.left + 1 ≤ fuel)
    (hsolid : c.front.kind.isSolid) (hobject : ExprFrom G P At p object c) :
    Leads G At c 1 (Parse.suffix fuel object) (ExprFrom G P At p) := by
  match fuel with
  | 0 => omega
  | fuel + 1 =>
  rw [Parse.suffix]
  refine .take hc hsolid fun c1 hc1 _ hsign => ?_
  have halone := hobject.before (hc.ahead.trans hsign)
  have hstep (m : ExprMark) (op : UnaryOp) :
      (Expr.unary m op object).ids = [object.piece].flatMap Piece.ids ++ [m.id] := by
    simp [Expr.ids, Expr.piece]
  split
  · exact finish_behind hc1 (halone.weaken fun h => ⟨h, trivial⟩) (fun _ => rfl) (fun m => hstep m _)
      fun _ h _ m hm hat hnone => ⟨⟨hm, h.1⟩, ⟨hat, h.2.1⟩, hnone, h.2.2⟩
  · exact finish_behind hc1 (halone.weaken fun h => ⟨h, trivial⟩) (fun _ => rfl) (fun m => hstep m _)
      fun _ h _ m hm hat hnone => ⟨⟨hm, h.1⟩, ⟨hat, h.2.1⟩, hnone, h.2.2⟩
  · refine (expressions _ hc1 (by omega)).bind fun arguments c2 hc2 _ harguments => ?_
    refine .expect hc2 rfl fun c3 hc3 _ hclosing => ?_
    exact finish_behind hc3 ((halone.append harguments).before (hc2.ahead.trans hclosing)) (fun _ => rfl)
      (fun m => by simp [Expr.ids, Expr.idsList_eq, Expr.piece]) fun _ h h' m hm hat hnone =>
        ⟨⟨hm, h.1, h'.1⟩, ⟨hat, h.2.1, h'.2.1⟩, hnone, h.2.2, h'.2.2⟩
  · refine (tighter 0 hc1 (by omega)).bind fun position c2 hc2 _ hposition => ?_
    refine .expect hc2 rfl fun c3 hc3 _ hclosing => ?_
    exact finish_behind hc3 ((halone.append (hposition.after hc1.ahead)).before (hc2.ahead.trans hclosing))
      (fun _ => rfl) (fun m => by simp [Expr.ids, Expr.piece]) fun _ h h' m hm hat hnone =>
        ⟨⟨hm, h.1, h'.1⟩, ⟨hat, h.2.1, h'.2.1⟩, hnone, h.2.2, h'.2.2⟩
  all_goals first
    | exact .unexpected hc.place
    | refine .expectName hc1 fun name c2 hc2 _ hname hpass => ?_
      exact finish_behind hc2 ((halone.before (hc1.ahead.trans hpass)).weaken fun h => ⟨h, trivial⟩)
        (fun _ => rfl) (fun m => by simp [Expr.ids, Expr.piece]) fun hG h _ m hm hat hnone =>
          ⟨⟨hm, h.1⟩, ⟨hat, h.2.1⟩, hnone, h.2.2, hname hG⟩

theorem typeOrVararg {fuel : Nat} {c : Cursor} (hc : c.Fit G At) (h : 4 * c.left + 2 ≤ fuel) :
    Leads G At c 1 (Parse.typeOrVararg fuel) fun t c' =>
      Traced G c.ahead [t.piece] (ProperParam P At t) c' := by
  match fuel with
  | 0 => omega
  | fuel + 1 =>
  rw [Parse.typeOrVararg]
  refine .peek (.accept hc rfl (fun c1 hc1 _ hdots => ?_) ?_)
  · exact .spanFrom _ (.pure hc1 (unnumbered (P := P) (.nil hdots trivial) rfl
      fun hG _ h => ⟨h, hc.place hG, trivial⟩))
  · refine (typeBase hc (by omega)).bind fun base c1 hc1 _ hbase => ?_
    exact (typeSuffixes hc1 (by omega) hc.place hbase).weaken (Nat.le_refl _) fun _ _ h =>
      h.weaken fun h => ⟨h.1, h.2.1, h.2.2.wellFormed⟩

theorem typeSuffixes {fuel : Nat} {c : Cursor} {p : Waypoint} {type : TypeExpr} (hc : c.Fit G At)
    (h : 4 * c.left + 1 ≤ fuel) (hplace : G → At p.place) (htype : TypeFrom G P At p type c) :
    Leads G At c 0 (Parse.typeSuffixes fuel p.place type) (TypeFrom G P At p) := by
  match fuel with
  | 0 => omega
  | fuel + 1 =>
  rw [Parse.typeSuffixes]
  refine .accept hc rfl (fun c1 hc1 _ hopening => ?_) (.pure hc htype)
  refine .accept hc1 rfl (fun c2 hc2 _ hclosing => .spanFrom _ ?_) ?_
  · refine typeSuffixes hc2 (by omega) hplace (unnumbered
      (htype.before (hc.ahead.trans (hopening.trans (hc1.ahead.trans hclosing)))) ?_ fun hG h hm =>
        ⟨⟨hm, h.1⟩, ⟨hplace hG, h.2.1⟩, rfl, h.2.2.noVararg, h.2.2.wellFormed⟩)
    simp [TypeExpr.ids, TypeExpr.piece]
  · refine (tighter 0 hc1 (by omega)).bind fun size c2 hc2 _ hsize => ?_
    refine .expect hc2 rfl fun c3 hc3 _ hclosing => .spanFrom _ ?_
    have hboth := htype.append (hsize.after (hc.ahead.trans (hopening.trans hc1.ahead)))
    refine typeSuffixes hc3 (by omega) hplace (unnumbered (P := P) (hboth.before (hc2.ahead.trans hclosing)) ?_ ?_)
    · simp [TypeExpr.ids, TypeExpr.piece, Expr.piece]
    · rintro hG ⟨⟨ht, ht', hplain⟩, hs, hs', hs''⟩ hm
      exact ⟨⟨hm, ht, hs⟩, ⟨hplace hG, ht', hs'⟩, rfl, hplain.noVararg, hplain.wellFormed, hs''⟩

theorem typeBase {fuel : Nat} {c : Cursor} (hc : c.Fit G At) (h : 4 * c.left + 1 ≤ fuel) :
    Leads G At c 1 (Parse.typeBase fuel) (TypeFrom G P At c.ahead) := by
  match fuel with
  | 0 => omega
  | fuel + 1 =>
  rw [Parse.typeBase]
  refine .advance hc fun c1 hc1 hleft hmoves => ?_
  have hgenuine (hG : G) : c.front.kind.Genuine := (hc hG).1.sound.front c.shows_front
  split
  · rename_i name hkind
    have hsolid : c.front.kind.isSolid := by rw [hkind]; rfl
    rw [hkind] at hgenuine ⊢
    rw [← hmoves.span hsolid]
    exact .pure hc1 (unnumbered (P := P) (.nil (hmoves.ahead hsolid) trivial) rfl
      fun hG _ hm => ⟨hm, hc.place hG, rfl, hgenuine hG⟩)
  · rename_i hkind
    have hopening := hmoves.ahead (by rw [hkind]; rfl)
    rw [hkind] at hleft ⊢
    change _ + 1 ≤ _ at hleft
    refine (plainType hc1 (by omega)).bind fun inner c2 hc2 _ hinner => ?_
    refine .expect hc2 rfl fun c3 hc3 _ hclosing => .pure hc3 ?_
    exact (hinner.after (hopening.trans hc1.ahead)).before (hc2.ahead.trans hclosing)
  · rename_i hkind
    have hopening := hmoves.ahead (by rw [hkind]; rfl)
    rw [hkind] at hleft ⊢
    change _ + 1 ≤ _ at hleft
    have hrest (params : List TypeExpr) (c2 : Cursor) (hc2 : c2.Fit G At) (_ : c2.left ≤ c1.left)
        (hparams : Traced G c1.here (params.map TypeExpr.piece) (ProperParams P At params) c2) :
        Leads G At c2 0 (do
          expectSymbol .rightParen "callable type"
          expectSymbol .arrow "callable type"
          let returns ← Parse.plainType fuel
          return TypeExpr.function (← spanFrom c.front.start) params returns) (TypeFrom G P At c.ahead) := by
      refine .expect hc2 rfl fun c3 hc3 _ hclosing => .expect hc3 rfl fun c4 hc4 _ harrow => ?_
      refine (plainType hc4 (by omega)).bind fun returns c5 hc5 _ hreturns => .spanFrom _ (.pure hc5 ?_)
      have hbetween := hc2.ahead.trans (hclosing.trans (hc3.ahead.trans (harrow.trans hc4.ahead)))
      refine unnumbered (P := P) ((hparams.after hopening).append (hreturns.after hbetween)) ?_ ?_
      · simp [TypeExpr.ids, TypeExpr.idsList_eq, TypeExpr.piece]
      · rintro hG ⟨⟨hp, hp', hp''⟩, hr, hr', hplain⟩ hm
        exact ⟨⟨hm, hp, hr⟩, ⟨hc.place hG, hp', hr'⟩, rfl, hp'', hplain.noVararg, hplain.wellFormed⟩
    refine .next _ ?_
    split
    · exact hrest [] c1 hc1 (Nat.le_refl _) (.nil (.refl _) ⟨trivial, trivial, trivial⟩)
    · exact (typeList hc1 (by omega)).bind fun params c2 hc2 _ hparams =>
        hrest params c2 hc2 (by omega) (hparams.after hc1.ahead)
  · exact .unexpected hc.place

end

end Leading

variable (P)

theorem expression_leads {c : Cursor} (hc : c.Fit G At) : Leads G At c 1 expression (ExprFrom G P At c.ahead) :=
  .ofCursor fun _ => Leading.tighter 0 hc (by omega)

theorem type_leads {c : Cursor} (hc : c.Fit G At) : Leads G At c 1 type (TypeFrom G P At c.ahead) :=
  .ofCursor fun _ => Leading.plainType hc (by omega)

end Parse

end Offside
