import Mathlib.Data.List.Perm.Basic
import Mathlib.Data.List.Range
import Offside.Grammar.Statement
import Offside.Proofs.Grammar.Cursor
import Offside.Proofs.Grammar.WellFormed
import Offside.Proofs.Token.Coverage
import Offside.Proofs.Tree.Nodes

/-! What stands one behind the other is read so.

Reading goes forward in the text and counts up, so what it reads comes in a row: the pieces lie one behind
the other, and the numbers in them are those that were counted on the way (`Row`). A node that is completed
behind a row holds the row and tops its numbers (`Row.within`). The tokens of a text come in order
(`Cursor.Ordered`), and a step of a cursor goes forward in it (`Cursor.Steps`). -/
namespace Offside

open List

variable {c' : Cursor} {ids : List Nat} {t : Token} {kind : TokenKind}

/-! ### Rows -/

/-- The spans lie one behind the other between two places. -/
def Chain : Location → List Span → Location → Prop
  | l, [], r => l.UpTo r
  | l, s :: rest, r => l.UpTo s.start ∧ s.start.UpTo s.stop ∧ Chain s.stop rest r

namespace Chain

variable {l l' m r r' : Location} {spans more : List Span}

theorem upTo (h : Chain l spans r) : l.UpTo r := by
  induction spans generalizing l with
  | nil => exact h
  | cons s rest ih => exact h.1.trans (h.2.1.trans (ih h.2.2))

theorem left (hl : l'.UpTo l) (h : Chain l spans r) : Chain l' spans r := by
  cases spans with
  | nil => exact hl.trans h
  | cons s rest => exact ⟨hl.trans h.1, h.2⟩

theorem append (h : Chain l spans m) (h' : Chain m more r) : Chain l (spans ++ more) r := by
  induction spans generalizing l with
  | nil => exact h'.left h
  | cons s rest ih => exact ⟨h.1, h.2.1, ih h.2.2⟩

section

variable (h : Chain l spans r)
include h

theorem right (hr : r.UpTo r') : Chain l spans r' := by
  have happend : Chain l (spans ++ []) r' := h.append hr
  rwa [append_nil] at happend

theorem inside : ∀ s ∈ spans, l.UpTo s.start ∧ s.stop.UpTo r := by
  induction spans generalizing l with
  | nil => exact forall_mem_nil _
  | cons s rest ih =>
    refine forall_mem_cons.mpr ⟨⟨h.1, h.2.2.upTo⟩, fun other hother => ?_⟩
    obtain ⟨hstart, hstop⟩ := ih h.2.2 other hother
    exact ⟨h.1.trans (h.2.1.trans hstart), hstop⟩

theorem apart : spans.Pairwise fun s other => s.stop.UpTo other.start := by
  induction spans generalizing l with
  | nil => exact .nil
  | cons s rest ih =>
    exact pairwise_cons.mpr ⟨fun other hother => (h.2.2.inside other hother).1, ih h.2.2⟩

theorem holds : (Span.mk l r).Holds spans := ⟨h.upTo, h.inside, h.apart⟩

end

theorem points (h : ∀ s ∈ spans, s = Span.point l) : Chain l spans l := by
  induction spans with
  | nil => exact .refl l
  | cons s rest ih =>
    obtain ⟨rfl, hrest⟩ := forall_mem_cons.mp h
    exact ⟨.refl l, .refl l, ih hrest⟩

end Chain

/-- The numbers are those from `lo` up to `hi`, each of them once. -/
structure Numbers (lo : Nat) (ids : List Nat) (hi : Nat) : Prop where
  le : lo ≤ hi
  perm : ids.Perm (List.range' lo (hi - lo))

namespace Numbers

variable {lo mid hi : Nat} {ids more : List Nat}

theorem nil (n : Nat) : Numbers n [] n := ⟨Nat.le_refl n, by rw [Nat.sub_self]; exact .nil⟩

theorem append (h : Numbers lo ids mid) (h' : Numbers mid more hi) : Numbers lo (ids ++ more) hi := by
  refine ⟨h.le.trans h'.le, ?_⟩
  have hsplit : range' lo (hi - lo) = range' lo (mid - lo) ++ range' mid (hi - mid) := by
    have hle := h.le
    have hle' := h'.le
    rw [show hi - lo = (mid - lo) + (hi - mid) by omega, ← range'_append_1, show lo + (mid - lo) = mid by omega]
  rw [hsplit]
  exact h.perm.append h'.perm

theorem snoc (h : Numbers lo ids hi) : Numbers lo (ids ++ [hi]) (hi + 1) := by
  refine h.append ⟨Nat.le_succ hi, ?_⟩
  rw [Nat.add_sub_cancel_left]
  exact .refl _

theorem lt (h : Numbers lo ids hi) {i : Nat} (hi' : i ∈ ids) : i < hi := by
  have hmem := mem_range'_1.mp (h.perm.mem_iff.mp hi')
  have hle := h.le
  omega

end Numbers

/-- How far reading has come: where the last token ended, and the next number. -/
structure Waypoint where
  place : Location
  next : Nat

/-- From one waypoint to another there are tokens and no nodes. -/
structure Waypoint.Passes (p q : Waypoint) : Prop where
  place : p.place.UpTo q.place
  next : p.next = q.next

theorem Waypoint.Passes.refl (p : Waypoint) : p.Passes p := ⟨.refl _, rfl⟩

theorem Waypoint.Passes.trans {p q r : Waypoint} (h : p.Passes q) (h' : q.Passes r) : p.Passes r :=
  ⟨h.place.trans h'.place, h.next.trans h'.next⟩

/-- From one waypoint to another these pieces are read. -/
structure Row (p : Waypoint) (pieces : List Piece) (q : Waypoint) : Prop where
  chain : Chain p.place (pieces.map Piece.span) q.place
  numbers : Numbers p.next (pieces.flatMap Piece.ids) q.next

namespace Row

variable {p q r : Waypoint} {pieces more : List Piece} {start stop : Location}

theorem nil (h : p.Passes q) : Row p [] q := ⟨h.place, h.next ▸ .nil _⟩

theorem append (h : Row p pieces q) (h' : Row q more r) : Row p (pieces ++ more) r := by
  refine ⟨?_, ?_⟩
  · rw [map_append]
    exact h.chain.append h'.chain
  · rw [flatMap_append]
    exact h.numbers.append h'.numbers

theorem after (hp : p.Passes q) (h : Row q pieces r) : Row p pieces r :=
  ⟨h.chain.left hp.place, by rw [hp.next]; exact h.numbers⟩

theorem before (h : Row p pieces q) (hq : q.Passes r) : Row p pieces r :=
  ⟨h.chain.right hq.place, by rw [← hq.next]; exact h.numbers⟩

theorem reorder {span : Span} {ids' : List Nat} (h : Row p [⟨span, ids⟩] q) (hids : ids.Perm ids') :
    Row p [⟨span, ids'⟩] q := by
  refine ⟨h.chain, h.numbers.le, ?_⟩
  have hperm := h.numbers.perm
  simp only [flatMap_cons, flatMap_nil, append_nil] at hperm ⊢
  exact hids.symm.trans hperm

/-- A node without a number around a row. -/
theorem bare (h : Row p pieces q) :
    Node.Nested ⟨none, ⟨p.place, q.place⟩, pieces⟩ ∧ Node.Tops ⟨none, ⟨p.place, q.place⟩, pieces⟩ ∧
      Row p [⟨⟨p.place, q.place⟩, pieces.flatMap Piece.ids⟩] q := by
  refine ⟨h.chain.holds, ?_, ⟨.refl _, h.chain.upTo, .refl _⟩, ?_⟩
  · intro part _ i _ id hid
    exact absurd hid (Option.not_mem_none id)
  · rw [flatMap_cons, flatMap_nil, append_nil]
    exact h.numbers

/-- A node that is numbered behind a row, and whose span holds it. -/
theorem within (h : Row p pieces q) (hstart : p.place.UpTo start)
    (hchain : Chain start (pieces.map Piece.span) stop) (hstop : stop.UpTo q.place) :
    Node.Nested ⟨q.next, ⟨start, stop⟩, pieces⟩ ∧ Node.Tops ⟨q.next, ⟨start, stop⟩, pieces⟩ ∧
      Row p [⟨⟨start, stop⟩, pieces.flatMap Piece.ids ++ [q.next]⟩] ⟨q.place, q.next + 1⟩ := by
  refine ⟨hchain.holds, ?_, ⟨hstart, hchain.upTo, hstop⟩, ?_⟩
  · rintro part hpart i hi _ ⟨⟩
    exact h.numbers.lt (mem_flatMap.mpr ⟨part, hpart, hi⟩)
  · rw [flatMap_cons, flatMap_nil, append_nil]
    exact h.numbers.snoc

/-- The span of a node may start with its first part, wherever the row starts. -/
theorem chain_first {first : Piece} (h : Row p (first :: more) q) :
    p.place.UpTo first.span.start ∧ Chain first.span.start ((first :: more).map Piece.span) q.place :=
  ⟨h.chain.1, .refl _, h.chain.2⟩

end Row

/-- A span is extended to the end of one behind it. -/
theorem Span.extend_eq {s t : Span} (hs : s.start.UpTo s.stop) (hbehind : s.stop.UpTo t.start)
    (ht : t.start.UpTo t.stop) : s.extend t = ⟨s.start, t.stop⟩ := by
  have hstart := hs.trans hbehind
  unfold extend
  rw [if_pos hstart.file, if_pos (show s.start.precedes t.start from hstart.order)]
  split
  · rename_i hback
    have hstop : s.stop = t.stop := (hbehind.trans ht).antisymm ⟨(hbehind.trans ht).file.symm, hback⟩
    rw [hstop]
  · rfl

/-! ### Tokens of a text -/

theorem Position.precedes_afterAll (p : Position) (text : List Char) : p.precedes (p.afterAll text) := by
  induction text generalizing p with
  | nil => exact p.precedes_refl
  | cons c rest ih =>
    have hfirst : Location.UpTo ⟨"", p⟩ ⟨"", p.after c⟩ := ⟨rfl, p.precedes_after c⟩
    have hrest : Location.UpTo ⟨"", p.after c⟩ ⟨"", (p.after c).afterAll rest⟩ := ⟨rfl, ih (p.after c)⟩
    exact (hfirst.trans hrest).order

namespace Scanner

theorem upTo_advance (s : Scanner) (n : Nat) : s.location.UpTo (s.advance n).location :=
  ⟨rfl, s.position.precedes_afterAll _⟩

theorem location_note (s : Scanner) (kind : TokenKind) : (s.note kind).location = s.location := by
  unfold note
  split <;> rfl

/-- A token lies between the places of the scanner before and behind it. -/
theorem chain_next {s after : Scanner} (h : s.next = (.ok t, after)) : Chain s.location [t.span] after.location := by
  obtain ⟨kind, _, rfl, rfl⟩ := next_ok h
  rw [location_note]
  exact ⟨s.upTo_advance _, upTo_advance _ _, .refl _⟩

end Scanner

/-- What comes out of a step is nothing, or the token behind others that take up no text. -/
theorem Indentation.push_out (s : Indentation) (m : MarkedToken) :
    (s.push m).out = [] ∨ ∃ front : List Token, (∀ u ∈ front, u.span = Span.point m.token.start) ∧
      (s.push m).out = front ++ [m.token] := by
  have halone : ∃ front : List Token, (∀ u ∈ front, u.span = Span.point m.token.start) ∧
      [m.token] = front ++ [m.token] := ⟨[], forall_mem_nil _, rfl⟩
  have hclosing (n : Nat) : ∃ front : List Token, (∀ u ∈ front, u.span = Span.point m.token.start) ∧
      replicate n (Token.atPoint .dedent m.token.start) ++ [m.token] = front ++ [m.token] :=
    ⟨_, fun u hu => by rw [eq_of_mem_replicate hu]; rfl, rfl⟩
  unfold push
  dsimp only
  split
  · exact .inl rfl
  · dsimp only
    split
    · exact .inl rfl
    · exact .inr halone
  · split
    · split
      · exact .inl rfl
      · exact .inr ⟨[Token.atPoint .indent m.token.start], by simp [Token.atPoint], rfl⟩
    · split
      · exact .inr (hclosing _)
      · split
        · split
          · exact .inl rfl
          · split
            · split
              · exact .inr (hclosing _)
              · exact .inl rfl
            · exact .inr halone
        · exact .inr halone

theorem Layout.chain_push {layout : Layout} {l r : Location} (h : Chain l [t.span] r) :
    Chain l ((layout.push t).2.1.out.map Token.span) r := by
  rw [Layout.push_eq]
  obtain hout | ⟨front, hfront, hout⟩ := layout.indentation.push_out (layout.line.mark t).1
  · dsimp only
    rw [hout]
    exact h.upTo
  · dsimp only
    rw [LineState.mark_token] at hfront hout
    rw [hout, map_append]
    refine Chain.append (Chain.left h.1 (.points fun s hs => ?_)) ⟨.refl _, h.2.1, h.2.2⟩
    obtain ⟨u, hu, rfl⟩ := mem_map.mp hs
    exact hfront u hu

/-- The tokens of a stream lie one behind the other. -/
theorem TokenStream.chain_collect (fuel : Nat) (scanner : Scanner) (layout : Layout) :
    ∃ r, Chain scanner.location ((collect fuel scanner layout).1.map Token.span) r := by
  induction fuel generalizing scanner layout with
  | zero => exact ⟨_, .refl _⟩
  | succ fuel ih =>
    rw [collect_succ]
    cases hnext : scanner.next with
    | mk outcome after =>
    cases outcome with
    | error failure => exact ⟨_, .refl _⟩
    | ok t =>
      have hout : Chain scanner.location ((layout.push t).2.1.out.map Token.span) after.location :=
        Layout.chain_push (Scanner.chain_next hnext)
      dsimp only
      cases (layout.push t).2.1.failure with
      | some failure => exact ⟨_, .refl _⟩
      | none =>
        dsimp only
        split
        · exact ⟨_, hout⟩
        · obtain ⟨r, hrest⟩ := ih after (layout.push t).2.2
          rw [map_append]
          exact ⟨r, hout.append hrest⟩

/-! ### Cursors -/

/-- Whether a token is used up when it is taken, as all are but the end of the file. -/
def TokenKind.isSolid : TokenKind → Bool
  | .endOfFile => false
  | _ => true

theorem TokenKind.ne_endOfFile (h : kind.isSolid = true) : kind ≠ .endOfFile := by
  rintro rfl
  cases h

namespace Cursor

variable {c : Cursor}

/-- The next token, or the end of the file that stands behind the last one. -/
def front (c : Cursor) : Token := c.tokens.headD c.ending

/-- Where the cursor stands, and where the next token starts. -/
def here (c : Cursor) : Waypoint := ⟨c.lastEnd, c.nextId⟩

def ahead (c : Cursor) : Waypoint := ⟨c.front.start, c.nextId⟩

/-- The tokens lie one behind the other, from the last one taken on, and end with the end of the file. -/
structure Ordered (c : Cursor) : Prop where
  chain : ∃ r, Chain c.lastEnd (c.tokens.map Token.span) r
  closed : c.failure = none → c.tokens = [] ∨ ∃ t, c.tokens.getLast? = some t ∧ t.kind = .endOfFile

theorem ofText_ordered (file text : String) : (Cursor.ofText file text).Ordered where
  chain := TokenStream.chain_collect ((Scanner.ofText file text).rest.length + 1) (.ofText file text) {}
  closed hfailure := by
    obtain ⟨front, hfront, _⟩ := (TokenStream.ofText_disciplined file text hfailure).ended
    obtain ⟨before, last, htokens, _, hlast⟩ := map_eq_append_iff.mp hfront
    obtain ⟨t, rfl, ht⟩ := map_eq_singleton_iff.mp hlast
    refine .inr ⟨t, ?_, ht⟩
    show (TokenStream.ofText file text).tokens.getLast? = some t
    rw [htokens, getLast?_concat]

/-- What is known of the next token and of the cursor behind it. -/
structure Steps (c c' : Cursor) : Prop where
  passes : c.here.Passes c'.here
  forward : c.front.start.UpTo c.front.span.stop
  solid : c.front.kind.isSolid = true → c'.lastEnd = c.front.span.stop

theorem Steps.ahead (h : c.Steps c') (hsolid : c.front.kind.isSolid) : c.ahead.Passes c'.here := by
  refine ⟨?_, h.passes.next⟩
  show c.front.start.UpTo c'.lastEnd
  rw [h.solid hsolid]
  exact h.forward

theorem Steps.span (h : c.Steps c') (hsolid : c.front.kind.isSolid) : ⟨c.ahead.place, c'.lastEnd⟩ = c.front.span := by
  rw [h.solid hsolid]
  rfl

theorem Ordered.ahead {c : Cursor} (hc : c.Ordered) : c.here.Passes c.ahead := by
  refine ⟨?_, rfl⟩
  obtain ⟨r, hchain⟩ := hc.chain
  show c.lastEnd.UpTo (c.tokens.headD c.ending).start
  cases htokens : c.tokens with
  | nil => exact .refl _
  | cons t rest =>
    rw [htokens] at hchain
    exact hchain.1

theorem Ordered.numbered (hc : c.Ordered) (n : Nat) : { c with nextId := n }.Ordered :=
  ⟨hc.chain, hc.closed⟩

/-- Behind the next token. -/
theorem Ordered.tail {c : Cursor} (hc : c.Ordered) :
    let c' : Cursor := { c with
      tokens := c.tokens.tail
      lastEnd := if c.front.kind = .endOfFile then c.lastEnd else c.front.span.stop }
    c'.Ordered ∧ c.Steps c' := by
  obtain ⟨⟨r, hchain⟩, hclosed⟩ := hc
  have htail : c.failure = none → c.tokens.tail = [] ∨ ∃ t, c.tokens.tail.getLast? = some t ∧
      t.kind = .endOfFile := by
    intro hfailure
    cases htokens : c.tokens with
    | nil => exact .inl rfl
    | cons first rest =>
      cases rest with
      | nil => exact .inl rfl
      | cons second rest =>
        obtain hnil | ⟨t, ht, hend⟩ := hclosed hfailure
        · rw [htokens] at hnil
          cases hnil
        · rw [htokens, getLast?_cons_cons] at ht
          exact .inr ⟨t, ht, hend⟩
  cases htokens : c.tokens with
  | nil =>
    have hfront : c.front.kind = .endOfFile := by rw [Cursor.front, htokens]; rfl
    rw [htokens] at hchain
    simp only [hfront, if_true, tail_nil]
    refine ⟨⟨⟨r, hchain⟩, fun _ => .inl rfl⟩, ⟨.refl _, rfl⟩, ?_, fun hsolid => ?_⟩
    · rw [Cursor.front, htokens]
      exact .refl _
    · exact absurd hfront (TokenKind.ne_endOfFile hsolid)
  | cons first rest =>
    have hfront : c.front = first := by rw [Cursor.front, htokens]; rfl
    rw [htokens] at hchain htail
    obtain ⟨hstart, hforward, hrest⟩ := hchain
    rw [← hfront] at hstart hforward hrest
    simp only [tail_cons] at htail ⊢
    by_cases hend : c.front.kind = .endOfFile
    · simp only [hend, if_true]
      have hskip : Chain c.lastEnd (rest.map Token.span) r := hrest.left (hstart.trans hforward)
      exact ⟨⟨⟨r, hskip⟩, htail⟩, ⟨.refl _, rfl⟩, hforward,
        fun hsolid => absurd hend (TokenKind.ne_endOfFile hsolid)⟩
    · simp only [hend, if_false]
      exact ⟨⟨⟨r, hrest⟩, htail⟩, ⟨hstart.trans hforward, rfl⟩, hforward, fun _ => rfl⟩

end Cursor

end Offside
