import Offside.Proofs.Token.Layout
import Offside.Proofs.Token.Scanner
import Offside.Token.Stream

/-! The discipline of token streams.

A `Feed` hands out the tokens of a text one by one: it takes raw tokens only when nothing is pending, and
has ended once the end of the file has come out or a fault has been reported. Pulling it again and again
gives the items of the stream of the same text and nothing after them (`Feed.nth_ofText`), and
`pulls_disciplined` says what these items look like. -/
namespace Offside

open List

namespace Layout

theorem push_eq (s : Layout) (t : Token) : s.push t = ((s.line.mark t).1, s.indentation.push (s.line.mark t).1,
      ⟨(s.line.mark t).2, (s.indentation.push (s.line.mark t).1).state⟩) := rfl

end Layout

/-- One raw token through both machines. -/
theorem Laid.push {out : List TokenKind} {s : Layout} {t : Token} (h : Laid out s)
    (hraw : t.kind ≠ .indent ∧ t.kind ≠ .dedent)
    (hblank : ∀ w, t.kind = .whitespace w → s.line.atLineStart)
    (hok : (s.push t).2.1.failure = none) :
    if t.kind = .endOfFile then Disciplined (out ++ (s.push t).2.1.out.map Token.kind)
    else Laid (out ++ (s.push t).2.1.out.map Token.kind) (s.push t).2.2 := by
  rw [Layout.push_eq] at hok ⊢
  simp only at hok ⊢
  obtain ⟨w, hw, hp⟩ | ⟨hn, hp⟩ | ⟨hw, hn, hp⟩ := s.indentation.push_cases (s.line.mark t).1 h.nested
  · rw [LineState.mark_token] at hw
    rw [if_neg (by simp [hw]), hp, map_nil, append_nil]
    exact h.whitespace hw (hblank w hw)
  · rw [LineState.mark_token] at hn
    rw [if_neg (by simp [hn]), hp, LineState.mark_token, LineState.mark_atLineStart]
    exact h.newline hn
  · rw [LineState.mark_token] at hw hn
    have hline := LineState.mark_solid (s := s.line) hw hn
    have hsolid : t.kind ≠ .endOfFile → t.kind.isLayout = false := by
      intro he
      cases hk : t.kind <;> simp_all [TokenKind.isLayout]
    have hnested := Indentation.nested_push (s.line.mark t).1 h.nested
    generalize s.indentation.push (s.line.mark t).1 = step at hp hok hnested ⊢
    cases hp with
    | opens hmust hend hwider =>
      obtain ⟨hdue, hcolon⟩ := LineState.due_of_mustIndent hmust
      rw [LineState.mark_token] at hend
      rw [if_neg hend, hline, if_neg hcolon, LineState.mark_token]
      exact h.opens hdue (hsolid hend) hnested rfl
    | closes n levels _ hs hne hlen hone =>
      rw [LineState.mark_token] at hone
      simp only [map_append, map_replicate, LineState.mark_token]
      split
      · rename_i hend
        rw [map_singleton, hend]
        exact h.endOfFile n (hone hend) hlen
      · rename_i hend
        rw [hline]
        exact h.solid (hsolid hend) n hnested hlen
    | fails => cases hok

namespace TokenStream

/-- What `collect` does with the next raw token. -/
theorem collect_succ (fuel : Nat) (scanner : Scanner) (layout : Layout) : collect (fuel + 1) scanner layout =
      match scanner.next with
      | (.error failure, _) => ([], some failure)
      | (.ok t, after) =>
        match (layout.push t).2.1.failure with
        | some failure => ([], some failure)
        | none =>
          if t.kind = .endOfFile then ((layout.push t).2.1.out, none)
          else
            ((layout.push t).2.1.out ++ (collect fuel after (layout.push t).2.2).1,
              (collect fuel after (layout.push t).2.2).2) := rfl

/-- The scanner and the layout go on agreeing on where lines start. -/
theorem atLineStart_push {scanner after : Scanner} {layout : Layout} {t : Token}
    (hline : layout.line.atLineStart = scanner.atLineStart) (hnext : scanner.next = (.ok t, after))
    (hend : t.kind ≠ .endOfFile) : (layout.push t).2.2.line.atLineStart = after.atLineStart := by
  rw [Scanner.atLineStart_next hnext]
  show (layout.line.mark t).2.atLineStart = _
  unfold LineState.mark
  cases hk : t.kind with
  | symbol sign => cases sign <;> rfl
  | whitespace => exact hline
  | endOfFile => exact absurd hk hend
  | _ => rfl

/-- From any point of a text to its end. The scanner and the layout agree on where lines start. -/
theorem collect_disciplined (fuel : Nat) (scanner : Scanner) (layout : Layout)
    (out : List TokenKind) (h : Laid out layout)
    (hline : layout.line.atLineStart = scanner.atLineStart) (hfuel : scanner.rest.length < fuel)
    (hok : (collect fuel scanner layout).2 = none) :
    Disciplined (out ++ (collect fuel scanner layout).1.map Token.kind) := by
  induction fuel generalizing scanner layout out with
  | zero => exact absurd hfuel (Nat.not_lt_zero _)
  | succ fuel ih =>
    rw [collect_succ] at hok ⊢
    cases hnext : scanner.next with
    | mk outcome after =>
    rw [hnext] at hok
    cases outcome with
    | error failure => cases hok
    | ok t =>
      simp only at hok ⊢
      cases hfail : (layout.push t).2.1.failure with
      | some failure =>
        rw [hfail] at hok
        cases hok
      | none =>
        rw [hfail] at hok
        simp only at hok ⊢
        have hstep := h.push (Scanner.next_genuine hnext).2
          (fun w hw => by rw [hline]; exact Scanner.atLineStart_of_whitespace hnext hw) hfail
        by_cases hend : t.kind = .endOfFile
        · rw [if_pos hend] at hstep ⊢
          exact hstep
        · rw [if_neg hend] at hstep hok ⊢
          rw [map_append, ← append_assoc]
          refine ih after _ _ hstep (atLineStart_push hline hnext hend) ?_ hok
          have := Scanner.next_progress hnext hend
          omega

end TokenStream

/-! ### Pulling tokens one by one -/

/-- A token stream that is read on demand. -/
structure Feed where
  scanner : Scanner
  layout : Layout := {}
  /-- Tokens that have been laid out and not been handed out yet. -/
  pending : List Token := []
  finished : Bool := false

namespace Feed

def ofText (file text : String) : Feed := { scanner := .ofText file text }

/-- Takes raw tokens until something is pending, at most `fuel` of them. -/
def fill : (fuel : Nat) → Feed → Option Failure × Feed
  | 0, f => (none, f)
  | fuel + 1, f =>
    if !f.pending.isEmpty then (none, f)
    else
      match f.scanner.next with
      | (.error failure, scanner) => (some failure, { f with scanner })
      | (.ok t, scanner) =>
        let (_, step, layout) := f.layout.push t
        let f := { f with scanner, layout, pending := step.out }
        match step.failure with
        | some failure => (some failure, f)
        | none => if t.kind = .endOfFile then (none, { f with finished := true }) else fill fuel f

/-- Hands out the next token, or the fault in its place; nothing comes after a fault. -/
def pull (f : Feed) : Option (Except Failure Token) × Feed :=
  match f.pending with
  | t :: rest => (some (.ok t), { f with pending := rest })
  | [] =>
    if f.finished then (none, f)
    else
      match fill (f.scanner.rest.length + 1) f with
      | (some failure, f) => (some (.error failure), { f with pending := [], finished := true })
      | (none, f) =>
        match f.pending with
        | t :: rest => (some (.ok t), { f with pending := rest })
        | [] => (none, f)

/-- The answer to a pull after `n` others. -/
def nth (f : Feed) : Nat → Option (Except Failure Token)
  | 0 => f.pull.1
  | n + 1 => f.pull.2.nth n

end Feed

namespace TokenStream

/-- Any fuel beyond the length of the rest is enough. -/
theorem collect_fuel {fuel : Nat} (other : Nat) {scanner : Scanner} (layout : Layout)
    (h : scanner.rest.length < fuel) (h' : scanner.rest.length < other) :
    collect fuel scanner layout = collect other scanner layout := by
  induction fuel generalizing other scanner layout with
  | zero => exact absurd h (Nat.not_lt_zero _)
  | succ fuel ih =>
    cases other with
    | zero => exact absurd h' (Nat.not_lt_zero _)
    | succ other =>
      rw [collect_succ, collect_succ]
      cases hnext : scanner.next with
      | mk outcome after =>
      cases outcome with
      | error failure => rfl
      | ok t =>
        simp only
        cases (layout.push t).2.1.failure with
        | some failure => rfl
        | none =>
          simp only
          by_cases hend : t.kind = .endOfFile
          · rw [if_pos hend, if_pos hend]
          · have := Scanner.next_progress hnext hend
            rw [if_neg hend, if_neg hend, ih other (layout.push t).2.2 (by omega) (by omega)]

/-- What a stream yields from a scanner and a layout on. -/
def itemsFrom (scanner : Scanner) (layout : Layout) : List (Except Failure Token) :=
  let (tokens, failure) := collect (scanner.rest.length + 1) scanner layout
  (TokenStream.mk scanner.file tokens failure).items

theorem itemsFrom_eq (scanner : Scanner) (layout : Layout) : itemsFrom scanner layout = match scanner.next with
      | (.error failure, _) => [.error failure]
      | (.ok t, after) =>
        match (layout.push t).2.1.failure with
        | some failure => [.error failure]
        | none =>
          (layout.push t).2.1.out.map .ok ++
            if t.kind = .endOfFile then [] else itemsFrom after (layout.push t).2.2 := by
  unfold itemsFrom
  rw [collect_succ]
  cases hnext : scanner.next with
  | mk outcome after =>
  cases outcome with
  | error failure => rfl
  | ok t =>
    simp only
    cases (layout.push t).2.1.failure with
    | some failure => rfl
    | none =>
      simp only
      by_cases hend : t.kind = .endOfFile
      · simp [hend, items]
      · have := Scanner.next_progress hnext hend
        rw [if_neg hend, if_neg hend, collect_fuel (after.rest.length + 1) _ this (Nat.lt_succ_self _)]
        simp [items]

end TokenStream

namespace Feed

open TokenStream (itemsFrom itemsFrom_eq)

/-- What is still to come out of a feed. -/
def coming (f : Feed) : List (Except Failure Token) :=
  f.pending.map .ok ++ if f.finished then [] else itemsFrom f.scanner f.layout

theorem coming_finished {f : Feed} (hp : f.pending = []) (hf : f.finished) : f.coming = [] := by
  simp [coming, hp, hf]

/-- Filling reports what comes next if that is a fault, and else changes nothing about what comes. -/
theorem fill_coming (fuel : Nat) (f : Feed) (hfuel : f.scanner.rest.length < fuel)
    (hp : f.pending = []) (hf : f.finished = false) :
    (∃ failure, (fill fuel f).1 = some failure ∧ f.coming = [.error failure]) ∨
    ((fill fuel f).1 = none ∧ (fill fuel f).2.coming = f.coming ∧
      ((fill fuel f).2.pending = [] → (fill fuel f).2.finished)) := by
  induction fuel generalizing f with
  | zero => exact absurd hfuel (Nat.not_lt_zero _)
  | succ fuel ih =>
    have hcoming : f.coming = itemsFrom f.scanner f.layout := by simp [coming, hp, hf]
    rw [hcoming, itemsFrom_eq]
    unfold fill
    rw [if_neg (by simp [hp])]
    cases hnext : f.scanner.next with
    | mk outcome after =>
    cases outcome with
    | error failure => exact .inl ⟨failure, rfl, rfl⟩
    | ok t =>
      simp only
      cases hfail : (f.layout.push t).2.1.failure with
      | some failure => exact .inl ⟨failure, rfl, rfl⟩
      | none =>
        simp only
        by_cases hend : t.kind = .endOfFile
        · rw [if_pos hend]
          exact .inr ⟨rfl, by simp [coming, hend], fun _ => rfl⟩
        · rw [if_neg hend, if_neg hend]
          have hprogress := Scanner.next_progress hnext hend
          cases hout : (f.layout.push t).2.1.out with
          | nil =>
            have hih := ih ⟨after, (f.layout.push t).2.2, [], f.finished⟩ (by simp only; omega) rfl hf
            simpa [coming, hf] using hih
          | cons first rest =>
            -- Something is pending, so filling stops here whatever fuel is left.
            have hstop : fill fuel ⟨after, (f.layout.push t).2.2, first :: rest, f.finished⟩ =
                (none, ⟨after, (f.layout.push t).2.2, first :: rest, f.finished⟩) := by
              cases fuel <;> rfl
            rw [hstop]
            exact .inr ⟨rfl, by simp [coming, hf], by simp⟩

/-- A pull hands out the first item that is to come, and leaves the others. -/
theorem pull_coming (f : Feed) : f.pull.1 = f.coming.head? ∧ f.pull.2.coming = f.coming.tail := by
  unfold pull
  cases hp : f.pending with
  | cons t rest => simp [coming, hp]
  | nil =>
    cases hf : f.finished with
    | true => simp [coming_finished hp hf]
    | false =>
      simp only [Bool.false_eq_true, if_false]
      obtain ⟨failure, he, hc⟩ | ⟨he, hc, hend⟩ :=
        fill_coming (f.scanner.rest.length + 1) f (Nat.lt_succ_self _) hp hf
      · generalize fill (f.scanner.rest.length + 1) f = filled at he
        obtain ⟨outcome, g⟩ := filled
        subst he
        rw [hc]
        exact ⟨rfl, coming_finished rfl rfl⟩
      · generalize fill (f.scanner.rest.length + 1) f = filled at he hc hend
        obtain ⟨outcome, g⟩ := filled
        subst he
        simp only at hc hend ⊢
        rw [← hc]
        cases hg : g.pending with
        | nil => simp [coming_finished hg (hend hg)]
        | cons t rest => simp [coming, hg]

theorem nth_coming (f : Feed) (n : Nat) : f.nth n = f.coming[n]? := by
  induction n generalizing f with
  | zero => rw [nth, f.pull_coming.1, head?_eq_getElem?]
  | succ n ih => rw [nth, ih, f.pull_coming.2, getElem?_tail]

/-- Pulling a text's feed again and again gives the items of its stream. -/
theorem nth_ofText (file text : String) (n : Nat) :
    (ofText file text).nth n = (TokenStream.ofText file text).items[n]? := by
  rw [nth_coming]
  rfl

end Feed

/-! ### The discipline -/

theorem TokenStream.ofText_disciplined (file text : String) (h : (TokenStream.ofText file text).failure = none) :
    Disciplined ((TokenStream.ofText file text).tokens.map Token.kind) := by
  exact collect_disciplined _ (Scanner.ofText file text) {} [] .start rfl (Nat.lt_succ_self _) h

theorem Nested.growing {levels : List Nat} (h : Nested levels) :
    levels.reverse.Pairwise (· < ·) ∧ levels.reverse.head? = some 0 :=
  ⟨pairwise_reverse.mpr h.wider, by rw [head?_reverse]; exact h.outermost⟩

/-- **Layout discipline.** Pulled one by one, the tokens of any text come first, then at most one fault,
then nothing. Without a fault the tokens end with the only end of file, hold no blanks, blocks nest, each
block opens behind a colon and a newline, and no line is empty. And whatever raw tokens the machines of
the layout are given, the widths of the open blocks grow strictly from zero on. -/
theorem pulls_disciplined (file text : String) :
    (∀ n, (Feed.ofText file text).nth n =
      ((TokenStream.ofText file text).tokens.map Except.ok ++
        (TokenStream.ofText file text).failure.toList.map Except.error)[n]?) ∧
    ((TokenStream.ofText file text).failure = none →
      Disciplined ((TokenStream.ofText file text).tokens.map Token.kind)) ∧
    ∀ raw : List Token,
      (({} : Layout).run raw).indentation.levels.reverse.Pairwise (· < ·) ∧
      (({} : Layout).run raw).indentation.levels.reverse.head? = some 0 :=
  ⟨Feed.nth_ofText file text, TokenStream.ofText_disciplined file text,
    fun raw => (Layout.nested_run raw {} ⟨List.pairwise_singleton _ _, rfl⟩).growing⟩

end Offside
