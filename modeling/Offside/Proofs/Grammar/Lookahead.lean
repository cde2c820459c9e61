import Offside.Proofs.Grammar.Cursor

/-! The buffer in front of a token stream.

A reader that works on demand keeps the tokens it has looked at in a buffer, pulls more from its feed when
it needs them, and pads the buffer with ends of file when the feed has ended; `Lookahead` is that reader.
A cursor shows what buffer and feed hold together (`Lookahead.Shows`), and each call to the one is answered
as the same call to the other (`Call.simulates`). So no call ever finds the buffer short, and a fault that
is answered is what cut the stream short. -/
namespace Offside

open List

/-- Tokens that have been looked at, and the feed that the next ones are pulled from. -/
structure Lookahead where
  feed : Feed
  buffer : List Token := []
  lastEnd : Location

namespace Lookahead

def ofText (file text : String) : Lookahead := { feed := .ofText file text, lastEnd := ⟨file, .start⟩ }

/-- The end of file that the buffer is padded with. -/
def ending (b : Lookahead) : Token := .atPoint .endOfFile b.lastEnd

/-- Puts one more token into the buffer. -/
def pull : EStateM Failure Lookahead Unit := do
  let b ← get
  match b.feed.pull with
  | (some (.ok t), feed) => set { b with feed, buffer := b.buffer ++ [t] }
  | (some (.error failure), feed) =>
    set { b with feed }
    throw failure
  | (none, feed) => set { b with feed, buffer := b.buffer ++ [b.ending] }

def pulls : Nat → EStateM Failure Lookahead Unit
  | 0 => pure ()
  | n + 1 => do
    pull
    pulls n

/-- Makes sure that so many tokens are in the buffer. Each pull brings one, so the number of pulls is the
number of tokens that are missing. -/
def fill (count : Nat) : EStateM Failure Lookahead Unit := do
  pulls (count - (← get).buffer.length)

def peekNth (offset : Nat) : EStateM Failure Lookahead Token := do
  fill (offset + 1)
  match (← get).buffer[offset]? with
  | some t => return t
  | none => throw .underflow

def advance : EStateM Failure Lookahead Token := do
  fill 1
  match (← get).buffer with
  | t :: rest =>
    modify fun b =>
      { b with
        buffer := rest
        lastEnd := if t.kind = .endOfFile then b.lastEnd else t.span.stop }
    return t
  | [] => throw .underflow

/-! ### Filling -/

variable {b : Lookahead} {ts : List Token} {n count : Nat}

/-- A pull takes the first item that is to come. -/
theorem pull_run (b : Lookahead) : ∃ feed, feed.coming = b.feed.coming.tail ∧ pull.run b =
    match b.feed.coming.head? with
    | some (.ok t) => .ok () { b with feed, buffer := b.buffer ++ [t] }
    | some (.error failure) => .error failure { b with feed }
    | none => .ok () { b with feed, buffer := b.buffer ++ [b.ending] } := by
  obtain ⟨hhead, htail⟩ := b.feed.pull_coming
  refine ⟨b.feed.pull.2, htail, ?_⟩
  rw [← hhead]
  unfold pull
  rw [EStateM.run_bind]
  dsimp only [EStateM.run_get]
  obtain ⟨_ | _ | _, feed⟩ := b.feed.pull <;> rfl

theorem pulls_succ {b' : Lookahead} (h : pull.run b = .ok () b') : (pulls (n + 1)).run b = (pulls n).run b' := by
  rw [pulls, EStateM.run_bind, h]

/-- Pulling tokens that are still to come. -/
theorem pulls_tokens {items : List (Except Failure Token)} (hn : n ≤ ts.length)
    (h : b.feed.coming = ts.map .ok ++ items) :
    ∃ feed, (pulls n).run b = .ok () { b with feed, buffer := b.buffer ++ ts.take n } ∧
      feed.coming = (ts.drop n).map .ok ++ items := by
  induction n generalizing b ts with
  | zero => exact ⟨b.feed, by rw [take_zero, append_nil]; rfl, h⟩
  | succ n ih =>
    cases ts with
    | nil => exact absurd hn (Nat.not_succ_le_zero n)
    | cons t ts =>
      obtain ⟨feed, hcoming, hpull⟩ := pull_run b
      rw [h] at hcoming hpull
      obtain ⟨feed', hpulls, hcoming'⟩ :=
        ih (b := { b with feed, buffer := b.buffer ++ [t] }) (Nat.le_of_succ_le_succ hn) hcoming
      refine ⟨feed', ?_, hcoming'⟩
      rw [pulls_succ hpull, hpulls, append_assoc]
      rfl

/-- Pulling past the last token onto what cut the stream short. -/
theorem pulls_fault {failure : Failure} (hn : ts.length < n) (h : b.feed.coming = ts.map .ok ++ [.error failure]) :
    ∃ feed, (pulls n).run b = .error failure { b with feed, buffer := b.buffer ++ ts } ∧ feed.coming = [] := by
  -- All tokens are pulled first; the next pull meets the fault.
  obtain ⟨k, rfl⟩ := Nat.exists_eq_add_of_lt hn
  induction ts generalizing b with
  | nil =>
    obtain ⟨feed, hcoming, hpull⟩ := pull_run b
    rw [h] at hcoming hpull
    refine ⟨feed, ?_, hcoming⟩
    rw [length_nil, Nat.zero_add, pulls, EStateM.run_bind, hpull, append_nil]
    rfl
  | cons t ts ih =>
    obtain ⟨feed, hcoming, hpull⟩ := pull_run b
    rw [h] at hcoming hpull
    obtain ⟨feed', hpulls, hcoming'⟩ :=
      ih (b := { b with feed, buffer := b.buffer ++ [t] }) hcoming (by omega)
    refine ⟨feed', ?_, hcoming'⟩
    rw [length_cons, show ts.length + 1 + k + 1 = ts.length + k + 1 + 1 by omega, pulls_succ hpull, hpulls, append_assoc]
    rfl

/-- Pulling past the end of the feed pads the buffer. -/
theorem pulls_ended (n : Nat) (h : b.feed.coming = []) :
    ∃ feed, (pulls n).run b = .ok () { b with feed, buffer := b.buffer ++ replicate n b.ending } ∧
      feed.coming = [] := by
  induction n generalizing b with
  | zero => exact ⟨b.feed, by rw [replicate_zero, append_nil]; rfl, h⟩
  | succ n ih =>
    obtain ⟨feed, hcoming, hpull⟩ := pull_run b
    rw [h] at hcoming hpull
    obtain ⟨feed', hpulls, hcoming'⟩ :=
      ih (b := { b with feed, buffer := b.buffer ++ [b.ending] }) hcoming
    refine ⟨feed', ?_, hcoming'⟩
    rw [pulls_succ hpull, hpulls, append_assoc]
    rfl

theorem pulls_add (m n : Nat) (b : Lookahead) : (pulls (m + n)).run b = (pulls m >>= fun _ => pulls n).run b := by
  induction m generalizing b with
  | zero =>
    rw [Nat.zero_add, EStateM.run_bind]
    rfl
  | succ m ih =>
    rw [Nat.add_right_comm, pulls, pulls, bind_assoc, EStateM.run_bind, EStateM.run_bind]
    cases pull.run b with
    | ok _ b' => exact ih b'
    | error failure b' => rfl

/-- Pulling all tokens that are left and padding the buffer behind them. -/
theorem pulls_padded (hn : ts.length ≤ n) (h : b.feed.coming = ts.map .ok) :
    ∃ feed, (pulls n).run b =
        .ok () { b with feed, buffer := b.buffer ++ (ts ++ replicate (n - ts.length) b.ending) } ∧
      feed.coming = [] := by
  rw [← append_nil (ts.map _)] at h
  obtain ⟨feed, hpulls, hcoming⟩ := pulls_tokens (Nat.le_refl ts.length) h
  rw [drop_length, map_nil, append_nil] at hcoming
  obtain ⟨feed', hpulls', hcoming'⟩ :=
    pulls_ended (b := { b with feed, buffer := b.buffer ++ ts.take ts.length }) (n - ts.length) hcoming
  refine ⟨feed', ?_, hcoming'⟩
  rw [← Nat.add_sub_cancel' hn, pulls_add, EStateM.run_bind, hpulls]
  dsimp only
  rw [hpulls', take_length, append_assoc, Nat.add_sub_cancel_left]
  rfl

/-! ### What a cursor shows -/

/-- The cursor stands before what the buffer and the feed hold: before its last token, both hold the same
tokens; behind it, the buffer may hold ends of file that the cursor makes up when they are asked for. -/
inductive Shows (b : Lookahead) (c : Cursor) : Prop where
  | before (ts : List Token) (tokens : c.tokens = b.buffer ++ ts)
      (coming : b.feed.coming = ts.map .ok ++ c.failure.toList.map .error) (place : c.lastEnd = b.lastEnd)
  | behind (n : Nat) (tokens : c.tokens = []) (failure : c.failure = none) (coming : b.feed.coming = [])
      (buffer : b.buffer = replicate n c.ending) (place : c.lastEnd = b.lastEnd)

theorem shows_ofText (file text : String) : (ofText file text).Shows (.ofText file text) :=
  .before (TokenStream.ofText file text).tokens rfl rfl rfl

/-- The same answer, in states that show the same. -/
def Alike {α β : Type} (same : α → β → Lookahead → Prop) :
    EStateM.Result Failure Lookahead α → EStateM.Result Failure Cursor β → Prop
  | .ok a b, .ok a' c => same a a' b ∧ b.Shows c
  | .error failure b, .error failure' c => failure = failure' ∧ b.Shows c
  | _, _ => False

/-- Calls that go on alike from where others ended alike. -/
theorem Alike.bind {α β : Type} {same : α → β → Lookahead → Prop} {after : Token → Token → Lookahead → Prop}
    {p : EStateM Failure Lookahead α} {q : Parse β} {f : α → EStateM Failure Lookahead Token} {g : β → Parse Token}
    {c : Cursor} (h : Alike same (p.run b) (q.run c))
    (hgo : ∀ a a' b' c', same a a' b' → b'.Shows c' → Alike after ((f a).run b') ((g a').run c')) :
    Alike after ((p >>= f).run b) ((q >>= g).run c) := by
  rw [EStateM.run_bind, EStateM.run_bind]
  cases hp : p.run b with
  | ok a b' =>
    cases hq : q.run c with
    | ok a' c' =>
      rw [hp, hq] at h
      exact hgo a a' b' c' h.1 h.2
    | error failure c' =>
      rw [hp, hq] at h
      exact h.elim
  | error failure b' =>
    cases hq : q.run c with
    | ok a' c' =>
      rw [hp, hq] at h
      exact h.elim
    | error failure' c' =>
      rw [hp, hq] at h
      exact h

theorem fill_run (count : Nat) (b : Lookahead) : (fill count).run b = (pulls (count - b.buffer.length)).run b := rfl

/-- Filling puts the tokens into the buffer that the cursor gives. -/
theorem fill_alike {c : Cursor} (h : b.Shows c) (count : Nat) :
    Alike (fun _ front b => count ≤ b.buffer.length ∧ front = b.buffer.take count)
      ((fill count).run b) ((Parse.fill count).run c) := by
  rw [fill_run, Parse.fill_run]
  cases h with
  | before ts tokens coming place =>
    have hlength : c.tokens.length = b.buffer.length + ts.length := by rw [tokens, length_append]
    by_cases hshort : c.tokens.length < count
    · rw [if_pos hshort]
      cases hfailure : c.failure with
      | some failure =>
        rw [hfailure] at coming
        obtain ⟨feed, hpulls, hcoming⟩ := pulls_fault (n := count - b.buffer.length) (by omega) coming
        rw [hpulls]
        refine ⟨rfl, .before [] ?_ hcoming place⟩
        rw [append_nil]
        exact tokens
      | none =>
        rw [hfailure, Option.toList_none, map_nil, append_nil] at coming
        obtain ⟨feed, hpulls, hcoming⟩ := pulls_padded (n := count - b.buffer.length) (by omega) coming
        have hending : c.ending = b.ending := by rw [Cursor.ending, ending, place]
        have hfilled : c.tokens ++ replicate (count - c.tokens.length) c.ending =
            b.buffer ++ (ts ++ replicate (count - b.buffer.length - ts.length) b.ending) := by
          rw [tokens, length_append, hending, append_assoc, Nat.sub_sub]
        rw [hpulls, hfilled]
        have hcount : (b.buffer ++ (ts ++ replicate (count - b.buffer.length - ts.length) b.ending)).length = count := by
          rw [length_append, length_append, length_replicate]
          omega
        refine ⟨⟨hcount.ge, (take_of_length_le hcount.le).symm⟩, ?_⟩
        unfold Cursor.padded
        cases htokens : c.tokens with
        | nil =>
          obtain ⟨hbuffer, hts⟩ := append_eq_nil_iff.mp (tokens.symm.trans htokens)
          refine .behind count htokens hfailure hcoming ?_ place
          simp [hbuffer, hts, hending]
        | cons t rest =>
          refine .before [] ?_ ?_ place
          · rw [append_nil, ← hfilled, htokens]
            rfl
          · show feed.coming = _ ++ c.failure.toList.map _
            rw [hfailure]
            exact hcoming
    · rw [if_neg hshort]
      obtain ⟨feed, hpulls, hcoming⟩ := pulls_tokens (n := count - b.buffer.length) (by omega) coming
      rw [hpulls]
      refine ⟨⟨?_, ?_⟩, .before (ts.drop (count - b.buffer.length)) ?_ hcoming place⟩
      · show count ≤ (b.buffer ++ _).length
        rw [length_append, length_take]
        omega
      · rw [tokens, take_append, take_append, take_take, Nat.min_self]
      · rw [append_assoc, take_append_drop]
        exact tokens
  | behind n tokens failure coming buffer place =>
    have hending : c.ending = b.ending := by rw [Cursor.ending, ending, place]
    obtain ⟨feed, hpulls, hcoming⟩ := pulls_ended (count - b.buffer.length) coming
    have hbuffer : b.buffer ++ replicate (count - b.buffer.length) b.ending = replicate (max n count) c.ending := by
      rw [buffer, length_replicate, hending, ← replicate_add]
      congr 1
      omega
    have hfront : replicate count c.ending = (replicate (max n count) c.ending).take count := by
      rw [take_replicate, Nat.min_eq_left (Nat.le_max_right n count)]
    have hafter : Shows { b with feed, buffer := replicate (max n count) c.ending } c :=
      .behind _ tokens failure hcoming rfl place
    rw [hpulls, hbuffer, tokens, failure]
    have hpadded : c.padded count = c := by rw [Cursor.padded, tokens]; rfl
    split
    · dsimp only
      rw [hpadded]
      exact ⟨⟨by rw [length_replicate]; exact Nat.le_max_right n count, hfront⟩, hafter⟩
    · rename_i hzero
      cases Nat.eq_zero_of_not_pos hzero
      exact ⟨⟨Nat.zero_le _, rfl⟩, hafter⟩

end Lookahead

/-! ### Calls -/

/-- What a reader asks for: to look at a token some places ahead, or to take the next one. -/
inductive Call where
  | look (offset : Nat)
  | take
deriving DecidableEq

namespace Call

def onBuffer : Call → EStateM Failure Lookahead Token
  | look offset => Lookahead.peekNth offset
  | take => Lookahead.advance

def onCursor : Call → Parse Token
  | look offset => Parse.peekNth offset
  | take => Parse.advance

variable {b : Lookahead} {c : Cursor}

theorem look_alike (h : b.Shows c) (offset : Nat) :
    Lookahead.Alike (fun t t' _ => t = t') ((look offset).onBuffer.run b) ((look offset).onCursor.run c) := by
  refine (Lookahead.fill_alike h (offset + 1)).bind ?_
  rintro _ _ b' c' ⟨hlength, rfl⟩ hshows
  have hthere : b'.buffer[offset]? = some b'.buffer[offset] := getElem?_eq_getElem hlength
  rw [getElem?_take_of_lt (Nat.lt_succ_self offset), hthere]
  show Lookahead.Alike _ ((match b'.buffer[offset]? with | some t => _ | none => _ :
    EStateM Failure Lookahead Token).run b') _
  rw [hthere]
  exact ⟨rfl, hshows⟩

theorem take_alike (h : b.Shows c) :
    Lookahead.Alike (fun t t' _ => t = t') (take.onBuffer.run b) (take.onCursor.run c) := by
  refine (Lookahead.fill_alike h 1).bind ?_
  rintro _ _ ⟨feed, buffer, lastEnd⟩ c' ⟨hlength, rfl⟩ hshows
  cases buffer with
  | nil => exact absurd hlength (Nat.not_succ_le_zero 0)
  | cons t rest =>
    refine ⟨rfl, ?_⟩
    cases hshows with
    | before ts tokens coming place =>
      refine .before ts ?_ coming ?_
      · show c'.tokens.tail = rest ++ ts
        rw [tokens]
        rfl
      · show ite _ _ _ = ite _ _ _
        rw [place]
    | behind n tokens failure coming buffer place =>
      cases n with
      | zero => cases buffer
      | succ n =>
        obtain ⟨rfl, rfl⟩ := cons.inj buffer
        -- An end of file that is taken moves nothing.
        refine .behind n ?_ failure coming rfl place
        show c'.tokens.tail = []
        rw [tokens]
        rfl

/-- **A call is answered by the buffer as by the cursor.** -/
theorem simulates (call : Call) (h : b.Shows c) :
    Lookahead.Alike (fun t t' _ => t = t') (call.onBuffer.run b) (call.onCursor.run c) := by
  cases call with
  | look offset => exact look_alike h offset
  | take => exact take_alike h

/-- The answers to calls made one after another. A fault is answered too, and the calls go on. -/
def answers {σ : Type} (step : Call → EStateM Failure σ Token) : List Call → σ → List (Except Failure Token)
  | [], _ => []
  | call :: rest, s =>
    match (step call).run s with
    | .ok t s' => .ok t :: answers step rest s'
    | .error failure s' => .error failure :: answers step rest s'

theorem answers_eq (h : b.Shows c) (calls : List Call) : answers onBuffer calls b = answers onCursor calls c := by
  induction calls generalizing b c with
  | nil => rfl
  | cons call rest ih =>
    have hcall := call.simulates h
    unfold answers
    generalize call.onBuffer.run b = result at hcall
    generalize call.onCursor.run c = result' at hcall
    cases result with
    | ok t b' =>
      cases result' with
      | ok t' c' => exact congrArg₂ _ (congrArg _ hcall.1) (ih hcall.2)
      | error failure c' => exact hcall.elim
    | error failure b' =>
      cases result' with
      | ok t' c' => exact hcall.elim
      | error failure' c' => exact congrArg₂ _ (congrArg _ hcall.1) (ih hcall.2)

/-- A call either leaves it to a later one to report what cut the stream short, or reports just that. -/
theorem onCursor_failure (call : Call) (c : Cursor) :
    match call.onCursor.run c with
    | .ok _ c' => c'.failure = c.failure
    | .error failure c' => c.failure = some failure ∧ c'.failure = none := by
  have hpadded (count : Nat) : (c.padded count).failure = c.failure := by
    unfold Cursor.padded
    split <;> rfl
  cases call with
  | look offset =>
    unfold onCursor
    rw [Parse.peekNth_run]
    cases c.tokens[offset]? with
    | some t => rfl
    | none => cases hfailure : c.failure with
      | some failure => exact ⟨rfl, rfl⟩
      | none => exact (hpadded _).trans hfailure
  | take =>
    unfold onCursor
    rw [Parse.advance_run, Parse.peek_run]
    cases c.tokens with
    | cons t rest => rfl
    | nil => cases hfailure : c.failure with
      | some failure => exact ⟨rfl, rfl⟩
      | none => exact hfailure

theorem failure_of_mem_answers {failure : Failure} (calls : List Call)
    (h : .error failure ∈ answers onCursor calls c) : c.failure = some failure := by
  induction calls generalizing c with
  | nil => cases h
  | cons call rest ih =>
    have hcall := call.onCursor_failure c
    unfold answers at h
    generalize call.onCursor.run c = result at hcall h
    cases result with
    | ok t c' => exact hcall ▸ ih ((mem_cons.mp h).resolve_left nofun)
    | error reported c' =>
      rcases mem_cons.mp h with hfirst | hlater
      · rw [Except.error.inj hfirst]
        exact hcall.1
      · cases hcall.2.symm.trans (ih hlater)

/-- Whatever is asked of the tokens of a text, the buffer answers as the cursor does, and with no fault but
the one that cuts the tokens short: it never lacks a token that it was filled for. -/
theorem answers_ofText (file text : String) (calls : List Call) :
    answers onBuffer calls (.ofText file text) = answers onCursor calls (.ofText file text) ∧
      ∀ failure, .error failure ∈ answers onBuffer calls (.ofText file text) →
        (TokenStream.ofText file text).failure = some failure := by
  have hsame := answers_eq (Lookahead.shows_ofText file text) calls
  refine ⟨hsame, fun failure h => ?_⟩
  rw [hsame] at h
  exact failure_of_mem_answers calls h

end Call

end Offside
