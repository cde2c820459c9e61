import Offside.Proofs.Grammar.Files

/-! Scanning and reading end.

A scanner that is called again and again, also behind a fault, uses up characters with each call until it
stands at the end of the text, and stays there (`Scanner.exists_endsAfter`). A reader of the grammar that is started
at any cursor ends with an answer, with what cut the tokens short, or with a fault of the grammar: the fuel
that it is given never runs out, since it falls only as tokens are taken or by a bounded number of calls
between two of them (`Parse.Terminates`, from the pass over all readers in `Readers` and `Files`). -/
namespace Offside

open List

namespace Scanner

/-- The scanner behind `n` calls, whatever they answered. -/
def afterCalls (s : Scanner) (n : Nat) : Scanner := (fun s => s.next.2)^[n] s

/-- What the scanner answers behind `n` calls. -/
def answer (s : Scanner) (n : Nat) : Except Failure Token := (s.afterCalls n).next.1

/-- The answer at the end of the text. -/
def IsEnd (answer : Except Failure Token) : Prop := ∃ span, answer = .ok ⟨.endOfFile, span⟩

variable {s : Scanner}

theorem afterCalls_succ (s : Scanner) (n : Nat) : s.afterCalls (n + 1) = s.next.2.afterCalls n := rfl

theorem answer_succ (s : Scanner) (n : Nat) : s.answer (n + 1) = s.next.2.answer n := rfl

theorem isEnd_of_skipTrivia (h : s.skipTrivia.rest = []) : IsEnd s.next.1 := by
  unfold next
  simp only [h]
  exact ⟨_, rfl⟩

/-- A call that does not find the end uses up characters, also if it finds a fault. -/
theorem next_takes (h : ¬ IsEnd s.next.1) : s.next.2.rest.length < s.rest.length := by
  have hskip := s.skipTrivia_rest_length
  rw [next_rest]
  cases hrest : s.skipTrivia.rest with
  | nil => exact absurd (isEnd_of_skipTrivia hrest) h
  | cons c rest =>
    rw [hrest] at hskip
    have hprogress := front_progress c rest
    rw [length_drop, length_cons]
    rw [length_cons] at hskip
    omega

/-- The end is found only where nothing is left but what carries no meaning, and nothing is left behind
it. -/
theorem next_isEnd (h : IsEnd s.next.1) : s.next.2.rest = [] := by
  obtain ⟨span, hend⟩ := h
  obtain ⟨hrest, _, hnext⟩ | ⟨kind, _, _, hkind, hnext, _⟩ | ⟨failure, after, hnext⟩ := s.next_cases
  · rw [hnext]
    exact hrest
  · rw [hnext] at hend
    cases hend
    exact absurd rfl hkind
  · rw [hnext] at hend
    cases hend

theorem isEnd_of_rest_nil (h : s.rest = []) : IsEnd s.next.1 := by
  by_contra hne
  have htakes := next_takes hne
  rw [h] at htakes
  exact absurd htakes (Nat.not_lt_zero _)

/-- Behind the end of the text there is nothing but its end. -/
theorem answer_isEnd (h : IsEnd s.next.1) (n : Nat) : IsEnd (s.answer n) := by
  induction n generalizing s with
  | zero => exact h
  | succ n ih => exact ih (isEnd_of_rest_nil (next_isEnd h))

theorem run_of_isEnd (h : IsEnd s.next.1) (fuel : Nat) : (s.run (fuel + 1)).1 = [s.next.1] := by
  obtain ⟨span, hend⟩ := h
  have hnext : s.next = (.ok ⟨.endOfFile, span⟩, s.next.2) := Prod.ext hend rfl
  rw [run, hnext]
  rfl

theorem run_of_not_isEnd (h : ¬ IsEnd s.next.1) (fuel : Nat) :
    (s.run (fuel + 1)).1 = s.next.1 :: (s.next.2.run fuel).1 := by
  rw [run]
  cases hnext : s.next with
  | mk answer after =>
    rw [hnext] at h
    cases answer with
    | error failure => rfl
    | ok t =>
      have hkind : t.kind ≠ .endOfFile := by
        intro hkind
        exact h ⟨t.span, by rw [← hkind]⟩
      simp only [if_neg hkind]

/-- Calls up to the first that finds the end: each before it uses up characters, each from it on finds the
end again, and a run answers what they answer. -/
structure EndsAfter (s : Scanner) (n : Nat) : Prop where
  bounded : n ≤ s.rest.length
  takes : ∀ i < n, ¬ IsEnd (s.answer i) ∧
    (s.afterCalls (i + 1)).rest.length < (s.afterCalls i).rest.length
  stays : ∀ i, n ≤ i → IsEnd (s.answer i)
  run : ∀ fuel, n < fuel → (s.run fuel).1 = (range (n + 1)).map s.answer

theorem EndsAfter.zero (h : IsEnd s.next.1) : s.EndsAfter 0 where
  bounded := Nat.zero_le _
  takes := by simp
  stays := fun i _ => answer_isEnd h i
  run := by
    rintro (_ | fuel) hfuel
    · omega
    · exact run_of_isEnd h fuel

theorem EndsAfter.succ {n : Nat} (h : ¬ IsEnd s.next.1) (hafter : s.next.2.EndsAfter n) : s.EndsAfter (n + 1) where
  bounded := by
    have := next_takes h
    have := hafter.bounded
    omega
  takes := by
    rintro (_ | i) hi
    · exact ⟨h, next_takes h⟩
    · exact hafter.takes i (by omega)
  stays := by
    rintro (_ | i) hi
    · omega
    · exact hafter.stays i (by omega)
  run := by
    rintro (_ | fuel) hfuel
    · omega
    · rw [run_of_not_isEnd h, hafter.run fuel (by omega), range_succ_eq_map (n := n + 1), map_cons, map_map]
      rfl

/-- Every scanner comes to the end of its text. -/
theorem exists_endsAfter (s : Scanner) : ∃ n, s.EndsAfter n := by
  induction hlength : s.rest.length using Nat.strong_induction_on generalizing s with
  | _ length ih =>
    by_cases h : IsEnd s.next.1
    · exact ⟨0, .zero h⟩
    · obtain ⟨n, hn⟩ := ih _ (hlength ▸ next_takes h) s.next.2 rfl
      exact ⟨n + 1, .succ h hn⟩

end Scanner

namespace Parse

/-- Reading ends wherever it starts: with an answer, for which at least `k` tokens have been taken, with what
cut the tokens short, or with a fault of the grammar. -/
def Terminates {α : Type} (k : Nat) (p : Parse α) : Prop := ∀ c : Cursor,
    (∃ a c', p.run c = .ok a c' ∧ c'.left + k ≤ c.left) ∨
    (∃ failure c', p.run c = .error failure c' ∧ (c.failure = some failure ∨ ∃ fault l, failure = .grammar fault l))

/-- What the pass over the readers says of a reader, where nothing is known of the tokens. -/
theorem Terminates.of_leads {α : Type} {k : Nat} {p : Parse α} {post : Cursor → α → Cursor → Prop}
    (h : ∀ c : Cursor, Leads False (fun _ => True) c k p (post c)) : p.Terminates k := by
  intro c
  have hc := h c
  unfold Leads at hc
  cases hrun : p.run c with
  | ok a c' =>
    rw [hrun] at hc
    exact .inl ⟨a, c', rfl, hc.2.2.1⟩
  | error failure c' =>
    rw [hrun] at hc
    obtain hcut | ⟨fault, l, hgrammar, _⟩ := hc
    · exact .inr ⟨failure, c', rfl, .inl hcut⟩
    · exact .inr ⟨failure, c', rfl, .inr ⟨fault, l, hgrammar⟩⟩

end Parse

/-- **Scanning and reading end.** A scanner that is called again and again, also behind a fault, uses up at
least one character with each call until it answers with the end of the file, which it does forever from then
on; the answers up to there are those of `Scanner.all`. From every cursor, also one whose tokens have been cut
short, reading a file, a statement, an expression or a type ends with an answer or with a failure other than
that of a bound that is met, which no text leads to; and each of the last three takes at least one token for
its answer. -/
theorem reading_ends : (∀ s : Scanner, ∃ n, s.EndsAfter n ∧ s.all.1 = (List.range (n + 1)).map s.answer) ∧
      (Parse.file.Terminates 0 ∧ Parse.statement.Terminates 1 ∧ Parse.expression.Terminates 1 ∧ Parse.type.Terminates 1) ∧
      ∀ file text, (Cursor.ofText file text).failure ≠ some .exhausted := by
  refine ⟨fun s => ?_, ⟨?_, ?_, ?_, ?_⟩, fun file text h => ?_⟩
  · obtain ⟨n, hn⟩ := s.exists_endsAfter
    exact ⟨n, hn, hn.run _ (Nat.lt_succ_of_le hn.bounded)⟩
  · exact .of_leads fun c => Parse.file_leads Node.Nested fun h => h.elim
  · exact .of_leads fun c => Parse.statement_leads Node.Nested fun h => h.elim
  · exact .of_leads fun c => Parse.expression_leads Node.Nested fun h => h.elim
  · exact .of_leads fun c => Parse.type_leads Node.Nested fun h => h.elim
  · exact absurd (TokenStream.failure_inText h).1 (by simp [Failure.ofText])

end Offside
