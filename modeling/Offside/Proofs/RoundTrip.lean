import Offside.Proofs.Grammar.ReadingBlocks
import Offside.Proofs.Grammar.Files
import Offside.Proofs.Tree.WrittenLines

/-! Printing a program and reading it again.

What a text is read as is well formed, the printed text of a well-formed program has the tokens of the
program, and these tokens are read as the program. So nothing is lost but numbers and places
(`ofText_print`), provided that all floating point literals are finite: there is no numeral for infinity. -/
namespace Offside

open Number

theorem Module.ofText_file {file text : String} {m : Module} (h : Module.ofText file text = .ok m) :
    m.file = file := by
  obtain ⟨c', h⟩ := Parse.outcome_ok h
  obtain ⟨c, c1, hget, h⟩ := run_bind_ok.mp h
  obtain ⟨body, c2, _, h⟩ := run_bind_ok.mp h
  cases h
  cases hget
  rfl

/-- **A program that was read is read again from its printed text**, numbers and places aside. -/
theorem ofText_print {file text : String} {m : Module} (h : Module.ofText file text = .ok m)
    (hfinite : ∀ x ∈ m.floats, x.isFinite = true) :
    ∃ m', Module.ofText file m.print = .ok m' ∧ m'.blur .places = m.blur .places := by
  have hwellFormed := Module.ofText_wellFormed h
  have hinfinity : Double.infinity ∉ m.floats := fun hmem => absurd (hfinite _ hmem) (by decide)
  obtain ⟨hunbroken, htokens⟩ := Module.tokens_print hwellFormed hinfinity file
  exact Module.read hwellFormed (Module.ofText_file h).symm ⟨htokens, hunbroken⟩

/-- A chain of conditions, with signs that must not touch and numbers of both written forms. -/
def chainText : String :=
  "def f(x: double) -> double:\n    if x < 1.5e-7: return - -x\n    elif x: return (1 - x) * 0.1\n"

theorem ofText_print_chain : ∃ m m', Module.ofText "f.cu" chainText = .ok m ∧ m.floats.length = 2 ∧
    (∀ x ∈ m.floats, x.isFinite = true) ∧ Module.ofText "f.cu" m.print = .ok m' ∧
    m'.blur .places = m.blur .places := by
  have hfloats : (Module.ofText "f.cu" chainText).toOption.map
      (fun m => (m.floats.length, m.floats.all Double.isFinite)) = some (2, true) := by
    decide +kernel
  cases hread : Module.ofText "f.cu" chainText with
  | error failure =>
    rw [hread] at hfloats
    cases hfloats
  | ok m =>
    rw [hread] at hfloats
    injection hfloats with hfloats
    have hfinite : ∀ x ∈ m.floats, x.isFinite = true := List.all_eq_true.mp (congrArg Prod.snd hfloats)
    obtain ⟨m', hm', hblur⟩ := ofText_print hread hfinite
    exact ⟨m, m', rfl, congrArg Prod.fst hfloats, hfinite, hm', hblur⟩

end Offside
