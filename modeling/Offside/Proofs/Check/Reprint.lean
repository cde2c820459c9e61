import Offside.Proofs.Check.RepeatedProgram
import Offside.Proofs.RoundTrip

/-! Printing a program that has been checked.

The types that checking finds are written out where the program leaves them out, so the printed text is a
program of its own. It is the same program, if what it leaves out can be written: the types are standard,
numbers are finite, and functions that leave out the type of their results can do with being known in
their own bodies (`CheckedUnit.ofText_print_checked`). -/
namespace Offside

open Number

theorem TypeTable.founded_builtin : TypeTable.builtin.Founded := by
  intro s hs
  simp only [Scalar.builtin, List.mem_cons, List.not_mem_nil, or_false] at hs
  rcases hs with rfl | rfl | rfl | rfl | rfl | rfl | rfl | rfl | rfl | rfl | rfl | rfl <;> rfl

/-- Two programs that are the same with their types written out are printed the same. -/
theorem Module.print_eq_of_spell {m m' : Module}
    (h : Stmt.blurList .bare (Stmt.spellList m'.body) = Stmt.blurList .bare (Stmt.spellList m.body)) :
    m'.print = m.print := by
  have hbody : (m'.spell.blur .bare).body = (m.spell.blur .bare).body := h
  rw [← Module.print_spell Blur.bare_type m', ← Module.print_spell Blur.bare_type m]
  unfold Module.print
  rw [hbody]

/-- A tree with its types written out is read from its printed text. -/
theorem Module.read_print_spell {m : Module} {targets : List Mark}
    (hwellFormed : Stmt.WellFormedList (Stmt.restoreList m.body targets).1)
    (htyped : m.WellTyped) (hstandard : Stmt.AllMeet .standard m.body)
    (hfinite : ∀ x ∈ m.floats, x.isFinite = true) {file : String} (hfile : m.file = file) :
    ∃ m', Module.ofText file m.print = .ok m' ∧
      Stmt.blurList .bare m'.body = Stmt.blurList .bare (Stmt.spellList m.body) := by
  have hspelled : Stmt.WellFormedList (m.spell.blur .types).body :=
    Stmt.wellFormedList_spell (.declared .void) m.body targets hwellFormed (htyped _) hstandard
  have hfloats : (m.spell.blur .types).floats = m.floats := Stmt.floatsList_spell .types m.body
  have hinfinity : Double.infinity ∉ (m.spell.blur .types).floats := by
    rw [hfloats]
    exact fun hmem => absurd (hfinite _ hmem) (by decide)
  obtain ⟨hunbroken, htokens⟩ := Module.tokens_print hspelled hinfinity file
  rw [Module.print_spell Blur.types_type] at hunbroken htokens
  have hread : ∃ m', Module.ofText file m.print = .ok m' ∧ m'.blur .places = (m.spell.blur .types).blur .places :=
    Module.read hspelled hfile.symm ⟨htokens, hunbroken⟩
  obtain ⟨m', hread, hsimilar⟩ := hread
  refine ⟨m', hread, ?_⟩
  have hbody : Stmt.blurList .places m'.body =
      Stmt.blurList .places (Stmt.blurList .types (Stmt.spellList m.body)) := congrArg Module.body hsimilar
  rw [← Stmt.blurList_bare .places, hbody, Stmt.blurList_bare, Stmt.blurList_bare]

namespace CheckedUnit

open Check

/-- A text goes through if it is read and what is read goes through. -/
theorem ofText_eq_ok {config : Config} {file text : String} {m : Module} {body : List Stmt} {s : CheckState}
    (hread : Module.ofText file text = .ok m)
    (hrun : (statements (sources config) m.body).run (startState none) = .ok body s) :
    ofText config file text = .ok ⟨s.headers, ⟨m.file, body⟩, s.units, s.environment.global⟩ := by
  unfold EStateM.run at hrun
  have hmodule : ofModule config m none = .ok ⟨s.headers, ⟨m.file, body⟩, s.units, s.environment.global⟩ := by
    unfold ofModule
    rw [hrun]
  unfold ofText
  rw [hread]
  exact hmodule

/-- A program that has been checked, with its types written out, is checked with the same outcome. -/
theorem repeats_from_start {config : Config} {lines body again : List Stmt} {s : CheckState}
    (hrun : (statements (sources config) lines).run (startState none) = .ok body s)
    (hincludes : ∀ line ∈ body, ∀ path ∈ line.included?, findInclude config none path = none)
    (hstandard : Stmt.AllMeet .standard body) (hinfer : Stmt.AllInferApart config [] body)
    (hagain : Stmt.blurList .bare again = Stmt.blurList .bare (Stmt.spellList body)) :
    ∃ body' s', (statements (sources config) again).run (startState none) = .ok body' s' ∧ s.Abreast {} s' ∧
      Stmt.blurList .bare (Stmt.spellList body') = Stmt.blurList .bare (Stmt.spellList body) := by
  have hself : (startState none).Abreast {} (startState none) := abreast_self TypeTable.founded_builtin rfl rfl
  have hreached : Reached config (startState none) := .start none
  exact program_repeats (between_startState none) ⟨furnished_startState none, hreached.visible⟩ rfl hself
    (List.forall_mem_nil _) hrun hstandard hinfer hincludes hagain

/-- **A checked program that is printed is the same program again**: the text goes through under the same
configuration, needs the same headers, declares the same global names with the same types, and is printed
as it stands. -/
theorem ofText_print_checked {config : Config} {file text : String} {u : CheckedUnit}
    (h : ofText config file text = .ok u)
    (hincludes : ∀ line ∈ u.module.body, ∀ path ∈ line.included?, findInclude config none path = none)
    (hfinite : ∀ x ∈ u.module.floats, x.isFinite = true)
    (hstandard : Stmt.AllMeet .standard u.module.body)
    (hinfer : Stmt.AllInferApart config [] u.module.body) :
    ∃ u', ofText config file u.module.print = .ok u' ∧ u'.module.print = u.module.print ∧
      u'.headers = u.headers ∧ ∀ name, u'.globals.lookup name = u.globals.lookup name := by
  obtain ⟨m, hm, hu⟩ := ofText_ok h
  unfold ofModule at hu
  split at hu
  · rename_i body s hrun
    cases hu
    obtain ⟨targets, hrestore⟩ := statements_restorable hm hrun
    have hwellFormed : Stmt.WellFormedList (Stmt.restoreList body targets).1 := by
      have hbody : (Stmt.restoreList body targets).1 = m.body := congrArg (fun restored => restored.1.body) hrestore
      rw [hbody]
      exact Module.ofText_wellFormed hm
    have htyped := module_wellTyped (between_startState none).topLevel hrun
    have hfile : m.file = file := Module.ofText_file hm
    obtain ⟨m', hread, hlines⟩ := Module.read_print_spell hwellFormed htyped hstandard hfinite hfile
    obtain ⟨body', s', hrun', hs', hbody'⟩ := repeats_from_start hrun hincludes hstandard hinfer hlines
    refine ⟨_, ofText_eq_ok hread hrun', Module.print_eq_of_spell hbody', ?_, fun name => ?_⟩
    · show s'.headers = s.headers
      rw [hs'.others]
    · exact hs'.global.lookup name (Pairing.shares_empty name)
  · cases hu

/-- A program that leaves out three types. -/
def twiceText : String := "def twice(k: int):\n    n = 2 * k\n    return n\nx = twice(3) * 1.5\n"

theorem ofText_print_twice : ∃ u u', ofText {} "t.cu" twiceText = .ok u ∧
    u.module.print = "def twice(k: int) -> int:\n    n: int = 2 * k\n" ++
      "    return n\nx: float = twice(3) * 1.5\n" ∧
    (∀ line ∈ u.module.body, ∀ path ∈ line.included?, findInclude {} none path = none) ∧
    (∀ x ∈ u.module.floats, x.isFinite = true) ∧ Stmt.AllMeet .standard u.module.body ∧
    Stmt.AllInferApart {} [] u.module.body ∧ ofText {} "t.cu" u.module.print = .ok u' ∧
    u'.module.print = u.module.print ∧ u'.headers = u.headers ∧
    ∀ name, u'.globals.lookup name = u.globals.lookup name := by
  have h : ((ofText {} "t.cu" twiceText).toOption.any fun u =>
      u.module.print == "def twice(k: int) -> int:\n    n: int = 2 * k\n" ++
        "    return n\nx: float = twice(3) * 1.5\n" &&
      decide ((∀ x ∈ u.module.floats, x.isFinite = true) ∧ Stmt.AllMeet .standard u.module.body ∧
        Stmt.AllInferApart {} [] u.module.body)) = true := by
    decide +kernel
  obtain ⟨u, hu, htest⟩ := exists_ok_of_any h
  rw [Bool.and_eq_true, beq_iff_eq, decide_eq_true_eq] at htest
  obtain ⟨hprint, hfinite, hstandard, hinfer⟩ := htest
  have hincludes : ∀ line ∈ u.module.body, ∀ path ∈ line.included?, findInclude {} none path = none :=
    fun _ _ _ _ => rfl
  obtain ⟨u', hu', hsame⟩ := ofText_print_checked hu hincludes hfinite hstandard hinfer
  exact ⟨u, u', hu, hprint, hincludes, hfinite, hstandard, hinfer, hu', hsame⟩

/-- The type of `NULL` has no written form, but an array of `NULL` has this type inside its own. -/
theorem nullItems_not_read : ∃ u, ofText {} "t.cu" "x = [NULL]\n" = .ok u ∧
    u.module.print = "x: NULL[1] = [NULL]\n" ∧ ∀ m, Module.ofText "t.cu" u.module.print ≠ .ok m := by
  have h : ((ofText {} "t.cu" "x = [NULL]\n").toOption.any fun u =>
      u.module.print == "x: NULL[1] = [NULL]\n") = true := by decide +kernel
  have hrefused : (Module.ofText "t.cu" "x: NULL[1] = [NULL]\n").toOption.isNone = true := by
    decide +kernel
  obtain ⟨u, hu, hprint⟩ := exists_ok_of_any h
  have hprint := beq_iff_eq.mp hprint
  refine ⟨u, hu, hprint, fun m hm => ?_⟩
  rw [← hprint, hm] at hrefused
  cases hrefused

end CheckedUnit

end Offside
