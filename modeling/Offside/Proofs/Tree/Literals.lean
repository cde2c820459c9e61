import Offside.Proofs.Tree.Written
import Offside.Proofs.Token.Lines

/-! Literals survive being written.

A literal that was found in a text is written as a text that holds this literal and nothing else. Of the
doubles this is true unless a numeral was too great and stands for infinity, whose text is a name. -/
namespace Offside

open Number List

/-- The expression that a literal stands for, by itself. -/
def TokenKind.literal? (m : ExprMark) : TokenKind → Option Expr
  | int n => some (.int m n)
  | float x => some (.float m x)
  | char c => some (.char m c)
  | string s => some (.string m s)
  | _ => none

/-- A literal that a text can hold is spelled as it is printed. -/
theorem TokenKind.Genuine.spelled {kind : TokenKind} {m : ExprMark} {e : Expr} (h : kind.Genuine)
    (hfinite : kind ≠ .float Double.infinity) (he : kind.literal? m = some e) :
    Spelled e.print.toList kind [] := by
  cases kind with
  | int n =>
    cases he
    exact .int h trivial
  | float x =>
    cases he
    exact Double.text_spelled (Double.Readable.plain h fun hx => hfinite (congrArg _ hx)) trivial
  | char c =>
    cases he
    show Spelled (quoted '\'' [c]).toList _ _
    rw [quoted, String.toList_ofList]
    exact .char h
  | string s =>
    cases he
    show Spelled (quoted '"' s.toList).toList _ _
    rw [quoted, String.toList_ofList]
    exact .string s fun c hc => absurd hc (Option.not_mem_none c)
  | identifier | keyword | symbol | whitespace | newline | indent | dedent | endOfFile => cases he

namespace Scanner

variable {file : String} {s : Scanner} {t : Token}

theorem genuine_of_mem_run (fuel : Nat) (h : .ok t ∈ (run fuel s).1) : t.kind.Genuine := by
  induction fuel generalizing s with
  | zero => cases h
  | succ fuel ih =>
    unfold run at h
    cases hnext : s.next with
    | mk outcome after =>
    rw [hnext] at h
    cases outcome with
    | error failure =>
      obtain h | h := mem_cons.mp h
      · cases h
      · exact ih h
    | ok first =>
      dsimp only at h
      split at h
      · cases mem_singleton.mp h
        exact (next_genuine hnext).1
      · obtain h | h := mem_cons.mp h
        · cases h
          exact (next_genuine hnext).1
        · exact ih h

/-- A text that spells one token has this token and its end. -/
theorem all_spelled {text : String} {kind : TokenKind} (h : Spelled text.toList kind []) :
    ∃ span stop, (ofText file text).all.1 = [.ok ⟨kind, span⟩, .ok ⟨.endOfFile, stop⟩] := by
  have hrest : (ofText file text).rest = text.toList ++ [] := by
    rw [append_nil]
    exact foldLineEnds_eq_self fun c hc => (h.clean c hc).2
  obtain ⟨span, after, hnext, hafter, _⟩ := next_spelled hrest h
  obtain ⟨c, more, hcons, _⟩ := h.start
  have hsolid := h.substance
  have hne : kind ≠ .endOfFile := by
    rintro rfl
    cases hsolid
  obtain ⟨stop, last, hend⟩ := next_end hafter
  refine ⟨span, stop, ?_⟩
  unfold all
  rw [hrest, hcons]
  simp [run, hnext, hne, hend]

/-- Infinity is printed as a name. -/
theorem all_infinity (file : String) (m : ExprMark) : ∃ span stop,
    (ofText file (Expr.float m Double.infinity).print).all.1 = [.ok ⟨.identifier "inf", span⟩, .ok ⟨.endOfFile, stop⟩] := by
  have htext : Double.infinity.text = "inf" := by decide
  have hspelled : Spelled Double.infinity.text.toList (.identifier "inf") [] := by
    rw [htext]
    exact .name (by decide) trivial
  exact all_spelled hspelled

/-- **Literals survive printing.** Of all literals that the scanner finds in a text, exactly those other
than infinity are found again, with the end of the file and nothing else, in what they are printed as. -/
theorem literal_survives_iff {text : String} (ht : .ok t ∈ (ofText file text).all.1) {m : ExprMark} {e : Expr}
    (he : t.kind.literal? m = some e) (file' : String) :
    (∃ span stop, (ofText file' e.print).all.1 = [.ok ⟨t.kind, span⟩, .ok ⟨.endOfFile, stop⟩]) ↔
      t.kind ≠ .float Double.infinity := by
  constructor
  · rintro ⟨span, stop, hall⟩ hkind
    rw [hkind] at he hall
    cases he
    obtain ⟨_, _, hname⟩ := all_infinity file' m
    rw [hname] at hall
    cases hall
  · exact fun hfinite => all_spelled ((genuine_of_mem_run _ ht).spelled hfinite he)

/-- A string with a tabulator, written with an escape. -/
theorem literal_survives_tab : ∃ t : Token, .ok t ∈ (ofText "t.cu" "puts(\"\"\"a\tb\"\"\")").all.1 ∧
    t.kind.literal? default = some (.string default "a\tb") ∧ t.kind ≠ .float Double.infinity ∧
    ∃ span stop, (ofText "u.cu" (Expr.string default "a\tb").print).all.1 =
      [.ok ⟨t.kind, span⟩, .ok ⟨.endOfFile, stop⟩] := by
  have ht : .ok ⟨.string "a\tb", ⟨⟨"t.cu", ⟨1, 6⟩⟩, ⟨"t.cu", ⟨1, 15⟩⟩⟩⟩ ∈
      (ofText "t.cu" "puts(\"\"\"a\tb\"\"\")").all.1 := .tail _ (.tail _ (.head _))
  have hfinite : TokenKind.string "a\tb" ≠ .float Double.infinity := by decide
  exact ⟨_, ht, rfl, hfinite, (literal_survives_iff ht rfl "u.cu").mpr hfinite⟩

/-- A numeral that is too great is found as infinity, and what it is printed as is a name. -/
theorem literal_lost : ∃ t : Token, .ok t ∈ (ofText "t.cu" "1e999").all.1 ∧ t.kind = .float Double.infinity ∧
    (ofText "t.cu" (Expr.float default Double.infinity).print).all.1 =
      [.ok ⟨.identifier "inf", ⟨⟨"t.cu", ⟨1, 1⟩⟩, ⟨"t.cu", ⟨1, 4⟩⟩⟩⟩,
        .ok ⟨.endOfFile, ⟨⟨"t.cu", ⟨1, 4⟩⟩, ⟨"t.cu", ⟨1, 4⟩⟩⟩⟩] :=
  ⟨⟨.float Double.infinity, ⟨⟨"t.cu", ⟨1, 1⟩⟩, ⟨"t.cu", ⟨1, 6⟩⟩⟩⟩, .head _, rfl, rfl⟩

end Scanner

end Offside
