import Mathlib.Tactic.Common
import SolverAudit.Formula.Dimacs
import SolverAudit.Proofs.Text.Blank
import SolverAudit.Proofs.Text.Numeral

/-!
# Written literals

A line of literals is made of signs, digits and spaces. Its words are the texts of the literals and
the zero at the end.
-/

namespace SolverAudit

theorem isAsciiBlank_of_isDigit {c : Char} (hc : c.isDigit = true) : isAsciiBlank c = false := by
  by_contra hblank
  simp only [isAsciiBlank, Bool.not_eq_false, Bool.or_eq_true, beq_iff_eq] at hblank
  rcases hblank with (((rfl | rfl) | rfl) | rfl) | rfl <;> exact absurd hc (by decide)

theorem Literal.isAsciiBlank_of_mem_text {l : Literal} {c : Char} (hc : c ∈ l.text) :
    isAsciiBlank c = false := by
  rcases mem_text hc with rfl | hdigit
  · rfl
  · exact isAsciiBlank_of_isDigit hdigit

namespace Dimacs

theorem words_zeroTerminated (ls : List Literal) :
    wordsBy isAsciiBlank (zeroTerminated ls) = ls.map Literal.text ++ [['0']] := by
  induction ls with
  | nil => rfl
  | cons l ls ih =>
      calc
        wordsBy isAsciiBlank (zeroTerminated (l :: ls))
            = wordsBy isAsciiBlank (l.text ++ ' ' :: zeroTerminated ls) := by
          simp [zeroTerminated]
        _ = l.text :: wordsBy isAsciiBlank (zeroTerminated ls) :=
          wordsBy_append_cons (fun _ hc => Literal.isAsciiBlank_of_mem_text hc) l.text_ne_nil rfl _
        _ = (l :: ls).map Literal.text ++ [['0']] := by rw [ih, List.map_cons, List.cons_append]

theorem newline_not_mem_zeroTerminated (ls : List Literal) : '\n' ∉ zeroTerminated ls := by
  have htext : ∀ l : Literal, '\n' ∉ l.text := fun l hmem =>
    absurd (Literal.isAsciiBlank_of_mem_text hmem) (by decide)
  simp [zeroTerminated, htext]

end Dimacs

end SolverAudit
