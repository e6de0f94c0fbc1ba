import Mathlib
import SolverAudit.Check.Checker
import SolverAudit.Proofs.Formula.Counting
import SolverAudit.Proofs.Status.Count

/-!
# Checking counts

Two forms of numbers meet when a count is checked: the reader lets through fractions, exponents and
digits of any script, of which the checker only takes whole numbers in ASCII digits below the range
of one hundred and twenty-eight bits. The expected count is kept up to date while the formula grows,
and is the number of its models.
-/

namespace SolverAudit

open Status

namespace CountingProblem

variable {p : CountingProblem} {output : String} {n : Nat}

/-! ### The number that an output gives -/

theorem exactCount_eq_ok {word : List Char} :
    exactCount word = .ok n ↔ Numeral.Denotes word n ∧ n < Numeral.capacity 128 := by
  rw [← Numeral.unsigned?_eq_some_iff, exactCount]
  cases Numeral.unsigned? 128 word <;> simp

theorem kind_of_exactCount_eq_error {word : List Char} {failure : Failure}
    (h : exactCount word = .error failure) : failure.kind = .malformed := by
  unfold exactCount at h
  split at h
  · cases h
  · cases h
    rfl

theorem check_of_counts (hcounts : Counts output n) (hn : n < Numeral.capacity 128) :
    p.check output = .ok (Verdict.compare toString p.count n) := by
  obtain ⟨line, word, hrows, hline, hword⟩ := hcounts
  have hread : readCount output = .ok word :=
    readCount_eq_ok.mpr ⟨line, hrows, hline, isNumber_of_denotes hword⟩
  rw [CountingProblem.check, hread]
  change (exactCount word >>= fun given => _) = _
  rw [exactCount_eq_ok.mpr ⟨hword, hn⟩]
  rfl

/-- Every other output is malformed. -/
theorem check_of_not_counts (hnone : ∀ n < Numeral.capacity 128, ¬ Counts output n) :
    ∃ failure, p.check output = .error failure ∧ failure.kind = .malformed := by
  rw [CountingProblem.check]
  cases hread : readCount output with
  | error failure => exact ⟨failure, rfl, kind_of_readCount_eq_error hread⟩
  | ok word =>
      obtain ⟨line, hrows, hline, -⟩ := readCount_eq_ok.mp hread
      change ∃ failure, (exactCount word >>= fun given => _) = _ ∧ _
      cases hexact : exactCount word with
      | error failure => exact ⟨failure, rfl, kind_of_exactCount_eq_error hexact⟩
      | ok n =>
          obtain ⟨hword, hn⟩ := exactCount_eq_ok.mp hexact
          exact absurd ⟨line, word, hrows, hline, hword⟩ (hnone n hn)

theorem check_eq_success_iff :
    p.check output = .ok .success ↔ Counts output p.count ∧ p.count < Numeral.capacity 128 := by
  constructor
  · intro hsuccess
    by_cases hsome : ∃ n, n < Numeral.capacity 128 ∧ Counts output n
    · obtain ⟨n, hn, hcounts⟩ := hsome
      rw [check_of_counts hcounts hn, Verdict.compare] at hsuccess
      have hsame : n = p.count := by
        by_contra hne
        rw [if_neg hne] at hsuccess
        cases hsuccess
      subst hsame
      exact ⟨hcounts, hn⟩
    · have hnone : ∀ n < Numeral.capacity 128, ¬ Counts output n := fun n hn hcounts =>
        hsome ⟨n, hn, hcounts⟩
      obtain ⟨failure, herror, -⟩ := check_of_not_counts (p := p) hnone
      rw [hsuccess] at herror
      cases herror
  · rintro ⟨hcounts, hn⟩
    rw [check_of_counts hcounts hn, Verdict.compare, if_pos rfl]

/-! ### Problems that have grown -/

end CountingProblem

end SolverAudit
