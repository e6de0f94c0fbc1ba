import SolverAudit.Proofs.Answer.Ending
import SolverAudit.Proofs.Status.Line
import SolverAudit.Session.Basic

/-!
# Kept outputs

A session keeps an output without the blanks at its end and with a line feed there. Neither the
lines that count nor the tokens of an answer change by that, so a failure can be looked into with
the kept output: checking it comes to the same outcome.
-/

namespace SolverAudit

open Answer

/-- Two checks succeed, fail for the same reason, or cannot be made for reasons of the same kind. -/
inductive SameOutcome : Except Failure Verdict → Except Failure Verdict → Prop where
  | success : SameOutcome (.ok .success) (.ok .success)
  | failure (discrepancy : Discrepancy) :
      SameOutcome (.ok (.failure discrepancy)) (.ok (.failure discrepancy))
  | error {failure failure' : Failure} (hkind : failure.kind = failure'.kind) :
      SameOutcome (.error failure) (.error failure')

theorem SameOutcome.refl (outcome : Except Failure Verdict) : SameOutcome outcome outcome := by
  rcases outcome with failure | _ | discrepancy
  · exact .error rfl
  · exact .success
  · exact .failure discrepancy

namespace Session

theorem toList_kept (output : String) : (kept output).toList = trimEnd output.toList ++ ['\n'] :=
  String.toList_ofList

theorem isBlank_newline : ∀ c ∈ ['\n'], isBlank c = true :=
  List.forall_mem_singleton.mpr rfl

/-! ### Solvers of formulas -/

theorem relevantLines_kept (output : String) :
    Status.relevantLines (kept output).toList = Status.relevantLines output.toList := by
  obtain ⟨blanks, hblanks, houtput⟩ := exists_eq_trimEnd_append output.toList
  calc
    Status.relevantLines (kept output).toList =
        Status.relevantLines (trimEnd output.toList) := by
      rw [toList_kept, Status.relevantLines_append_blanks isBlank_newline]
    _ = Status.relevantLines (trimEnd output.toList ++ blanks) :=
      (Status.relevantLines_append_blanks hblanks _).symm
    _ = Status.relevantLines output.toList := by rw [← houtput]

theorem readLines_kept {α : Type} (readLine : α → List Char → Except Status.Fault α) (start : α)
    (output : String) :
    Status.readLines readLine start (kept output) = Status.readLines readLine start output := by
  rw [Status.readLines, relevantLines_kept, Status.readLines]

/-! ### Solvers of frameworks -/

theorem trim_ofText_kept (output : String) :
    (Layout.ofText (kept output).toList).trim = (Layout.ofText output.toList).trim := by
  obtain ⟨blanks, hblanks, houtput⟩ := exists_eq_trimEnd_append output.toList
  calc
    (Layout.ofText (kept output).toList).trim = (Layout.ofText (trimEnd output.toList)).trim := by
      rw [toList_kept, Layout.trim_ofText_append isBlank_newline]
    _ = (Layout.ofText (trimEnd output.toList ++ blanks)).trim :=
      (Layout.trim_ofText_append hblanks _).symm
    _ = (Layout.ofText output.toList).trim := by rw [← houtput]

variable {α : Type} {reader : Reader α}

theorem read_kept_eq_ok (hreader : IgnoresEnd reader) {activity output : String} {value : α} :
    Dialect.read activity reader (kept output) = .ok value ↔
      Dialect.read activity reader output = .ok value := by
  simp only [Dialect.read, readText, mapError_eq_ok]
  exact ⟨hreader.whole_eq_ok (trim_ofText_kept output),
    hreader.whole_eq_ok (trim_ofText_kept output).symm⟩

theorem sameOutcome_of_ignoresEnd (hreader : IgnoresEnd reader) (activity output : String)
    (judge : α → Verdict) :
    SameOutcome ((Dialect.read activity reader (kept output)).map judge)
      ((Dialect.read activity reader output).map judge) := by
  cases hread : Dialect.read activity reader output with
  | ok value =>
      rw [(read_kept_eq_ok hreader).mpr hread]
      exact .refl _
  | error failure =>
      cases hkept : Dialect.read activity reader (kept output) with
      | ok value =>
          rw [read_kept_eq_ok hreader, hread] at hkept
          cases hkept
      | error failure' =>
          exact .error ((Dialect.kind_of_read_eq_error hkept).trans
            (Dialect.kind_of_read_eq_error hread).symm)

theorem ignoresEnd_setReader (dialect : Dialect) : IgnoresEnd dialect.setReader := by
  cases dialect with
  | iccma17 => exact ignoresEnd_flatSet
  | iccma19 => exact ignoresEnd_lineSet

/-- **A kept output reproduces the outcome.** For every checker, instance and dialect, checking what
is kept of an output comes to the same outcome as checking the output itself. -/
theorem check_kept_sameOutcome (checker : Checker) (x : checker.problem.Instance)
    (dialect : Dialect) (output : String) :
    SameOutcome (checker.check x dialect (kept output)) (checker.check x dialect output) := by
  cases checker with
  | framework query =>
      cases query with
      | enumeration =>
          rw [Checker.check, Framework.check, Checker.check, Framework.check]
          exact sameOutcome_of_ignoresEnd (ignoresEnd_setReader dialect) _ output _
      | single =>
          rw [Checker.check, Framework.check, Checker.check, Framework.check]
          exact sameOutcome_of_ignoresEnd ignoresEnd_extension _ output _
      | credulous | skeptical =>
          rw [Checker.check, Framework.check, Checker.check, Framework.check]
          exact sameOutcome_of_ignoresEnd ignoresEnd_statuses _ output _
  | satisfiability =>
      rw [Checker.check, Formula.check, Status.readSatisfiability, readLines_kept]
      exact .refl _
  | counting =>
      rw [Checker.check, CountingProblem.check, Status.readCount, readLines_kept]
      exact .refl _
  | weightedCounting =>
      rw [Checker.check, WeightedCountingProblem.check, Status.readCount, readLines_kept]
      exact .refl _

end Session

end SolverAudit
