import SolverAudit.Proofs.Result
import SolverAudit.Proofs.Text.Blank
import SolverAudit.Status.Line

/-!
# Relevant lines

The numbers of the lines only matter for the wording of failures. Reading the lines of an output
succeeds exactly when reading the relevant ones, without their numbers, does.
-/

namespace SolverAudit

namespace Status

def rows (output : String) : List (List Char) :=
  (relevantLines output.toList).map Prod.fst

theorem rows_eq_filter (output : String) :
    rows output = ((lines output.toList).map trimEnd).filter isRelevant := by
  have hnumbers : ∀ (l : List (List Char)) (n : Nat),
      ((l.zipIdx n).filter (isRelevant ∘ Prod.fst)).map Prod.fst = l.filter isRelevant := by
    intro l n
    rw [← List.filter_map, List.zipIdx_map_fst]
  exact hnumbers _ 1

/-! ### Blanks at the end of an output -/

theorem relevantLines_unlines_append {rows : List (List Char)} (hrows : ∀ row ∈ rows, '\n' ∉ row)
    {last : List Char} (hlast : '\n' ∉ last) :
    relevantLines (unlines rows ++ last) =
      (((rows ++ [last]).map trimEnd).zipIdx 1).filter fun (line, _) => isRelevant line := by
  rw [relevantLines, lines_unlines_append hrows hlast]

/-- A blank at the end is trimmed from the last line, or starts an empty line, which is not
relevant. -/
theorem relevantLines_concat_blank {c : Char} (hc : isBlank c = true) (text : List Char) :
    relevantLines (text ++ [c]) = relevantLines text := by
  obtain ⟨rows, last, hrows, hlast, rfl⟩ := exists_unlines_append text
  by_cases hnewline : c = '\n'
  · have htext : unlines rows ++ last ++ [c] = unlines (rows ++ [last]) ++ [] := by
      simp [unlines, hnewline]
    have hall : ∀ row ∈ rows ++ [last], '\n' ∉ row :=
      List.forall_mem_append.mpr ⟨hrows, List.forall_mem_singleton.mpr hlast⟩
    have hempty : isRelevant (trimEnd []) = false := rfl
    rw [htext, relevantLines_unlines_append hall List.not_mem_nil,
      relevantLines_unlines_append hrows hlast, List.map_append, List.zipIdx_append,
      List.filter_append]
    simp [hempty]
  · have hlast' : '\n' ∉ last ++ [c] := by
      simpa [hlast] using fun hsame => hnewline hsame.symm
    rw [List.append_assoc, relevantLines_unlines_append hrows hlast',
      relevantLines_unlines_append hrows hlast, List.map_append, List.map_append,
      List.map_singleton, List.map_singleton, trimEnd_concat_of_isBlank hc]

theorem relevantLines_append_blanks {blanks : List Char} (hblanks : ∀ c ∈ blanks, isBlank c = true)
    (text : List Char) : relevantLines (text ++ blanks) = relevantLines text := by
  induction blanks generalizing text with
  | nil => rw [List.append_nil]
  | cons c blanks ih =>
      obtain ⟨hc, hblanks⟩ := List.forall_mem_cons.mp hblanks
      rw [List.append_cons, ih hblanks, relevantLines_concat_blank hc]

/-! ### Reading without numbers -/

variable {α : Type} {readLine : α → List Char → Except Fault α}

theorem readNumbered_eq_ok {progress progress' : α} {line : List Char} {number : Nat} :
    readNumbered readLine progress (line, number) = .ok progress' ↔
      readLine progress line = .ok progress' := by
  rw [readNumbered, during, orFail, mapError_eq_ok, mapError_eq_ok]

/-- **Only the relevant lines count.** -/
theorem readLines_eq_ok {start finish : α} {output : String} :
    readLines readLine start output = .ok finish ↔
      (rows output).foldlM readLine start = .ok finish := by
  have hfold : ∀ (l : List (List Char × Nat)) (start : α),
      l.foldlM (readNumbered readLine) start = .ok finish ↔
        (l.map Prod.fst).foldlM readLine start = .ok finish := by
    intro l
    induction l with
    | nil => exact fun start => by simp [pure, Except.pure]
    | cons row rest ih =>
        intro start
        obtain ⟨line, number⟩ := row
        simp only [List.foldlM_cons, List.map_cons, bind_eq_ok, readNumbered_eq_ok, ih]
  exact hfold (relevantLines output.toList) start

end Status

end SolverAudit
