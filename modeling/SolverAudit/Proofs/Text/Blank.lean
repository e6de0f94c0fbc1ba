import Mathlib.Data.List.DropRight
import SolverAudit.Text.Basic

/-!
# Lines and words

Lines that were written come back when they are read, and words are separated by any run of blanks.
Blanks at the end of a text only add to its last line or start lines without any content.
-/

namespace SolverAudit

/-! ### Lines -/

theorem lines_unlines_append {rows : List (List Char)} (hrows : ∀ row ∈ rows, '\n' ∉ row)
    {last : List Char} (hlast : '\n' ∉ last) : lines (unlines rows ++ last) = rows ++ [last] := by
  induction rows with
  | nil => exact List.splitOn_eq_singleton hlast
  | cons row rows ih =>
      obtain ⟨hrow, hrest⟩ := List.forall_mem_cons.mp hrows
      calc
        lines (unlines (row :: rows) ++ last) =
            (row ++ '\n' :: (unlines rows ++ last)).splitOn '\n' := by simp [lines, unlines]
        _ = row :: lines (unlines rows ++ last) := List.splitOn_append_cons_self_of_not_mem hrow _
        _ = row :: rows ++ [last] := by rw [ih hrest, List.cons_append]

theorem lines_unlines {rows : List (List Char)} (hrows : ∀ row ∈ rows, '\n' ∉ row) :
    lines (unlines rows) = rows ++ [[]] := by
  simpa using lines_unlines_append hrows (List.not_mem_nil : '\n' ∉ [])

/-- The lines of a text in which every line is finished. -/
def finishedLines? (text : List Char) : Option (List (List Char)) :=
  if (lines text).getLast? = some [] then some (lines text).dropLast else none

theorem finishedLines?_unlines {rows : List (List Char)} (hrows : ∀ row ∈ rows, '\n' ∉ row) :
    finishedLines? (unlines rows) = some rows := by
  rw [finishedLines?, lines_unlines hrows, List.getLast?_concat, if_pos rfl, List.dropLast_concat]

theorem unlines_inj {rows rows' : List (List Char)} (hrows : ∀ row ∈ rows, '\n' ∉ row)
    (hrows' : ∀ row ∈ rows', '\n' ∉ row) : unlines rows = unlines rows' ↔ rows = rows' := by
  refine ⟨fun hsame => ?_, congrArg unlines⟩
  have hlines := congrArg finishedLines? hsame
  rw [finishedLines?_unlines hrows, finishedLines?_unlines hrows'] at hlines
  exact Option.some.inj hlines

/-- Every text is made of finished lines and a last one that is not. -/
theorem exists_unlines_append (text : List Char) :
    ∃ rows last, (∀ row ∈ rows, '\n' ∉ row) ∧ '\n' ∉ last ∧ text = unlines rows ++ last := by
  induction text with
  | nil => exact ⟨[], [], by simp, List.not_mem_nil, rfl⟩
  | cons c text ih =>
      obtain ⟨rows, last, hrows, hlast, rfl⟩ := ih
      by_cases hc : c = '\n'
      · exact ⟨[] :: rows, last, List.forall_mem_cons.mpr ⟨List.not_mem_nil, hrows⟩, hlast,
          by simp [hc, unlines]⟩
      · have hjoin : ∀ row : List Char, '\n' ∉ row → '\n' ∉ c :: row := fun row hrow hmem =>
          (List.mem_cons.mp hmem).elim (fun hsame => hc hsame.symm) hrow
        rcases rows with _ | ⟨row, rows⟩
        · exact ⟨[], c :: last, hrows, hjoin last hlast, rfl⟩
        · obtain ⟨hrow, hrest⟩ := List.forall_mem_cons.mp hrows
          exact ⟨(c :: row) :: rows, last, List.forall_mem_cons.mpr ⟨hjoin row hrow, hrest⟩, hlast,
            rfl⟩

/-! ### Blanks at the end -/

theorem trimEnd_concat {text : List Char} {c : Char} (hc : isBlank c = false) :
    trimEnd (text ++ [c]) = text ++ [c] := by
  simp [trimEnd, hc]

theorem trimEnd_concat_of_isBlank {c : Char} (hc : isBlank c = true) (text : List Char) :
    trimEnd (text ++ [c]) = trimEnd text :=
  List.rdropWhile_concat_pos isBlank text c hc

theorem exists_eq_trimEnd_append (text : List Char) :
    ∃ blanks, (∀ c ∈ blanks, isBlank c = true) ∧ text = trimEnd text ++ blanks :=
  ⟨text.rtakeWhile isBlank, fun _ hc => List.mem_rtakeWhile_imp hc,
    (List.rdropWhile_append_rtakeWhile ..).symm⟩

/-! ### Blanks and digits -/

theorem toNat_of_isBlank {c : Char} (hc : isBlank c = true) :
    c.toNat ∈ List.range' 9 5 ++ [0x20, 0x85, 0xA0, 0x1680] ++ List.range' 0x2000 11 ++
      [0x2028, 0x2029, 0x202F, 0x205F, 0x3000] := by
  simp only [isBlank, Bool.or_eq_true, Bool.and_eq_true, decide_eq_true_eq, beq_iff_eq] at hc
  simp only [List.mem_append, List.mem_range'_1, List.mem_cons, List.not_mem_nil]
  omega

theorem isDecimalDigit_of_isBlank {c : Char} (hc : isBlank c = true) :
    isDecimalDigit c = false := by
  have hseparate : ∀ n ∈ List.range' 9 5 ++ [0x20, 0x85, 0xA0, 0x1680] ++ List.range' 0x2000 11 ++
      [0x2028, 0x2029, 0x202F, 0x205F, 0x3000],
      (decimalZeros.any fun first => first ≤ n && n < first + 10) = false := by
    decide
  exact hseparate _ (toNat_of_isBlank hc)

/-! ### Words -/

variable {separates : Char → Bool}

theorem wordsBy_cons {c : Char} (hc : separates c = true) (text : List Char) :
    wordsBy separates (c :: text) = wordsBy separates text := by
  have hsplit : (c :: text).splitOnP separates = [] :: text.splitOnP separates := by
    simpa using List.splitOnP_append_cons [] text hc
  rw [wordsBy, wordsBy, hsplit]
  rfl

theorem wordsBy_append_cons {word : List Char} (hword : ∀ c ∈ word, separates c = false)
    (hsome : word ≠ []) {c : Char} (hc : separates c = true) (text : List Char) :
    wordsBy separates (word ++ c :: text) = word :: wordsBy separates text := by
  rw [wordsBy, wordsBy, List.splitOnP_append_cons_of_forall_mem hword c hc,
    List.filter_cons_of_pos (by simpa using hsome)]

theorem wordsBy_gap_append {gap : List Char} (hgap : ∀ c ∈ gap, separates c = true)
    (text : List Char) : wordsBy separates (gap ++ text) = wordsBy separates text := by
  induction gap with
  | nil => rfl
  | cons c gap ih =>
      obtain ⟨hc, hrest⟩ := List.forall_mem_cons.mp hgap
      rw [List.cons_append, wordsBy_cons hc, ih hrest]

theorem wordsBy_of_gap {gap : List Char} (hgap : ∀ c ∈ gap, separates c = true) :
    wordsBy separates gap = [] := by
  rw [← List.append_nil gap, wordsBy_gap_append hgap]
  rfl

/-- A word in front of a text that does not continue it. -/
theorem wordsBy_word_append {word ending : List Char} (hword : ∀ c ∈ word, separates c = false)
    (hsome : word ≠ []) (hends : ∀ c ∈ ending.head?, separates c = true) :
    wordsBy separates (word ++ ending) = word :: wordsBy separates ending := by
  cases ending with
  | nil =>
      rw [List.append_nil, wordsBy, List.splitOnP_eq_singleton hword,
        List.filter_cons_of_pos (by simpa using hsome)]
      rfl
  | cons c rest =>
      have hc : separates c = true := hends c rfl
      rw [wordsBy_append_cons hword hsome hc, wordsBy_cons hc]

/-- A text without words is a gap, and the first word of any other one stands behind a gap. -/
theorem gap_or_exists_word (separates : Char → Bool) (text : List Char) :
    (∀ c ∈ text, separates c = true) ∨
      ∃ gap word ending, text = gap ++ (word ++ ending) ∧ (∀ c ∈ gap, separates c = true)
        ∧ word ≠ [] ∧ (∀ c ∈ word, separates c = false)
        ∧ ∀ c ∈ ending.head?, separates c = true := by
  cases hrest : text.dropWhile separates with
  | nil => exact .inl (List.dropWhile_eq_nil_iff.mp hrest)
  | cons c rest =>
      have hc : separates c = false := by
        have hhead := List.head?_dropWhile_not separates text
        rw [hrest] at hhead
        exact hhead
      refine .inr ⟨text.takeWhile separates, (c :: rest).takeWhile (!separates ·),
        (c :: rest).dropWhile (!separates ·), ?_, fun d hd => List.mem_takeWhile_imp hd, ?_,
        fun d hd => by simpa using List.mem_takeWhile_imp hd, fun d hd => ?_⟩
      · rw [List.takeWhile_append_dropWhile, ← hrest, List.takeWhile_append_dropWhile]
      · simp [hc]
      · have hhead := List.head?_dropWhile_not (!separates ·) (c :: rest)
        rw [Option.mem_def.mp hd] at hhead
        simpa using hhead

theorem wordsBy_eq_nil_iff {text : List Char} :
    wordsBy separates text = [] ↔ ∀ c ∈ text, separates c = true := by
  refine ⟨fun h => ?_, wordsBy_of_gap⟩
  rcases gap_or_exists_word separates text with
    hgap | ⟨gap, word, ending, rfl, hgap, hsome, hword, hends⟩
  · exact hgap
  · rw [wordsBy_gap_append hgap, wordsBy_word_append hword hsome hends] at h
    cases h

end SolverAudit
