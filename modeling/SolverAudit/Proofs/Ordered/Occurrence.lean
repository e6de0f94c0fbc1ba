import Mathlib.Data.List.Induction
import Mathlib.Data.List.Nodup

/-!
# First occurrences

A list without its repetitions has its elements in the order in which they first occur.
-/

namespace SolverAudit

variable {α : Type} [BEq α] [LawfulBEq α] {xs : List α} {last first second : α}

theorem eraseDups_concat (xs : List α) (last : α) [Decidable (last ∈ xs)] :
    (xs ++ [last]).eraseDups = if last ∈ xs then xs.eraseDups else xs.eraseDups ++ [last] := by
  by_cases hlast : last ∈ xs
  · simp [List.eraseDups_append, List.removeAll, hlast]
  · simp [List.eraseDups_append, List.removeAll, List.eraseDups_cons, hlast]

theorem nodup_eraseDups (xs : List α) : xs.eraseDups.Nodup := by
  classical
  induction xs using List.reverseRecOn with
  | nil => exact List.nodup_nil
  | append_singleton xs last ih =>
      rw [eraseDups_concat]
      by_cases hlast : last ∈ xs
      · rwa [if_pos hlast]
      · rw [if_neg hlast, List.nodup_append']
        refine ⟨ih, List.nodup_singleton last, fun x hx hsame => hlast ?_⟩
        rw [List.mem_singleton] at hsame
        exact hsame ▸ List.mem_eraseDups.mp hx

theorem idxOf_concat_lt_iff (hlast : last ∉ xs) (hfirst : first ∈ xs ++ [last])
    (hsecond : second ∈ xs ++ [last]) :
    (xs ++ [last]).idxOf first < (xs ++ [last]).idxOf second ↔
      first ∈ xs ∧ (second ∈ xs → xs.idxOf first < xs.idxOf second) := by
  have hlt : ∀ x ∈ xs, xs.idxOf x < xs.length := fun x hx => List.idxOf_lt_length_iff.mpr hx
  simp only [List.mem_append, List.mem_singleton] at hfirst hsecond
  grind

/-- Of two elements the one that occurs first stands first. -/
theorem idxOf_eraseDups_lt_iff (hfirst : first ∈ xs) (hsecond : second ∈ xs) :
    xs.eraseDups.idxOf first < xs.eraseDups.idxOf second ↔ xs.idxOf first < xs.idxOf second := by
  classical
  induction xs using List.reverseRecOn with
  | nil => exact absurd hfirst List.not_mem_nil
  | append_singleton xs last ih =>
      rw [eraseDups_concat]
      by_cases hlast : last ∈ xs
      · have hmem : ∀ x ∈ xs ++ [last], x ∈ xs := fun x hx =>
          (List.mem_append.mp hx).elim id fun h => List.mem_singleton.mp h ▸ hlast
        have hfirst := hmem first hfirst
        have hsecond := hmem second hsecond
        rw [if_pos hlast, List.idxOf_append_of_mem hfirst, List.idxOf_append_of_mem hsecond,
          ih hfirst hsecond]
      · -- The last element is new, so it stands behind all others with and without repetitions.
        have hkept : ∀ x, x ∈ xs.eraseDups ↔ x ∈ xs := fun _ => List.mem_eraseDups
        have hkept' : ∀ x, x ∈ xs.eraseDups ++ [last] ↔ x ∈ xs ++ [last] :=
          fun x => by simp only [List.mem_append, hkept]
        rw [if_neg hlast, idxOf_concat_lt_iff hlast hfirst hsecond,
          idxOf_concat_lt_iff (mt (hkept last).mp hlast) ((hkept' first).mpr hfirst)
            ((hkept' second).mpr hsecond), hkept, hkept]
        exact and_congr_right fun h => forall_congr' fun h' => ih h h'

end SolverAudit
