import SolverAudit.Storage.Basic

/-!
# Joined paths

A path that is joined with the name of a file has the names of the path and that one behind them,
from the same place on.
-/

namespace SolverAudit

/-- A name that one entry of a directory can have. -/
structure IsFileName (name : String) : Prop where
  ne_empty : name ≠ ""
  noSlash : '/' ∉ name.toList
  noEnd : hasEnd name = false
  notDots : Storage.isDots name = false
  notTooLong : Storage.isTooLong name = false

namespace IsFileName

theorem end_not_mem {name : String} (h : IsFileName name) : '\x00' ∉ name.toList := by
  have hend := h.noEnd
  rwa [hasEnd, String.contains_char_eq, decide_eq_false_iff_not] at hend

theorem of_chars {name : String}
    (h : name ≠ "" ∧ '/' ∉ name.toList ∧ '\x00' ∉ name.toList ∧ Storage.isDots name = false
      ∧ Storage.isTooLong name = false) : IsFileName name where
  ne_empty := h.1
  noSlash := h.2.1
  noEnd := by
    rw [hasEnd, String.contains_char_eq, decide_eq_false_iff_not]
    exact h.2.2.1
  notDots := h.2.2.2.1
  notTooLong := h.2.2.2.2

instance (name : String) : Decidable (IsFileName name) :=
  decidable_of_iff _
    ⟨of_chars, fun h => ⟨h.ne_empty, h.noSlash, h.end_not_mem, h.notDots, h.notTooLong⟩⟩

end IsFileName

namespace Path

/-! ### Names -/

theorem names_append_slash (path rest : String) :
    names (path ++ "/" ++ rest) = names path ++ names rest := by
  have hsplit : (path ++ "/" ++ rest).toList = path.toList ++ '/' :: rest.toList := by simp
  simp only [names, List.splitOn, hsplit]
  rw [List.splitOnP_append_cons _ _ (by simp), List.map_append, List.filter_append]

theorem names_empty : names "" = [] := by decide

theorem names_of_isFileName {name : String} (hname : IsFileName name) : names name = [name] := by
  rw [names, List.splitOn_eq_singleton hname.noSlash, List.map_singleton, String.ofList_toList]
  simp [hname.ne_empty]

theorem isAbsolute_iff (path : String) : isAbsolute path = true ↔ ['/'] <+: path.toList :=
  String.startsWith_string_iff

theorem endsOpen_iff (path : String) : endsOpen path = true ↔ ['/'] <:+ path.toList := by
  rw [endsOpen, String.endsWith_eq_endsWith_toSlice, String.Slice.endsWith_string_iff,
    String.copy_toSlice]
  rfl

/-- What a path is joined with comes after a slash, if anything stands before it. -/
theorem exists_join_eq (directory name : String) :
    (directory = "" ∧ join directory name = name)
      ∨ ∃ front, (directory = front ∨ directory = front ++ "/") ∧ directory ≠ ""
          ∧ join directory name = front ++ "/" ++ name := by
  by_cases hempty : directory = ""
  · subst hempty
    exact .inl ⟨rfl, by simp [join]⟩
  · right
    by_cases hopen : endsOpen directory = true
    · obtain ⟨front, hfront⟩ := (endsOpen_iff directory).mp hopen
      have hdirectory : directory = String.ofList front ++ "/" := by
        rw [← String.toList_inj, ← hfront]
        simp
      refine ⟨String.ofList front, .inr hdirectory, hempty, ?_⟩
      rw [join, if_pos (by simp [hopen]), ← hdirectory]
    · refine ⟨directory, .inl rfl, hempty, ?_⟩
      rw [join, if_neg (by simp [hempty, hopen])]

section

variable {name : String} (hname : IsFileName name) (directory : String)

include hname

theorem names_join : names (join directory name) = names directory ++ [name] := by
  obtain ⟨rfl, hjoin⟩ | ⟨front, rfl | rfl, -, hjoin⟩ := exists_join_eq directory name
  · rw [hjoin, names_of_isFileName hname, names_empty, List.nil_append]
  · rw [hjoin, names_append_slash, names_of_isFileName hname]
  · have hfront := names_append_slash front ""
    rw [String.append_empty, names_empty, List.append_nil] at hfront
    rw [hjoin, names_append_slash, names_of_isFileName hname, hfront]

theorem isAbsolute_join : isAbsolute (join directory name) = isAbsolute directory := by
  have hhead : ¬ ['/'] <+: name.toList := fun hbelow =>
    hname.noSlash (hbelow.subset (List.mem_singleton_self _))
  rw [Bool.eq_iff_iff, isAbsolute_iff, isAbsolute_iff]
  obtain ⟨rfl, hjoin⟩ | ⟨front, rfl | rfl, hempty, hjoin⟩ := exists_join_eq directory name
  · simp [hjoin, hhead]
  · have hnil : directory.toList ≠ [] := fun h => hempty (String.toList_eq_nil_iff.mp h)
    obtain ⟨c, rest, hfront⟩ := List.exists_cons_of_ne_nil hnil
    simp [hjoin, hfront]
  · rcases hfront : front.toList with _ | ⟨c, rest⟩ <;> simp [hjoin, hfront]

theorem endsOpen_join : endsOpen (join directory name) = false := by
  have hlast : ∀ front : List Char, ¬ ['/'] <:+ front ++ name.toList := by
    intro front hsuffix
    have hnil : name.toList ≠ [] := fun h => hname.ne_empty (String.toList_eq_nil_iff.mp h)
    obtain ⟨rest, c, hsplit⟩ := List.eq_nil_or_concat name.toList |>.resolve_left hnil
    rw [hsplit, List.concat_eq_append, ← List.append_assoc] at hsuffix
    obtain rfl : c = '/' := by
      obtain ⟨front', heq⟩ := hsuffix
      exact (List.singleton_inj.mp (List.append_inj' heq rfl).2).symm
    exact hname.noSlash (by rw [hsplit]; simp)
  rw [Bool.eq_false_iff, ne_eq, endsOpen_iff]
  obtain ⟨rfl, hjoin⟩ | ⟨front, -, -, hjoin⟩ := exists_join_eq directory name
  · rw [hjoin]
    exact hlast []
  · rw [hjoin, String.toList_append]
    exact hlast _

theorem hasEnd_join : hasEnd (join directory name) = hasEnd directory := by
  have hnone := hname.end_not_mem
  rw [hasEnd, hasEnd, String.contains_char_eq, String.contains_char_eq]
  obtain ⟨rfl, hjoin⟩ | ⟨front, rfl | rfl, -, hjoin⟩ := exists_join_eq directory name <;>
    simp [hjoin, hnone]

omit hname in
theorem utf8ByteSize_join_le (name : String) :
    (join directory name).utf8ByteSize ≤ directory.utf8ByteSize + 1 + name.utf8ByteSize := by
  rw [join]
  split
  · rw [String.utf8ByteSize_append]
    omega
  · rw [String.utf8ByteSize_append, String.utf8ByteSize_append]
    exact Nat.le_refl _

theorem mem_components_join : name ∈ components (join directory name) := by
  have hnotDot : name ≠ "." := by
    rintro rfl
    exact absurd hname.notDots (by decide)
  rw [components, names_join hname]
  split
  · rename_i rest hnames
    have hrest : name ∈ rest := by
      have hmem : name ∈ "." :: rest := hnames ▸ by simp
      exact (List.mem_cons.mp hmem).resolve_left hnotDot
    exact List.mem_append_right _ (List.mem_filter.mpr ⟨hrest, by simpa using hnotDot⟩)
  · exact List.mem_filter.mpr ⟨by simp, by simpa using hnotDot⟩

/-- The innermost of the directories on a path is the one that the path itself names. -/
theorem exists_ancestors_join :
    ∃ above, ancestors (join directory name) = join directory name :: above := by
  have hmem := mem_components_join hname directory
  rw [ancestors]
  split
  · rename_i hnone
    rw [hnone] at hmem
    cases hmem
  · exact ⟨_, rfl⟩

end

end Path

end SolverAudit
