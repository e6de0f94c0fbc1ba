import Mathlib.Data.List.Nodup
import SolverAudit.Proofs.Storage.Basic

/-!
# Folders

A folder is a directory with files of some names in it and nothing else. Files that are put into it
once more count only as they were put last, and a folder that is taken away leaves no trace.
-/

namespace SolverAudit.Storage

/-- The storage with files of the given names and contents, put one after the other. -/
def putFiles (s : Storage) (place : Place) (files : List (String × String)) : Storage :=
  files.foldl (fun s file => s.put (place ++ [file.1]) (.file file.2)) s

/-- The storage with a directory and files in it. -/
def withFolder (s : Storage) (place : Place) (files : List (String × String)) : Storage :=
  (s.put place .directory).putFiles place files

variable {s : Storage} {place other : Place} {files files' : List (String × String)}

/-! ### Putting files -/

theorem putFiles_append (s : Storage) (place : Place) (files files' : List (String × String)) :
    s.putFiles place (files ++ files') = (s.putFiles place files).putFiles place files' :=
  List.foldl_append

theorem here_putFiles (s : Storage) (place : Place) (files : List (String × String)) :
    (s.putFiles place files).here = s.here := by
  induction files generalizing s with
  | nil => rfl
  | cons file files ih => exact ih (s.put (place ++ [file.1]) (.file file.2))

/-- What was at the place of a file before does not count. -/
theorem putFiles_put_of_mem {name : String} (hname : name ∈ files.map Prod.fst) (entry : Entry) :
    (s.put (place ++ [name]) entry).putFiles place files = s.putFiles place files := by
  induction files generalizing s with
  | nil => cases hname
  | cons file files ih =>
      change ((s.put (place ++ [name]) entry).put (place ++ [file.1]) _).putFiles place files =
        (s.put (place ++ [file.1]) _).putFiles place files
      by_cases hsame : name = file.1
      · rw [hsame, put_put_self]
      · have hplaces : place ++ [name] ≠ place ++ [file.1] := by simpa using hsame
        rw [put_comm s hplaces]
        exact ih ((List.mem_cons.mp hname).resolve_left hsame)

theorem putFiles_putFiles_of_subset (hnames : files.map Prod.fst ⊆ files'.map Prod.fst) :
    (s.putFiles place files).putFiles place files' = s.putFiles place files' := by
  induction files generalizing s with
  | nil => rfl
  | cons file files ih =>
      obtain ⟨hfile, hrest⟩ := List.cons_subset.mp hnames
      exact (ih hrest).trans (putFiles_put_of_mem hfile _)

theorem entry?_putFiles_of_ne (hother : ∀ file ∈ files, other ≠ place ++ [file.1]) :
    entry? (s.putFiles place files) other = s.entry? other := by
  induction files generalizing s with
  | nil => rfl
  | cons file files ih =>
      obtain ⟨hfile, hrest⟩ := List.forall_mem_cons.mp hother
      exact (ih hrest).trans (entry?_put_of_ne s hfile _)

theorem entry?_putFiles_of_mem (hnodup : (files.map Prod.fst).Nodup) {file : String × String}
    (hfile : file ∈ files) :
    entry? (s.putFiles place files) (place ++ [file.1]) = some (.file file.2) := by
  induction files generalizing s with
  | nil => cases hfile
  | cons first files ih =>
      obtain ⟨hfirst, hrest⟩ := List.nodup_cons.mp hnodup
      rcases List.mem_cons.mp hfile with rfl | hfile
      · have hothers : ∀ later ∈ files, place ++ [file.1] ≠ place ++ [later.1] := by
          intro later hlater hsame
          have hnames : file.1 = later.1 := by simpa using hsame
          exact hfirst (hnames ▸ List.mem_map_of_mem hlater)
        refine (entry?_putFiles_of_ne hothers).trans ?_
        exact entry?_put_self s (by simp) _
      · exact ih hrest hfile

/-- No directory is put among the files. -/
theorem entry?_eq_directory_of_putFiles
    (h : entry? (s.putFiles place files) other = some .directory) :
    s.entry? other = some .directory := by
  induction files generalizing s with
  | nil => exact h
  | cons file files ih =>
      have hput : entry? (s.put (place ++ [file.1]) (.file file.2)) other = some .directory := ih h
      rw [entry?_put _ (by simp)] at hput
      split at hput
      · cases hput
      · exact hput

/-! ### Folders and the rest -/

theorem withFolder_append (s : Storage) (place : Place) (files files' : List (String × String)) :
    s.withFolder place (files ++ files') = (s.withFolder place files).putFiles place files' :=
  putFiles_append _ _ _ _

/-- Files that are put once more count only as they are put last. -/
theorem withFolder_append_of_subset (hnames : files.map Prod.fst ⊆ files'.map Prod.fst) :
    s.withFolder place (files ++ files') = s.withFolder place files' := by
  rw [withFolder_append]
  exact putFiles_putFiles_of_subset hnames

/-- A file that is put twice counts as the second one. -/
theorem withFolder_concat_concat (s : Storage) (place : Place) (files : List (String × String))
    (name content content' : String) :
    s.withFolder place (files ++ [(name, content)] ++ [(name, content')]) =
      s.withFolder place (files ++ [(name, content')]) := by
  rw [withFolder_append, withFolder_append, withFolder_append]
  exact put_put_self _ _ _ _

theorem entry?_withFolder_self (hplace : place ≠ []) :
    entry? (s.withFolder place files) place = some .directory := by
  have hother : ∀ file ∈ files, place ≠ place ++ [file.1] := fun file _ => by simp
  rw [withFolder, entry?_putFiles_of_ne hother, entry?_put_self s hplace]

theorem entry?_withFolder_ne_directory (hfree : s.Free place) (name : String) :
    entry? (s.withFolder place files) (place ++ [name]) ≠ some .directory := by
  intro hentry
  have hput := entry?_eq_directory_of_putFiles hentry
  rw [entry?_put_of_ne _ (by simp), hfree _ (List.prefix_append _ _)] at hput
  cases hput

theorem here_withFolder : (s.withFolder place files).here = s.here := here_putFiles _ _ _

/-- The rest of the storage is as it was. -/
theorem entry?_withFolder_of_not_below (hother : ¬ place <+: other) :
    entry? (s.withFolder place files) other = s.entry? other := by
  have hfiles : ∀ file ∈ files, other ≠ place ++ [file.1] := by
    rintro file - rfl
    exact hother (List.prefix_append _ _)
  have hplace : other ≠ place := by
    rintro rfl
    exact hother (List.prefix_refl _)
  exact (entry?_putFiles_of_ne hfiles).trans (entry?_put_of_ne s hplace _)

/-- A folder at a free place is all that is there. -/
theorem entry?_withFolder (hfree : s.Free place) (hnodup : (files.map Prod.fst).Nodup)
    (hother : place <+: other) (entry : Entry) :
    entry? (s.withFolder place files) other = some entry ↔
      (other = place ∧ entry = .directory)
        ∨ ∃ file ∈ files, other = place ++ [file.1] ∧ entry = .file file.2 := by
  by_cases hfile : ∃ file ∈ files, other = place ++ [file.1]
  · obtain ⟨file, hmem, rfl⟩ := hfile
    rw [withFolder, entry?_putFiles_of_mem hnodup hmem]
    constructor
    · intro h
      exact .inr ⟨file, hmem, rfl, (Option.some.inj h).symm⟩
    · rintro (⟨hplace, -⟩ | ⟨file', hmem', hsame, rfl⟩)
      · simp at hplace
      · have hnames : file.1 = file'.1 := by simpa using hsame
        rw [List.inj_on_of_nodup_map hnodup hmem hmem' hnames]
  · have hne : ∀ file ∈ files, other ≠ place ++ [file.1] := fun file hmem hsame =>
      hfile ⟨file, hmem, hsame⟩
    rw [withFolder, entry?_putFiles_of_ne hne]
    by_cases hplace : other = place
    · subst hplace
      rw [entry?_put_self s (ne_nil_of_entry?_eq_none hfree.entry?_eq_none)]
      constructor
      · intro h
        exact .inl ⟨rfl, (Option.some.inj h).symm⟩
      · rintro (⟨-, rfl⟩ | ⟨file, hmem, hsame, -⟩)
        · rfl
        · exact absurd hsame (hne file hmem)
    · rw [entry?_put_of_ne _ hplace, hfree other hother]
      constructor
      · intro h
        cases h
      · rintro (⟨hsame, -⟩ | ⟨file, hmem, hsame, -⟩)
        · exact absurd hsame hplace
        · exact absurd hsame (hne file hmem)

theorem without_putFiles : (s.putFiles place files).without place = s.without place := by
  induction files generalizing s with
  | nil => rfl
  | cons file files ih => exact ih.trans (without_put s (List.prefix_append _ _) _)

/-- A folder that is taken away leaves no trace. -/
theorem without_withFolder (hfree : s.Free place) : (s.withFolder place files).without place = s :=
  calc
    (s.withFolder place files).without place = (s.put place .directory).without place :=
      without_putFiles
    _ = s.without place := without_put s (List.prefix_refl _) _
    _ = s := hfree.without_eq_self

/-- A folder at a free place takes nothing away. -/
theorem entry?_withFolder_of_some (hfree : s.Free place) {entry : Entry}
    (hentry : s.entry? other = some entry) :
    entry? (s.withFolder place files) other = some entry := by
  have hnot : ¬ place <+: other := fun hbelow => by
    rw [hfree other hbelow] at hentry
    cases hentry
  rw [entry?_withFolder_of_not_below hnot, hentry]

theorem LeadsTo.withFolder {path : String} {home : Place} (h : s.LeadsTo path home)
    (hfree : s.Free place) : (s.withFolder place files).LeadsTo path home :=
  h.mono here_withFolder fun _ hentry => entry?_withFolder_of_some hfree hentry

/-- A path leads into a folder. -/
theorem LeadsTo.intoFolder {directory name : String} (h : s.LeadsTo directory place)
    (hname : IsFileName name) (hfree : s.Free (place ++ [name])) :
    LeadsTo (s.withFolder (place ++ [name]) files) (Path.join directory name) (place ++ [name]) :=
  (h.withFolder hfree).join hname (entry?_withFolder_self (by simp))

end SolverAudit.Storage
