import SolverAudit.Proofs.Ordered.Map
import SolverAudit.Proofs.Result
import SolverAudit.Proofs.Storage.Path
import SolverAudit.Proofs.Tree.Growth

/-!
# Changes of storages

An entry that is put somewhere is found there, and everything else is found where it was. Inside a
directory that a path leads to, an entry of another name can always be put, as long as the path to
it does not get too long.
-/

namespace SolverAudit.Storage

/-! ### Entries -/

theorem entry?_of_ne_nil (s : Storage) {place : Place} (hplace : place ≠ []) :
    s.entry? place = s.entries.get? place := by
  unfold entry?
  rw [if_neg (by simpa using hplace)]

theorem ne_nil_of_entry?_eq_none {s : Storage} {place : Place} (h : s.entry? place = none) :
    place ≠ [] := by
  rintro rfl
  cases h

theorem entry?_put (s : Storage) {place : Place} (hplace : place ≠ []) (entry : Entry)
    (other : Place) :
    entry? (s.put place entry) other = if other = place then some entry else s.entry? other := by
  by_cases hother : other = []
  · subst hother
    rw [if_neg hplace.symm]
    rfl
  · rw [entry?_of_ne_nil _ hother, entry?_of_ne_nil _ hother, put, OrderedMap.get?_insert]

theorem entry?_put_self (s : Storage) {place : Place} (hplace : place ≠ []) (entry : Entry) :
    entry? (s.put place entry) place = some entry := by
  rw [entry?_put s hplace, if_pos rfl]

theorem entry?_put_of_ne (s : Storage) {place other : Place} (hother : other ≠ place)
    (entry : Entry) : entry? (s.put place entry) other = s.entry? other := by
  by_cases hnil : other = []
  · subst hnil
    rfl
  · rw [entry?_of_ne_nil _ hnil, entry?_of_ne_nil _ hnil, put, OrderedMap.get?_insert,
      if_neg hother]

theorem ext_entries {s t : Storage} (hhere : s.here = t.here)
    (hentries : ∀ place, s.entries.get? place = t.entries.get? place) : s = t := by
  obtain ⟨entries, here⟩ := s
  obtain ⟨entries', here'⟩ := t
  obtain rfl : here = here' := hhere
  obtain rfl : entries = entries' := OrderedMap.ext_get? hentries
  rfl

/-! ### Putting and taking away -/

theorem put_put_self (s : Storage) (place : Place) (entry entry' : Entry) :
    (s.put place entry).put place entry' = s.put place entry' := by
  refine ext_entries rfl fun other => ?_
  simp only [put, OrderedMap.get?_insert]
  split <;> rfl

theorem put_comm (s : Storage) {place place' : Place} (hne : place ≠ place')
    (entry entry' : Entry) :
    (s.put place entry).put place' entry' = (s.put place' entry').put place entry := by
  refine ext_entries rfl fun other => ?_
  simp only [put, OrderedMap.get?_insert]
  by_cases hother : other = place'
  · rw [if_pos hother, if_pos hother, if_neg fun h => hne (h.symm.trans hother)]
  · rw [if_neg hother, if_neg hother]

/-- The storage without what is at a place or below it. -/
def without (s : Storage) (place : Place) : Storage :=
  { s with entries := s.entries.restrict (!place.isPrefixOf ·) }

theorem get?_without (s : Storage) (place other : Place) :
    (s.without place).entries.get? other =
      if place <+: other then none else s.entries.get? other := by
  rw [without, OrderedMap.get?_restrict]
  by_cases hbelow : place <+: other
  · rw [if_pos hbelow, List.isPrefixOf_iff_prefix.mpr hbelow, if_neg (by simp)]
  · have hnot : place.isPrefixOf other = false := by
      rwa [← Bool.not_eq_true, List.isPrefixOf_iff_prefix]
    rw [if_neg hbelow, hnot, if_pos (by simp)]

theorem without_put (s : Storage) {place other : Place} (hbelow : place <+: other)
    (entry : Entry) : (s.put other entry).without place = s.without place := by
  refine ext_entries rfl fun third => ?_
  rw [get?_without, get?_without]
  by_cases hthird : place <+: third
  · rw [if_pos hthird, if_pos hthird]
  · rw [if_neg hthird, if_neg hthird, put, OrderedMap.get?_insert, if_neg]
    rintro rfl
    exact hthird hbelow

/-- Nothing is at a place, nor below it. -/
def Free (s : Storage) (place : Place) : Prop :=
  ∀ other, place <+: other → s.entry? other = none

theorem Free.entry?_eq_none {s : Storage} {place : Place} (hfree : s.Free place) :
    s.entry? place = none := hfree place (List.prefix_refl _)

theorem Free.without_eq_self {s : Storage} {place : Place} (hfree : s.Free place) :
    s.without place = s := by
  refine ext_entries rfl fun other => ?_
  rw [get?_without]
  by_cases hbelow : place <+: other
  · have hnone := hfree other hbelow
    rw [if_pos hbelow, ← hnone, entry?_of_ne_nil _ (ne_nil_of_entry?_eq_none hnone)]
  · rw [if_neg hbelow]

/-! ### Paths into directories -/

/-- A path leads to a place, through directories only. -/
structure LeadsTo (s : Storage) (path : String) (place : Place) : Prop where
  noEnd : hasEnd path = false
  follow : s.follow (s.origin path) (Path.names path) = .ok place

/-- The empty path stands for the current directory. -/
theorem leadsTo_here (s : Storage) : s.LeadsTo "" s.here where
  noEnd := by simp [hasEnd]
  follow := by
    have horigin : s.origin "" = s.here := by simp [origin, Path.isAbsolute]
    rw [horigin, Path.names_empty]
    rfl

theorem follow_append (s : Storage) (place : Place) (names rest : List String) :
    s.follow place (names ++ rest) =
      s.follow place names >>= fun between => s.follow between rest := by
  induction names generalizing place with
  | nil => rfl
  | cons name names ih =>
      rw [List.cons_append, follow, follow]
      split
      · rfl
      · rcases s.entry? (step place name) with _ | _ | content
        · rfl
        · exact ih (step place name)
        · rfl

theorem follow_mono {s t : Storage}
    (hdirectories : ∀ place, s.entry? place = some .directory → t.entry? place = some .directory)
    {names : List String} {start place : Place} (h : s.follow start names = .ok place) :
    t.follow start names = .ok place := by
  induction names generalizing start with
  | nil => exact h
  | cons name names ih =>
      rw [follow] at h ⊢
      split
      · rename_i hlong
        rw [if_pos hlong] at h
        cases h
      · rename_i hlong
        rw [if_neg hlong] at h
        cases hentry : s.entry? (step start name) with
        | none =>
            rw [hentry] at h
            cases h
        | some entry =>
            rw [hentry] at h
            cases entry with
            | file content => cases h
            | directory =>
                rw [hdirectories _ hentry]
                exact ih h

theorem LeadsTo.mono {s t : Storage} {path : String} {place : Place} (h : s.LeadsTo path place)
    (hhere : t.here = s.here)
    (hdirectories : ∀ place, s.entry? place = some .directory → t.entry? place = some .directory) :
    t.LeadsTo path place where
  noEnd := h.noEnd
  follow := by
    have horigin : t.origin path = s.origin path := by rw [origin, origin, hhere]
    rw [horigin]
    exact follow_mono hdirectories h.follow

theorem LeadsTo.put {s : Storage} {path : String} {place other : Place} (h : s.LeadsTo path place)
    (hother : s.entry? other ≠ some .directory) (entry : Entry) :
    (s.put other entry).LeadsTo path place := by
  refine h.mono rfl fun third hthird => ?_
  have hne : third ≠ other := by
    rintro rfl
    exact hother hthird
  rw [entry?_put_of_ne s hne, hthird]

theorem step_eq_append {name : String} (hname : IsFileName name) (place : Place) :
    step place name = place ++ [name] := by
  have hdots := hname.notDots
  simp only [isDots, Bool.or_eq_false_iff, beq_eq_false_iff_ne] at hdots
  rw [step, if_neg hdots.1, if_neg hdots.2]

section

variable {s : Storage} {directory name : String} {place : Place}
  (hleads : s.LeadsTo directory place) (hname : IsFileName name)

include hleads hname

theorem LeadsTo.join (hentry : s.entry? (place ++ [name]) = some .directory) :
    s.LeadsTo (Path.join directory name) (place ++ [name]) where
  noEnd := (Path.hasEnd_join hname directory).trans hleads.noEnd
  follow := by
    have horigin : s.origin (Path.join directory name) = s.origin directory := by
      rw [origin, origin, Path.isAbsolute_join hname]
    rw [horigin, Path.names_join hname, follow_append, hleads.follow]
    change s.follow place [name] = _
    rw [Storage.follow, hname.notTooLong, if_neg Bool.false_ne_true, step_eq_append hname, hentry]
    rfl

variable (hsize : (Path.join directory name).utf8ByteSize ≤ longestPath)

include hsize

theorem reach_join : s.reach (Path.join directory name) = .ok (place, name) := by
  have horigin : s.origin (Path.join directory name) = s.origin directory := by
    rw [origin, origin, Path.isAbsolute_join hname]
  have hend : hasEnd (Path.join directory name) = false :=
    (Path.hasEnd_join hname directory).trans hleads.noEnd
  have hlast : (Path.names (Path.join directory name)).getLast? = some name := by
    rw [Path.names_join hname, List.getLast?_concat]
  have hfront : (Path.names (Path.join directory name)).dropLast = Path.names directory := by
    rw [Path.names_join hname, List.dropLast_concat]
  simp only [reach, hend, Nat.not_lt.mpr hsize, hlast, hfront, horigin, hleads.follow,
    Bool.false_eq_true, ↓reduceIte]
  rfl

/-! ### Changes inside a directory -/

theorem withDirectory_join_of_absent (hentry : s.entry? (place ++ [name]) = none) :
    s.withDirectory (Path.join directory name) = .ok (s.put (place ++ [name]) .directory) := by
  rw [withDirectory, reach_join hleads hname hsize]
  simp only [bind, Except.bind, hname.notDots, hname.notTooLong, step_eq_append hname, hentry,
    Bool.false_eq_true, ↓reduceIte]
  rfl

theorem withDirectory_join_of_present {entry : Entry}
    (hentry : s.entry? (place ++ [name]) = some entry) :
    s.withDirectory (Path.join directory name) = .error .present := by
  rw [withDirectory, reach_join hleads hname hsize]
  simp only [bind, Except.bind, hname.notDots, hname.notTooLong, step_eq_append hname, hentry,
    Bool.false_eq_true, ↓reduceIte]
  rfl

theorem withFile_join (hentry : s.entry? (place ++ [name]) ≠ some .directory) (content : String) :
    s.withFile (Path.join directory name) content =
      .ok (s.put (place ++ [name]) (.file content)) := by
  rw [withFile, reach_join hleads hname hsize]
  simp only [bind, Except.bind, hname.notDots, hname.notTooLong, step_eq_append hname,
    Path.endsOpen_join hname, Bool.or_self, Bool.false_eq_true, ↓reduceIte]
  rfl

theorem find_join_of_directory (hentry : s.entry? (place ++ [name]) = some .directory) :
    s.find (Path.join directory name) = .ok (place ++ [name], .directory) := by
  rw [find, reach_join hleads hname hsize]
  simp only [bind, Except.bind, hname.notTooLong, step_eq_append hname, hentry,
    Bool.false_eq_true, ↓reduceIte]
  rfl

theorem withoutDirectory_join (hentry : s.entry? (place ++ [name]) = some .directory) :
    s.withoutDirectory (Path.join directory name) = .ok (s.without (place ++ [name])) := by
  rw [withoutDirectory, find_join_of_directory hleads hname hsize hentry]
  rfl

/-- A directory is created where nothing is. -/
theorem run_createDirectory_join_of_absent (hentry : s.entry? (place ++ [name]) = none) :
    (createDirectory (Path.join directory name)).run s =
      (.ok (), s.put (place ++ [name]) .directory) := by
  obtain ⟨above, habove⟩ := Path.exists_ancestors_join hname directory
  have hcreate : createInnermost (Path.ancestors (Path.join directory name)) s =
      (.ok (), s.put (place ++ [name]) .directory) := by
    rw [habove, createInnermost, withDirectory_join_of_absent hleads hname hsize hentry]
  change (orFail (createInnermost _ s).1, (createInnermost _ s).2) = _
  rw [hcreate]
  rfl

/-- Nothing changes when a directory is created that is there. -/
theorem run_createDirectory_join_of_directory
    (hentry : s.entry? (place ++ [name]) = some .directory) :
    (createDirectory (Path.join directory name)).run s = (.ok (), s) := by
  obtain ⟨above, habove⟩ := Path.exists_ancestors_join hname directory
  have hthere : s.isDirectory (Path.join directory name) = true := by
    rw [isDirectory, find_join_of_directory hleads hname hsize hentry]
  have hcreate : createInnermost (Path.ancestors (Path.join directory name)) s = (.ok (), s) := by
    rw [habove, createInnermost, withDirectory_join_of_present hleads hname hsize hentry]
    change (createInnermost.unlessThere s _ .present, s) = _
    rw [createInnermost.unlessThere, if_pos ⟨rfl, hthere⟩]
  change (orFail (createInnermost _ s).1, (createInnermost _ s).2) = _
  rw [hcreate]
  rfl

end

theorem run_attempt_of_ok {change : Storage → Except SystemFault Storage} {s t : Storage}
    (h : change s = .ok t) : (attempt change).run s = (.ok (), t) := by
  simp only [attempt, ExceptT.run, ExceptT.mk, h]

/-! ### Fresh storages -/

/-- Nothing is below the current directory of a fresh storage. -/
theorem free_fresh (here : Place) (name : String) : (fresh here).Free (here ++ [name]) := by
  intro other hbelow
  have hlength : here.length < other.length := by
    have hle := hbelow.length_le
    rwa [List.length_append, List.length_singleton] at hle
  have hnil : other ≠ [] := List.ne_nil_of_length_pos (Nat.zero_lt_of_lt hlength)
  rw [entry?_of_ne_nil _ hnil, Option.eq_none_iff_forall_ne_some]
  intro entry hentry
  have hmem := OrderedMap.mem_of_mem_bindings_ofList ((OrderedMap.get?_eq_some _ _ _).mp hentry)
  obtain ⟨n, -, hn⟩ := List.mem_map.mp hmem
  obtain rfl : here.take (n + 1) = other := (Prod.mk.inj hn).1
  rw [List.length_take] at hlength
  omega

end SolverAudit.Storage
