import Mathlib.Data.Set.Card
import SolverAudit.Ordered.Set

/-!
# Ordered sets and their lists

A strictly increasing list has no repetitions, so an ordered set has as many members as elements,
and it is the set of its own list.
-/

namespace SolverAudit.OrderedSet

variable {α : Type} [Ord α] [Std.LawfulEqOrd α]

theorem nodup_toList (s : OrderedSet α) : s.toList.Nodup := by
  refine s.increasing.imp fun {a b} hlt hsame => ?_
  rw [hsame] at hlt
  simp at hlt

omit [Std.LawfulEqOrd α] in
theorem toList_injective : Function.Injective (toList : OrderedSet α → List α) := by
  rintro ⟨_, _⟩ ⟨_, _⟩ rfl
  rfl

theorem size_eq_ncard (s : OrderedSet α) : s.size = {a | a ∈ s}.ncard := by
  classical
  have hmembers : {a | a ∈ s} = (s.toList.toFinset : Set α) := by
    ext a
    simp [mem_def]
  rw [hmembers, Set.ncard_coe_finset, List.toFinset_card_of_nodup s.nodup_toList, size]

omit [Std.LawfulEqOrd α] in
theorem eq_empty_of_toList {s : OrderedSet α} (h : s.toList = []) : s = ∅ := by
  obtain ⟨_, _⟩ := s
  subst h
  rfl

variable [Std.TransOrd α]

theorem ofList_toList (s : OrderedSet α) : ofList s.toList = s :=
  ext fun _ => mem_ofList

theorem toList_ofList {xs : List α} (h : Increasing xs) : (ofList xs).toList = xs :=
  eq_of_same_members (ofList xs).increasing h fun _ => mem_ofList

theorem perm_ofList {xs : List α} (h : xs.Nodup) : (ofList xs).toList.Perm xs :=
  (List.perm_ext_iff_of_nodup (nodup_toList _) h).mpr fun _ => mem_ofList

theorem mem_foldl_insert {xs : List α} {s : OrderedSet α} {a : α} :
    a ∈ xs.foldl (fun s x => s.insert x) s ↔ a ∈ s ∨ a ∈ xs := by
  induction xs generalizing s with
  | nil => simp
  | cons x xs ih =>
      rw [List.foldl_cons, ih, mem_insert, List.mem_cons]
      tauto

theorem perm_insert {s : OrderedSet α} {a : α} (h : a ∉ s) :
    (s.insert a).toList.Perm (a :: s.toList) :=
  (List.perm_ext_iff_of_nodup (nodup_toList _) (List.nodup_cons.mpr ⟨h, s.nodup_toList⟩)).mpr
    fun _ => mem_insertInto.trans List.mem_cons.symm

theorem size_ofList {xs : List α} (h : xs.Nodup) : (ofList xs).size = xs.length :=
  (perm_ofList h).length_eq

theorem size_union {s t : OrderedSet α} (hapart : ∀ a ∈ s, a ∉ t) :
    (s.union t).size = s.size + t.size := by
  have hnodup : (s.toList ++ t.toList).Nodup :=
    List.nodup_append'.mpr ⟨s.nodup_toList, t.nodup_toList, fun a ha ht => hapart a ha ht⟩
  rw [union, size_ofList hnodup, List.length_append, size, size]

omit [Std.TransOrd α] in
theorem size_image {β : Type} [Ord β] [Std.TransOrd β] [Std.LawfulEqOrd β] {f : α → β}
    {s : OrderedSet α} (hinj : ∀ a ∈ s, ∀ b ∈ s, f a = f b → a = b) :
    (s.image f).size = s.size := by
  rw [image, size_ofList (s.nodup_toList.map_on fun a ha b hb => hinj a ha b hb), List.length_map,
    size]

section

omit [Std.LawfulEqOrd α]

theorem ofList_nil : ofList ([] : List α) = ∅ :=
  eq_empty_of_toList (by simp [ofList, dropRepeats])

theorem size_ofList_singleton (a : α) : (ofList [a]).size = 1 := by
  simp [size, ofList, dropRepeats]

end

end SolverAudit.OrderedSet
