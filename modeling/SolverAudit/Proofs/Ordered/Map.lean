import SolverAudit.Ordered.Map

/-!
# Ordered maps and what they give

A map is settled by what it gives for each key. So bindings of two keys may be placed in any order,
and of two bindings of one key only the later one counts.
-/

namespace SolverAudit.OrderedMap

variable {α β : Type} [Ord α] [Std.LawfulEqOrd α]

theorem find?_place [DecidableEq α] (key other : α) (value : β) (bindings : List (α × β)) :
    (place key value bindings).find? (fun binding => compare other binding.1 == .eq) =
      if other = key then some (key, value)
      else bindings.find? fun binding => compare other binding.1 == .eq := by
  induction bindings with
  | nil => by_cases hother : other = key <;> simp [place, hother]
  | cons binding rest ih =>
      obtain ⟨head, old⟩ := binding
      rw [place]
      split
      · by_cases hother : other = key <;> simp [hother]
      · rename_i hcompare
        obtain rfl := Std.LawfulEqCmp.eq_of_compare hcompare
        by_cases hother : other = key <;> simp [hother]
      · rename_i hcompare
        by_cases hhead : other = head
        · subst hhead
          have hother : other ≠ key := by
            rintro rfl
            simp at hcompare
          simp [hother]
        · simpa [hhead] using ih

theorem get?_insert [Std.TransOrd α] [DecidableEq α] (m : OrderedMap α β) (key other : α)
    (value : β) :
    (m.insert key value).get? other = if other = key then some value else m.get? other := by
  rw [get?, insert, find?_place]
  split <;> rfl

theorem get?_restrict (p : α → Bool) (m : OrderedMap α β) (key : α) :
    (m.restrict p).get? key = if p key = true then m.get? key else none := by
  obtain ⟨bindings, hincreasing⟩ := m
  simp only [get?, restrict]
  clear hincreasing
  induction bindings with
  | nil => simp
  | cons binding rest ih =>
      by_cases hkey : key = binding.1
      · subst hkey
        by_cases hp : p binding.1 = true
        · simp [hp]
        · simpa [hp] using ih
      · by_cases hp : p binding.1 = true
        · simpa [hp, hkey] using ih
        · simpa [hp, hkey] using ih

theorem get?_eq_some (m : OrderedMap α β) (key : α) (value : β) :
    m.get? key = some value ↔ (key, value) ∈ m.bindings := by
  obtain ⟨bindings, hincreasing⟩ := m
  simp only [get?]
  induction bindings with
  | nil => simp
  | cons binding rest ih =>
      obtain ⟨head, old⟩ := binding
      obtain ⟨hhead, hrest⟩ := List.pairwise_cons.mp hincreasing
      by_cases hkey : key = head
      · subst hkey
        -- The keys behind are greater, so none of them is the same once more.
        have hbehind : (key, value) ∉ rest := fun hmem => by
          simpa using hhead key (List.mem_map_of_mem (f := Prod.fst) hmem)
        simp [hbehind, eq_comm]
      · simpa [hkey] using ih hrest

omit [Std.LawfulEqOrd α] in
theorem length_place {key : α} {value : β} {bindings : List (α × β)}
    (hnew : ∀ binding ∈ bindings, compare key binding.1 ≠ .eq) :
    (place key value bindings).length = bindings.length + 1 := by
  induction bindings with
  | nil => rfl
  | cons binding rest ih =>
      obtain ⟨hhead, hrest⟩ := List.forall_mem_cons.mp hnew
      rw [place]
      split
      · rfl
      · rename_i hcompare
        exact absurd hcompare hhead
      · rw [List.length_cons, ih hrest, List.length_cons]

omit [Std.LawfulEqOrd α] in
/-- A key without a value gets a binding of its own. -/
theorem size_insert [Std.TransOrd α] {m : OrderedMap α β} {key : α} (hnew : m.get? key = none)
    (value : β) : (m.insert key value).size = m.size + 1 := by
  rw [get?, Option.map_eq_none_iff, List.find?_eq_none] at hnew
  exact length_place fun binding hbinding hcompare => hnew binding hbinding (by simp [hcompare])

theorem nodup_keys (m : OrderedMap α β) : m.keys.Nodup := by
  refine m.increasing.imp fun {a b} hlt hsame => ?_
  rw [hsame] at hlt
  simp at hlt

theorem contains_iff_mem_keys (m : OrderedMap α β) (key : α) :
    m.contains key = true ↔ key ∈ m.keys := by
  simp only [contains, Option.isSome_iff_exists, get?_eq_some, keys, List.mem_map, Prod.exists,
    exists_and_right, exists_eq_right]

theorem ext_get? [Std.TransOrd α] {m n : OrderedMap α β}
    (hsame : ∀ key, m.get? key = n.get? key) : m = n := by
  have hmembers : ∀ binding, binding ∈ m.bindings ↔ binding ∈ n.bindings := fun binding => by
    rw [← get?_eq_some m binding.1 binding.2, hsame, get?_eq_some]
  have hnodup : ∀ m : OrderedMap α β, m.bindings.Nodup := fun m => List.Pairwise.of_map Prod.fst
    (fun _ _ hne hsame => hne (congrArg Prod.fst hsame)) m.nodup_keys
  have hperm := (List.perm_ext_iff_of_nodup (hnodup m) (hnodup n)).mpr hmembers
  have hbindings : m.bindings = n.bindings := by
    refine hperm.eq_of_pairwise (fun a b _ _ hab hba => ?_) (List.pairwise_map.mp m.increasing)
      (List.pairwise_map.mp n.increasing)
    have hself := Std.TransCmp.lt_trans hab hba
    simp at hself
  obtain ⟨bindings, hincreasing⟩ := m
  subst hbindings
  rfl

omit [Std.LawfulEqOrd α] in
theorem ofList_concat [Std.TransOrd α] (bindings : List (α × β)) (key : α) (value : β) :
    ofList (bindings ++ [(key, value)]) = (ofList bindings).insert key value := by
  rw [ofList, List.foldl_append]
  rfl

omit [Std.LawfulEqOrd α] in
theorem mem_of_mem_bindings_ofList [Std.TransOrd α] {bindings : List (α × β)} {binding : α × β}
    (h : binding ∈ (ofList bindings).bindings) : binding ∈ bindings := by
  have hfold : ∀ m : OrderedMap α β,
      binding ∈ (bindings.foldl (fun m binding => m.insert binding.1 binding.2) m).bindings →
      binding ∈ m.bindings ∨ binding ∈ bindings := by
    clear h
    induction bindings with
    | nil => exact fun m hm => .inl hm
    | cons first rest ih =>
        intro m hm
        rcases ih (m.insert first.1 first.2) hm with hm | hrest
        · rcases mem_bindings_insert hm with rfl | hm
          · exact .inr List.mem_cons_self
          · exact .inl hm
        · exact .inr (List.mem_cons_of_mem _ hrest)
  rcases hfold ∅ h with hnone | hmem
  · cases hnone
  · exact hmem

end SolverAudit.OrderedMap
