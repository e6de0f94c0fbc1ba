/-!
# Ordered sets

A finite set is kept as the strictly increasing list of its members, so two sets are equal exactly
when they have the same members, and sets are themselves ordered, lexicographically.
-/

namespace SolverAudit

def Increasing {α : Type} [Ord α] (xs : List α) : Prop :=
  xs.Pairwise fun a b => compare a b = .lt

theorem increasing_nil {α : Type} [Ord α] : Increasing ([] : List α) := List.Pairwise.nil

structure OrderedSet (α : Type) [Ord α] where
  toList : List α
  increasing : Increasing toList
deriving DecidableEq

namespace OrderedSet

variable {α β : Type} [Ord α] [Ord β]

instance : Membership α (OrderedSet α) where
  mem s a := a ∈ s.toList

theorem mem_def {s : OrderedSet α} {a : α} : a ∈ s ↔ a ∈ s.toList := Iff.rfl

instance [DecidableEq α] (a : α) (s : OrderedSet α) : Decidable (a ∈ s) :=
  inferInstanceAs (Decidable (a ∈ s.toList))

def empty : OrderedSet α := ⟨[], increasing_nil⟩

instance : EmptyCollection (OrderedSet α) := ⟨empty⟩

instance : Inhabited (OrderedSet α) := ⟨empty⟩

def size (s : OrderedSet α) : Nat := s.toList.length

def isEmpty (s : OrderedSet α) : Bool := s.toList.isEmpty

def filter (p : α → Bool) (s : OrderedSet α) : OrderedSet α :=
  ⟨s.toList.filter p, s.increasing.filter p⟩

@[simp]
theorem mem_filter {p : α → Bool} {s : OrderedSet α} {a : α} :
    a ∈ s.filter p ↔ a ∈ s ∧ p a = true := by
  simp [filter, mem_def]

@[simp]
theorem not_mem_empty (a : α) : a ∉ (∅ : OrderedSet α) := by
  simp [mem_def, EmptyCollection.emptyCollection, empty]

/-! ### Building a set from a list -/

/-- Drops each element that equals the one kept before it. -/
def dropRepeats : List α → List α
  | [] => []
  | a :: rest =>
    match dropRepeats rest with
    | [] => [a]
    | b :: kept => if compare a b = .eq then a :: kept else a :: b :: kept

theorem head?_dropRepeats (xs : List α) : (dropRepeats xs).head? = xs.head? := by
  cases xs with
  | nil => rfl
  | cons a rest =>
    simp only [dropRepeats]
    split
    · rfl
    · split <;> rfl

section

variable [Std.TransOrd α]

theorem increasing_dropRepeats {xs : List α}
    (sorted : xs.Pairwise fun a b => (compare a b).isLE = true) : Increasing (dropRepeats xs) := by
  induction xs with
  | nil => exact .nil
  | cons a rest ih =>
    obtain ⟨first, sorted⟩ := List.pairwise_cons.1 sorted
    have kept := ih sorted
    have head := head?_dropRepeats rest
    simp only [dropRepeats]
    split
    · exact List.pairwise_singleton _ _
    · next b tail heq =>
      rw [heq] at kept head
      obtain ⟨next, increasing⟩ := List.pairwise_cons.1 kept
      have le : (compare a b).isLE = true := by
        cases rest with
        | nil => simp at head
        | cons c rest =>
          obtain rfl : b = c := by simpa using head
          exact first b (by simp)
      split
      · next same =>
        refine List.pairwise_cons.2 ⟨fun c hc => ?_, increasing⟩
        exact Std.TransCmp.lt_of_eq_of_lt same (next c hc)
      · next differ =>
        have lt : compare a b = .lt := by
          revert le differ
          cases compare a b <;> simp
        refine List.pairwise_cons.2 ⟨fun c hc => ?_, kept⟩
        rcases List.mem_cons.1 hc with rfl | hc
        · exact lt
        · exact Std.TransCmp.lt_trans lt (next c hc)

def ofList (xs : List α) : OrderedSet α where
  toList := dropRepeats (xs.mergeSort fun a b => (compare a b).isLE)
  increasing := increasing_dropRepeats
    (List.pairwise_mergeSort (fun _ _ _ => Std.TransCmp.isLE_trans)
      (fun a b => by
        rw [show compare b a = (compare a b).swap from Std.OrientedCmp.eq_swap]
        cases compare a b <;> simp) xs)

/-- Puts an element in its place, unless an equal one is there. -/
def insertInto (a : α) : List α → List α
  | [] => [a]
  | b :: rest =>
    match compare a b with
    | .lt => a :: b :: rest
    | .eq => b :: rest
    | .gt => b :: insertInto a rest

omit [Std.TransOrd α] in
theorem eq_or_mem_of_mem_insertInto {a c : α} {xs : List α} (h : c ∈ insertInto a xs) :
    c = a ∨ c ∈ xs := by
  induction xs with
  | nil => simpa [insertInto] using h
  | cons b rest ih =>
    rw [insertInto] at h
    split at h
    · simpa using h
    · exact .inr h
    · rcases List.mem_cons.1 h with rfl | h
      · exact .inr List.mem_cons_self
      · exact (ih h).imp_right (List.mem_cons_of_mem _)

theorem increasing_insertInto (a : α) {xs : List α} (h : Increasing xs) :
    Increasing (insertInto a xs) := by
  induction xs with
  | nil => exact List.pairwise_singleton _ _
  | cons b rest ih =>
    obtain ⟨after, increasing⟩ := List.pairwise_cons.1 h
    rw [insertInto]
    split
    · next lt =>
      refine List.pairwise_cons.2 ⟨fun c hc => ?_, h⟩
      rcases List.mem_cons.1 hc with rfl | hc
      · exact lt
      · exact Std.TransCmp.lt_trans lt (after c hc)
    · exact h
    · next gt =>
      refine List.pairwise_cons.2 ⟨fun c hc => ?_, ih increasing⟩
      rcases eq_or_mem_of_mem_insertInto hc with rfl | hc
      · exact Std.OrientedCmp.lt_of_gt gt
      · exact after c hc

def insert (a : α) (s : OrderedSet α) : OrderedSet α :=
  ⟨insertInto a s.toList, increasing_insertInto a s.increasing⟩

def union (s t : OrderedSet α) : OrderedSet α :=
  ofList (s.toList ++ t.toList)

def image [Std.TransOrd β] (f : α → β) (s : OrderedSet α) : OrderedSet β :=
  ofList (s.toList.map f)

end

section

variable [Std.TransOrd α] [Std.LawfulEqOrd α]

omit [Std.TransOrd α] in
theorem mem_dropRepeats {xs : List α} {a : α} : a ∈ dropRepeats xs ↔ a ∈ xs := by
  induction xs with
  | nil => rfl
  | cons b rest ih =>
    simp only [dropRepeats]
    split
    · next heq => rw [heq] at ih; simp [← ih]
    · next c kept heq =>
      rw [heq] at ih
      split
      · next same =>
        obtain rfl : b = c := Std.LawfulEqCmp.eq_of_compare same
        simp [← ih]
      · simp [← ih]

@[simp]
theorem mem_ofList {xs : List α} {a : α} : a ∈ ofList xs ↔ a ∈ xs := by
  simp [mem_def, ofList, mem_dropRepeats]

omit [Std.TransOrd α] in
theorem mem_insertInto {a c : α} {xs : List α} : c ∈ insertInto a xs ↔ c = a ∨ c ∈ xs := by
  refine ⟨eq_or_mem_of_mem_insertInto, fun h => ?_⟩
  induction xs with
  | nil => simpa [insertInto] using h
  | cons b rest ih =>
    rw [insertInto]
    split
    · simpa using h
    · next same =>
      obtain rfl : a = b := Std.LawfulEqCmp.eq_of_compare same
      rcases h with rfl | h
      · exact List.mem_cons_self
      · exact h
    · rcases h with h | h
      · exact List.mem_cons_of_mem _ (ih (.inl h))
      · rcases List.mem_cons.1 h with rfl | h
        · exact List.mem_cons_self
        · exact List.mem_cons_of_mem _ (ih (.inr h))

@[simp]
theorem mem_insert {s : OrderedSet α} {a b : α} : a ∈ s.insert b ↔ a = b ∨ a ∈ s :=
  mem_insertInto

@[simp]
theorem mem_union {s t : OrderedSet α} {a : α} : a ∈ s.union t ↔ a ∈ s ∨ a ∈ t := by
  simp [union, mem_def (s := s), mem_def (s := t)]

@[simp]
theorem mem_image {α : Type} [Ord α] {f : α → β} [Std.TransOrd β] [Std.LawfulEqOrd β]
    {s : OrderedSet α} {b : β} : b ∈ s.image f ↔ ∃ a ∈ s, f a = b := by
  simp [image, mem_def (s := s)]

theorem eq_of_same_members {xs ys : List α} (hx : Increasing xs) (hy : Increasing ys)
    (same : ∀ a, a ∈ xs ↔ a ∈ ys) : xs = ys := by
  induction xs generalizing ys with
  | nil =>
    cases ys with
    | nil => rfl
    | cons b _ => exact absurd ((same b).2 (by simp)) (by simp)
  | cons a rest ih =>
    cases ys with
    | nil => exact absurd ((same a).1 (by simp)) (by simp)
    | cons b tail =>
      obtain ⟨afterA, restIncreasing⟩ := List.pairwise_cons.1 hx
      obtain ⟨afterB, tailIncreasing⟩ := List.pairwise_cons.1 hy
      have irrefl (c : α) : compare c c ≠ .lt := by simp
      obtain rfl : a = b := by
        rcases List.mem_cons.1 ((same a).1 (by simp)) with h | h
        · exact h
        · rcases List.mem_cons.1 ((same b).2 (by simp)) with h' | h'
          · exact h'.symm
          · exact absurd (Std.TransCmp.lt_trans (afterB a h) (afterA b h')) (irrefl b)
      congr 1
      refine ih restIncreasing tailIncreasing fun c => ?_
      have hc := same c
      simp only [List.mem_cons] at hc
      constructor
      · intro h
        rcases hc.1 (.inr h) with rfl | h'
        · exact absurd (afterA c h) (irrefl c)
        · exact h'
      · intro h
        rcases hc.2 (.inr h) with rfl | h'
        · exact absurd (afterB c h) (irrefl c)
        · exact h'

theorem ext {s t : OrderedSet α} (same : ∀ a, a ∈ s ↔ a ∈ t) : s = t := by
  cases s with
  | mk xs hx =>
    cases t with
    | mk ys hy =>
      obtain rfl := eq_of_same_members hx hy same
      rfl

end

/-! ### Order between sets -/

/-- Sets are compared member by member, in increasing order. -/
instance : Ord (OrderedSet α) := ⟨fun s t => compare s.toList t.toList⟩

instance [Std.TransOrd α] : Std.TransOrd (OrderedSet α) where
  eq_swap {s t} :=
    show compare s.toList t.toList = (compare t.toList s.toList).swap from Std.OrientedCmp.eq_swap
  isLE_trans {s t u} :=
    show (compare s.toList t.toList).isLE → (compare t.toList u.toList).isLE →
      (compare s.toList u.toList).isLE from Std.TransCmp.isLE_trans

instance [Std.LawfulEqOrd α] : Std.LawfulEqOrd (OrderedSet α) where
  compare_self {s} := show compare s.toList s.toList = .eq from Std.ReflCmp.compare_self
  eq_of_compare {s t} h := by
    have : compare s.toList t.toList = .eq := h
    have : s.toList = t.toList := Std.LawfulEqCmp.eq_of_compare this
    cases s; cases t; cases this; rfl

end OrderedSet

end SolverAudit
