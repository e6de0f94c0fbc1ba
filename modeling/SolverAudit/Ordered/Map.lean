import SolverAudit.Ordered.Set

/-!
# Ordered maps

A finite map is kept as its list of bindings with strictly increasing keys, so two maps are equal
exactly when they give every key the same value.
-/

namespace SolverAudit

structure OrderedMap (α β : Type) [Ord α] where
  bindings : List (α × β)
  increasing : Increasing (bindings.map Prod.fst)

namespace OrderedMap

variable {α β : Type} [Ord α]

instance [DecidableEq α] [DecidableEq β] : DecidableEq (OrderedMap α β) := fun m n =>
  if h : m.bindings = n.bindings then
    isTrue (by cases m; cases n; cases h; rfl)
  else
    isFalse fun same => h (same ▸ rfl)

def empty : OrderedMap α β := ⟨[], increasing_nil⟩

instance : EmptyCollection (OrderedMap α β) := ⟨empty⟩

instance : Inhabited (OrderedMap α β) := ⟨empty⟩

def keys (m : OrderedMap α β) : List α := m.bindings.map Prod.fst

def size (m : OrderedMap α β) : Nat := m.bindings.length

def get? (m : OrderedMap α β) (key : α) : Option β :=
  (m.bindings.find? fun binding => compare key binding.1 == .eq).map Prod.snd

def contains (m : OrderedMap α β) (key : α) : Bool := (m.get? key).isSome

def restrict (p : α → Bool) (m : OrderedMap α β) : OrderedMap α β where
  bindings := m.bindings.filter fun binding => p binding.1
  increasing := by
    have kept := m.increasing.filter p
    rwa [List.filter_map] at kept

/-- Places a binding among bindings with increasing keys, over an earlier one of the same key. -/
def place (key : α) (value : β) : List (α × β) → List (α × β)
  | [] => [(key, value)]
  | (other, old) :: rest =>
    match compare key other with
    | .lt => (key, value) :: (other, old) :: rest
    | .eq => (key, value) :: rest
    | .gt => (other, old) :: place key value rest

theorem mem_place {key : α} {value : β} {bindings : List (α × β)} {binding : α × β}
    (h : binding ∈ place key value bindings) : binding = (key, value) ∨ binding ∈ bindings := by
  induction bindings with
  | nil => exact .inl (List.mem_singleton.1 h)
  | cons head rest ih =>
    obtain ⟨other, old⟩ := head
    rw [place] at h
    split at h
    · exact List.mem_cons.1 h
    · exact (List.mem_cons.1 h).imp_right (List.mem_cons_of_mem _)
    · rcases List.mem_cons.1 h with rfl | h
      · exact .inr List.mem_cons_self
      · exact (ih h).imp_right (List.mem_cons_of_mem _)

variable [Std.TransOrd α]

omit [Std.TransOrd α] in
theorem lt_of_mem_place {key other : α} {value : β} {bindings : List (α × β)}
    (first : compare other key = .lt)
    (rest : ∀ k ∈ bindings.map Prod.fst, compare other k = .lt) :
    ∀ k ∈ (place key value bindings).map Prod.fst, compare other k = .lt := by
  induction bindings with
  | nil => simpa [place] using first
  | cons binding tail ih =>
    obtain ⟨head, old⟩ := binding
    simp only [List.map_cons, List.mem_cons, forall_eq_or_imp] at rest
    simp only [place]
    split
    · simpa using ⟨first, rest.1, by simpa using rest.2⟩
    · simpa using ⟨first, by simpa using rest.2⟩
    · simpa using ⟨rest.1, by simpa using ih rest.2⟩

theorem increasing_place {key : α} {value : β} {bindings : List (α × β)}
    (increasing : Increasing (bindings.map Prod.fst)) :
    Increasing ((place key value bindings).map Prod.fst) := by
  induction bindings with
  | nil => exact List.pairwise_singleton _ _
  | cons binding tail ih =>
    obtain ⟨head, old⟩ := binding
    obtain ⟨after, rest⟩ := List.pairwise_cons.1 increasing
    simp only [place]
    split
    · next lt =>
      refine List.pairwise_cons.2 ⟨fun k hk => ?_, increasing⟩
      rcases List.mem_cons.1 hk with rfl | hk
      · exact lt
      · exact Std.TransCmp.lt_trans lt (after k hk)
    · next eq =>
      exact List.pairwise_cons.2 ⟨fun k hk => Std.TransCmp.lt_of_eq_of_lt eq (after k hk), rest⟩
    · next gt =>
      exact List.pairwise_cons.2
        ⟨lt_of_mem_place (Std.OrientedCmp.lt_of_gt gt) after, ih rest⟩

def insert (m : OrderedMap α β) (key : α) (value : β) : OrderedMap α β where
  bindings := place key value m.bindings
  increasing := increasing_place m.increasing

theorem mem_bindings_insert {m : OrderedMap α β} {key : α} {value : β} {binding : α × β}
    (h : binding ∈ (m.insert key value).bindings) :
    binding = (key, value) ∨ binding ∈ m.bindings :=
  mem_place h

/-- The map of a list of bindings, of which the last one of a key holds. -/
def ofList (bindings : List (α × β)) : OrderedMap α β :=
  bindings.foldl (fun m binding => m.insert binding.1 binding.2) ∅

end OrderedMap

end SolverAudit
