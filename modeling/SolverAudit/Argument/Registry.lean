import SolverAudit.Failure
import SolverAudit.Ordered.Set

/-!
# Arguments and their registry

An argument is a label with the number it got when the label was first asked for. The registry is
the list of the labels asked for so far; the number of a label is its place in the list.
-/

namespace SolverAudit

structure Argument where
  id : Nat
  label : String
deriving DecidableEq, Repr

namespace Argument

instance : Ord Argument := ⟨compareLex (compareOn id) (compareOn label)⟩

instance : Std.TransOrd Argument :=
  inferInstanceAs (Std.TransCmp (compareLex (compareOn id) (compareOn label)))

instance : Std.LawfulEqOrd Argument where
  compare_self := by
    intro a
    have h : compareLex (compareOn id) (compareOn label) a a = .eq := Std.ReflCmp.compare_self
    exact h
  eq_of_compare := by
    intro a b h
    have h : compareLex (compareOn id) (compareOn label) a b = .eq := h
    rw [compareLex_eq_eq] at h
    obtain ⟨sameId, sameLabel⟩ := h
    cases a
    cases b
    congr
    · exact Std.LawfulEqCmp.eq_of_compare sameId
    · exact Std.LawfulEqCmp.eq_of_compare sameLabel

end Argument

structure Registry where
  labels : List String
  distinct : labels.Nodup
deriving DecidableEq

namespace Registry

def empty : Registry := ⟨[], .nil⟩

instance : EmptyCollection Registry := ⟨empty⟩

instance : Inhabited Registry := ⟨empty⟩

def size (r : Registry) : Nat := r.labels.length

def isEmpty (r : Registry) : Bool := r.labels.isEmpty

/-- The arguments in the order in which their labels were first asked for. -/
def arguments (r : Registry) : List Argument :=
  r.labels.zipIdx.map fun (label, id) => ⟨id, label⟩

def get? (r : Registry) (label : String) : Option Argument :=
  (r.labels.idxOf? label).map fun id => ⟨id, label⟩

/-- The argument of a label and the registry that knows it. -/
def intern (r : Registry) (label : String) : Argument × Registry :=
  if h : label ∈ r.labels then
    (⟨r.labels.idxOf label, label⟩, r)
  else
    (⟨r.size, label⟩,
      { labels := r.labels ++ [label]
        distinct := by
          refine List.nodup_append.2 ⟨r.distinct, by simp, ?_⟩
          intro known hk other ho
          rw [List.mem_singleton.1 ho]
          exact fun same => h (same ▸ hk) })

structure Unknown where
  label : String

instance : Cause Unknown where
  kind _ := .other
  wording u := "no such argument: " ++ u.label

def get (r : Registry) (label : String) : Except Unknown Argument :=
  match r.get? label with
  | some a => .ok a
  | none => .error ⟨label⟩

end Registry

end SolverAudit
