import SolverAudit.Failure
import SolverAudit.Formula.Literal
import SolverAudit.Ordered.Set

/-!
# Assignments

A total assignment is kept as the set of its true literals, one of each variable. The assignments of
the first variables are counted off by a mask that runs up from zero, one bit for each variable.
Masks have one hundred and twenty-eight bits, so the limit of the count is a mask as long as there
are fewer variables than that, and with more of them the count overflows before it starts.
-/

namespace SolverAudit

abbrev Clause := List Literal

abbrev Assignment := OrderedSet Literal

/-- One literal of each of the first variables, and nothing else. -/
structure Assignment.Total (varCount : Nat) (m : Assignment) : Prop where
  within : ∀ l ∈ m, l.index < varCount
  decided : ∀ i < varCount, ∃ positive, ⟨i, positive⟩ ∈ m
  consistent : ∀ l ∈ m, l.negate ∉ m

def literals (varCount : Nat) : List Literal :=
  (List.range varCount).flatMap fun i => [⟨i, false⟩, ⟨i, true⟩]

theorem mem_literals {varCount : Nat} {l : Literal} :
    l ∈ literals varCount ↔ l.index < varCount := by
  obtain ⟨index, positive⟩ := l
  cases positive <;> simp [literals]

/-! ### Counting off -/

abbrev Mask := BitVec 128

namespace Mask

/-- The mask in which only the bit at a place is set; no bit is, if there is no such place. -/
def single (place : Nat) : Mask := (1 : Mask) <<< place

def isSet (mask : Mask) (place : Nat) : Bool := (mask &&& single place) != 0

/-- The masks from zero on that are below the limit. -/
def below (limit : Mask) : List Mask := (List.range limit.toNat).map (BitVec.ofNat 128)

/-- The literals of the variables, numbered from one, by the bits of the mask. -/
def assignment (varCount : Nat) (mask : Mask) : Assignment :=
  .ofList ((List.range' 1 varCount).map fun var => ⟨var - 1, mask.isSet (var - 1)⟩)

def assignments (varCount : Nat) : List Assignment :=
  (below (single varCount)).map (assignment varCount)

/-- So many of the assignments, the one without true variables first. -/
def firstAssignments (varCount count : Nat) : List Assignment :=
  (List.range (min count (single varCount).toNat)).map fun bits =>
    assignment varCount (BitVec.ofNat 128 bits)

inductive Overflow where
  | noSuchPlace
deriving DecidableEq, Repr

instance : Cause Overflow where
  kind _ := .overflow
  wording _ := "attempt to shift left with overflow"

/-- Shifting a bit to a place that masks do not have overflows. -/
def checkPlace (place : Nat) : Except Overflow Unit :=
  if place < 128 then .ok () else .error .noSuchPlace

def assignments? (varCount : Nat) : Except Overflow (List Assignment) := do
  checkPlace varCount
  return assignments varCount

def firstAssignments? (varCount count : Nat) : Except Overflow (List Assignment) := do
  checkPlace varCount
  return firstAssignments varCount count

end Mask

/-- Whether an assignment, or any set of literals, makes a literal of the clause true. -/
def satisfies (m : Assignment) (clause : Clause) : Bool :=
  clause.any (· ∈ m)

/-- The assignments that satisfy every clause, found by going through all of them. -/
def solutions? (varCount : Nat) (clauses : List Clause) :
    Except Mask.Overflow (List Assignment) := do
  let ms ← Mask.assignments? varCount
  return ms.filter fun m => clauses.all (satisfies m)

end SolverAudit
