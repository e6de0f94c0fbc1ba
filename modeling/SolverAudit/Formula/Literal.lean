import SolverAudit.Text.Basic

/-!
# Literals

A literal is a propositional variable or its negation. Variables are numbered from one, and a
literal is written as the number of its variable, with a minus sign for the negation.
-/

namespace SolverAudit

structure Literal where
  /-- How many variables come before the one of the literal. -/
  index : Nat
  positive : Bool
deriving DecidableEq, Repr

namespace Literal

/-- Literals are ordered by variable, the negation first. -/
instance : Ord Literal := ⟨compareLex (compareOn index) (compareOn positive)⟩

instance : Std.TransOrd Literal :=
  inferInstanceAs (Std.TransCmp (compareLex (compareOn index) (compareOn positive)))

instance : Std.LawfulEqOrd Literal where
  compare_self := by
    intro l
    have h : compareLex (compareOn index) (compareOn positive) l l = .eq := Std.ReflCmp.compare_self
    exact h
  eq_of_compare := by
    intro l m h
    have h : compareLex (compareOn index) (compareOn positive) l m = .eq := h
    rw [compareLex_eq_eq] at h
    obtain ⟨sameIndex, samePolarity⟩ := h
    cases l
    cases m
    congr
    · exact Std.LawfulEqCmp.eq_of_compare sameIndex
    · exact Std.LawfulEqCmp.eq_of_compare samePolarity

def var (l : Literal) : Nat := l.index + 1

def negate (l : Literal) : Literal := { l with positive := !l.positive }

@[simp]
theorem negate_negate (l : Literal) : l.negate.negate = l := by
  simp [negate]

def toInt (l : Literal) : Int := if l.positive then l.var else -l.var

def ofInt? (n : Int) : Option Literal :=
  if n = 0 then none else some ⟨n.natAbs - 1, 0 < n⟩

@[simp]
theorem ofInt?_toInt (l : Literal) : ofInt? l.toInt = some l := by
  obtain ⟨index, positive⟩ := l
  cases positive <;> simp [ofInt?, toInt, var] <;> omega

def text (l : Literal) : List Char :=
  if l.positive then Numeral.digits l.var else '-' :: Numeral.digits l.var

instance : ToString Literal := ⟨fun l => String.ofList l.text⟩

end Literal

end SolverAudit
