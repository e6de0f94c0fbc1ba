import SolverAudit.Argument.Admissible

/-!
# The grounded extension

Arguments without attackers are accepted, what they attack is defeated, and an argument all of whose
attackers are defeated is accepted in turn. Each argument carries the number of its attackers that
are not defeated yet, and waits on a stack once the number is zero.
-/

namespace SolverAudit.Framework

def Characteristic (af : Framework) (s : Nat → Prop) (a : Nat) : Prop :=
  a < af.size ∧ af.Defends s a

structure Labelling where
  /-- For each place, how many of its attackers are not defeated. -/
  live : List Nat
  defeated : List Nat
  /-- The places waiting to be accepted, the next one first. -/
  pending : List Nat
  accepted : List Nat
deriving DecidableEq, Repr

namespace Labelling

/-- One attacker of the place is no longer live; without any, the place waits for acceptance. -/
def release (l : Labelling) (place : Nat) : Labelling :=
  let left := l.live.getD place 0 - 1
  { l with
    live := l.live.set place left
    pending := if left = 0 then place :: l.pending else l.pending }

/-- The place is defeated, unless it was before. -/
def defeat (af : Framework) (l : Labelling) (place : Nat) : Labelling :=
  if place ∈ l.defeated then l
  else (af.attackedBy place).foldl release { l with defeated := place :: l.defeated }

def advance (af : Framework) (l : Labelling) : Labelling :=
  match l.pending with
  | [] => l
  | place :: pending =>
    (af.attackedBy place).foldl (defeat af)
      { l with pending, accepted := place :: l.accepted }

end Labelling

/-- Before any acceptance, the places without attackers wait, the last one next. -/
def unlabelled (af : Framework) : Labelling where
  live := (List.range af.size).map fun place => (af.attackersOf place).length
  defeated := []
  pending := ((List.range af.size).filter fun place => (af.attackersOf place).isEmpty).reverse
  accepted := []

def labelling (af : Framework) : (rounds : Nat) → Labelling
  | 0 => af.unlabelled
  | rounds + 1 => (af.labelling rounds).advance af

/-- The places of the grounded extension; every round accepts one, so there are no more rounds than
arguments. -/
def groundedPlaces (af : Framework) : List Nat :=
  (af.labelling af.size).accepted

def grounded (af : Framework) : OrderedSet Argument :=
  af.argumentSet af.groundedPlaces

end SolverAudit.Framework
