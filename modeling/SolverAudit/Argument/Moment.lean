import SolverAudit.Argument.Grounded
import SolverAudit.Argument.Tables

/-!
# Moments of the acceptance loop

The grounded extension is found by three loops within each other: over the places that wait, over
the targets of the place that was accepted, and over the places that a newly defeated target
attacks. Here they run on the tables one step at a time, and a step that would look up what a table
does not have, or count down from zero, cannot be made.
-/

namespace SolverAudit.Framework

/-- What happens to a place in the loops. -/
inductive Event where
  | push (place : Nat)
  | accept (place : Nat)
  | defeat (place : Nat)
deriving DecidableEq, Repr

def Event.isAccept : Event → Bool
  | accept _ => true
  | _ => false

structure Moment where
  labelling : Labelling
  /-- The places still to be looked at that the place accepted last attacks. -/
  targets : List Nat
  /-- The places still to be released that the place defeated last attacks. -/
  due : List Nat
deriving DecidableEq, Repr

namespace Moment

/-- The outer loop is about to look at the stack. -/
def IsBetweenRounds (m : Moment) : Prop := m.targets = [] ∧ m.due = []

def IsOver (m : Moment) : Prop := m.labelling.pending = [] ∧ m.IsBetweenRounds

end Moment

/-- Counts a place down, and pushes it when it gets to zero; none at zero. -/
def Labelling.lower? (l : Labelling) (place : Nat) : Option (List Event × Labelling) :=
  match l.live[place]? with
  | some (left + 1) => some (if left = 0 then [.push place] else [], l.release place)
  | _ => none

namespace Tables

/-- The counters start at the numbers of attackers, and the places whose counter is zero wait, the
last one next. -/
def start? (t : Tables) : Option Moment := do
  let live ← (List.range t.size).mapM fun place => (t.attackersOf? place).map List.length
  let pending := (List.range t.size).filter fun place => live[place]? == some 0
  return ⟨⟨live, [], pending.reverse, []⟩, [], []⟩

/-- The next step and what it does; none if the loop is over or the step cannot be made. -/
def step? (t : Tables) : Moment → Option (List Event × Moment)
  | ⟨l, targets, place :: due⟩ => do
    let (events, l) ← l.lower? place
    return (events, ⟨l, targets, due⟩)
  | ⟨l, target :: targets, []⟩ =>
    if t.size ≤ target then none
    else if target ∈ l.defeated then some ([], ⟨l, targets, []⟩)
    else do
      let due ← t.attackedBy? target
      return ([.defeat target], ⟨{ l with defeated := target :: l.defeated }, targets, due⟩)
  | ⟨l, [], []⟩ =>
    match l.pending with
    | [] => none
    | place :: pending => do
      let targets ← t.attackedBy? place
      return ([.accept place], ⟨{ l with pending, accepted := place :: l.accepted }, targets, []⟩)

/-- The loops get to the moment, and the log tells what has happened until then, the last event
first. -/
inductive Reaches (t : Tables) : (log : List Event) → Moment → Prop where
  | start {m : Moment} (hstart : t.start? = some m) :
      Reaches t (m.labelling.pending.map .push) m
  | step {log events : List Event} {m m' : Moment} (hm : Reaches t log m)
      (hstep : t.step? m = some (events, m')) : Reaches t (events ++ log) m'

end Tables

end SolverAudit.Framework
