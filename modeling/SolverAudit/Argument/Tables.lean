import SolverAudit.Argument.Framework

/-!
# The tables of a framework

A framework is kept as tables that tell its attacks three times: as a set, and for each place as the
list of the places that it attacks and the list of those that attack it. What adds to a framework
changes one table after the other, and a change that is made before a refusal stays.
-/

namespace SolverAudit.Framework

/-- A call that adds to a framework. -/
inductive Call where
  | argument (a : Argument)
  | attack (source target : Nat)
deriving DecidableEq, Repr

def call (af : Framework) : Call → Except Refusal Framework
  | .argument a => af.addArgument a
  | .attack source target => af.addAttack source target

/-- A framework stays as it is if the call is refused. -/
def afterCall (af : Framework) (c : Call) : Framework :=
  match af.call c with
  | .ok af' => af'
  | .error _ => af

def afterCalls (calls : List Call) : Framework := calls.foldl afterCall ∅

structure Tables where
  arguments : List Argument
  attacks : OrderedSet Attack
  /-- For each place, the places that it attacks, in the order in which the attacks were added. -/
  attacksFrom : List (List Nat)
  /-- For each place, the places that attack it, in the order in which the attacks were added. -/
  attacksTo : List (List Nat)
deriving DecidableEq

namespace Tables

def empty : Tables := ⟨[], ∅, [], []⟩

instance : EmptyCollection Tables := ⟨empty⟩

/-! ### Reading the tables -/

def size (t : Tables) : Nat := t.arguments.length

def hasAttack (t : Tables) (source target : Nat) : Bool :=
  (⟨source, target⟩ : Attack) ∈ t.attacks

def attackedBy? (t : Tables) (source : Nat) : Option (List Nat) := t.attacksFrom[source]?

def attackersOf? (t : Tables) (target : Nat) : Option (List Nat) := t.attacksTo[target]?

/-- The arguments at the ends of an attack; none if one of them is not there. -/
def ends? (t : Tables) (a : Attack) : Option (Argument × Argument) := do
  let source ← t.arguments[a.source]?
  let target ← t.arguments[a.target]?
  return (source, target)

/-- The arguments at the ends of each attack, in increasing order of the attacks. -/
def attackArguments? (t : Tables) : Option (List (Argument × Argument)) :=
  t.attacks.toList.mapM t.ends?

/-! ### Changing the tables -/

/-- A change of the tables that may be refused, and keeps what it has done before when it is; none
if it asks for a place that a table does not have. -/
abbrev Edit (α : Type) := ExceptT Refusal (StateT Tables Option) α

namespace Edit

variable {α : Type}

/-- The result of a change and the tables it leaves. -/
def on (edit : Edit α) (t : Tables) : Option (Except Refusal α × Tables) := edit.run.run t

def ask (read : Tables → Option α) : Edit α :=
  ExceptT.mk fun t => (read t).map fun x => (.ok x, t)

def labelAt (place : Nat) : Edit String := do
  let a ← ask fun t => t.arguments[place]?
  return a.label

/-- Tells whether the attack is new to the set. -/
def insertAttack (a : Attack) : Edit Bool := do
  let t ← get
  set { t with attacks := t.attacks.insert a }
  return !(a ∈ t.attacks)

/-- The list of a place gets one more place at its end. -/
def pushAt? (lists : List (List Nat)) (place other : Nat) : Option (List (List Nat)) := do
  let list ← lists[place]?
  return lists.set place (list ++ [other])

def pushFrom (source target : Nat) : Edit Unit := do
  let attacksFrom ← ask fun t => pushAt? t.attacksFrom source target
  modify fun t => { t with attacksFrom }

def pushTo (source target : Nat) : Edit Unit := do
  let attacksTo ← ask fun t => pushAt? t.attacksTo target source
  modify fun t => { t with attacksTo }

end Edit

/-- Adds an argument and tells its place. -/
def addArgument (a : Argument) : Edit Nat := do
  let t ← get
  if a ∈ t.arguments then
    throw (.argumentPresent a.label)
  else
    modify fun t => { t with arguments := t.arguments ++ [a] }
    modify fun t => { t with attacksFrom := t.attacksFrom ++ [[]] }
    modify fun t => { t with attacksTo := t.attacksTo ++ [[]] }
    let t ← get
    return t.size - 1

def addAttack (source target : Nat) : Edit Unit := do
  let t ← get
  if t.size ≤ source ∨ t.size ≤ target then
    throw (.outOfRange source target t.size)
  else if ← Edit.insertAttack ⟨source, target⟩ then
    Edit.pushFrom source target
    Edit.pushTo source target
  else
    let sourceLabel ← Edit.labelAt source
    let targetLabel ← Edit.labelAt target
    throw (.attackPresent sourceLabel targetLabel)

def call : Call → Edit Unit
  | .argument a => do
    let _ ← addArgument a
  | .attack source target => addAttack source target

/-- The tables after calls, each of which may have been refused. -/
def afterCalls? (calls : List Call) : Option Tables :=
  calls.foldlM (fun t c => ((call c).on t).map Prod.snd) ∅

end Tables

/-- The tables that tell the framework. -/
def tables (af : Framework) : Tables where
  arguments := af.arguments
  attacks := af.attackSet
  attacksFrom := (List.range af.size).map af.attackedBy
  attacksTo := (List.range af.size).map af.attackersOf

end SolverAudit.Framework
