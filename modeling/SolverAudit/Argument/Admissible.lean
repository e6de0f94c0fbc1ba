import SolverAudit.Argument.Framework

/-!
# Admissible sets

A set of arguments is conflict-free when no member attacks a member, and admissible when moreover
each attacker of a member is attacked by a member. The admissible sets are found by deciding for one
argument after the other whether it joins, an argument in conflict with the set being left out. The
set is changed in place, and each argument that joined leaves again before the search goes back.
-/

namespace SolverAudit.Framework

/-! ### The notions -/

def ConflictFree (af : Framework) (s : Nat → Prop) : Prop :=
  ∀ a b, s a → s b → ¬ af.hasAttack a b

def Defends (af : Framework) (s : Nat → Prop) (a : Nat) : Prop :=
  ∀ b, af.hasAttack b a → ∃ c, s c ∧ af.hasAttack c b

/-- The set holds only arguments of the framework, is conflict-free and defends its members. -/
structure Admissible (af : Framework) (s : Nat → Prop) : Prop where
  within : ∀ a, s a → a < af.size
  conflictFree : af.ConflictFree s
  defended : ∀ a, s a → af.Defends s a

/-- An admissible set that holds every argument it defends. -/
structure Complete (af : Framework) (s : Nat → Prop) : Prop extends af.Admissible s where
  closed : ∀ a, a < af.size → af.Defends s a → s a

/-! ### The search -/

/-- The search in progress. Its members are kept twice, in the order in which they joined and as one
flag for each place of the framework. -/
structure Search where
  members : List Nat
  inSet : List Bool
  found : OrderedSet (OrderedSet Argument)

namespace Search

def start (af : Framework) : Search := ⟨[], List.replicate af.size false, ∅⟩

def isMember (s : Search) (place : Nat) : Bool := s.inSet.getD place false

/-- The place joins as the last member. -/
def push (s : Search) (place : Nat) : Search :=
  { s with inSet := s.inSet.set place true, members := s.members ++ [place] }

/-- The last member, which is at the place, leaves again. -/
def pop (s : Search) (place : Nat) : Search :=
  { s with members := s.members.dropLast, inSet := s.inSet.set place false }

def record (s : Search) (e : OrderedSet Argument) : Search := { s with found := s.found.insert e }

end Search

/-- Whether a place may join members that are in conflict neither with themselves nor with it. -/
def canJoin (af : Framework) (s : Search) (place : Nat) : Bool :=
  !af.hasAttack place place &&
    (af.attackedBy place).all (fun a => !s.isMember a) &&
    (af.attackersOf place).all (fun a => !s.isMember a)

def defendsMembers (af : Framework) (s : Search) : Bool :=
  s.members.all fun m => (af.attackersOf m).all fun attacker =>
    (af.attackersOf attacker).any s.isMember

/-- Decides for each of the places left whether it joins, first that it does not and then, if it
may, that it does. -/
def enumerate (af : Framework) : (places : List Nat) → Search → Search
  | [], s => if af.defendsMembers s then s.record (af.argumentSet s.members) else s
  | next :: rest, s =>
    let s := enumerate af rest s
    if af.canJoin s next then (enumerate af rest (s.push next)).pop next else s

def extensions (af : Framework) : OrderedSet (OrderedSet Argument) :=
  (af.enumerate (List.range af.size) (.start af)).found

def extensionLabels (af : Framework) : OrderedSet (OrderedSet String) :=
  af.extensions.image fun e => e.image Argument.label

/-! ### Testing one set -/

def isConflictFree (af : Framework) (members : List Nat) : Bool :=
  members.all fun a => members.all fun b => !af.hasAttack a b

/-- Whether the members from a point on are defended by the set, as far as the answer is needed: the
attackers of a place outside the framework cannot be told. -/
def areDefended? (af : Framework) (set : List Nat) : (members : List Nat) → Option Bool
  | [] => some true
  | m :: rest =>
    match af.attackersOf? m with
    | none => none
    | some attackers =>
      if attackers.all fun attacker => set.any fun d => af.hasAttack d attacker then
        areDefended? af set rest
      else
        some false

/-- Whether a set of places is admissible; none if that hangs on a place outside the framework. -/
def isAdmissible? (af : Framework) (set : List Nat) : Option Bool :=
  if af.isConflictFree set then af.areDefended? set set else some false

end SolverAudit.Framework
