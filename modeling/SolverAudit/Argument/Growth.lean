import SolverAudit.Answer.Dialect
import SolverAudit.Argument.Admissible
import SolverAudit.Argument.Framework
import SolverAudit.Tree.Generator

/-!
# Growing frameworks

A framework grows by a new argument, labelled with its place, or by a new attack, whose source and
target are chosen at random.
-/

namespace SolverAudit.Framework

variable {σ : Type}

def newLabel (af : Framework) : String :=
  let size := af.size
  s!"a{size}"

def newArgument : Growth σ Framework where
  name := "new_argument"
  applies _ := true
  grow af := do
    let argument ← Context.intern af.newLabel
    Attempt.lift (orFail (af.addArgument argument))

def missingTargets (selfAttacks : Bool) (af : Framework) (source : Nat) : List Nat :=
  (List.range af.size).filter fun target =>
    (selfAttacks || target != source) && !af.hasAttack source target

def missingAttacks (selfAttacks : Bool) (af : Framework) : List (Nat × List Nat) :=
  ((List.range af.size).map fun source => (source, af.missingTargets selfAttacks source)).filter
    fun (_, targets) => !targets.isEmpty

/-- Whether an attack is missing, found by counting. -/
def lacksAttack (selfAttacks : Bool) (af : Framework) : Bool :=
  let selfAttackCount := ((List.range af.size).filter fun i => af.hasAttack i i).length
  if selfAttacks then af.attacks.length < af.size * af.size
  else af.attacks.length - selfAttackCount < af.size * (af.size - 1)

inductive Saturated where
  | saturated

instance : Cause Saturated where
  kind _ := .invalidState
  wording _ := "cannot add an attack to a framework with a complete attack relation"

def newAttack [Source σ] (selfAttacks : Bool) : Growth σ Framework where
  name := "new_attack"
  applies := lacksAttack selfAttacks
  grow af :=
    match af.missingAttacks selfAttacks with
    | [] => throw (.of Saturated.saturated)
    | first :: others => do
      let (source, targets) ← Context.choose (Source.pick first others)
      match targets with
      | [] => throw (.of Saturated.saturated)
      | first :: others =>
        let target ← Context.choose (Source.pick first others)
        Attempt.lift (orFail (af.addAttack source target))

/-- The generator of frameworks, from the one without arguments. -/
def generator [Source σ] (selfAttacks : Bool) : Generator σ Framework where
  root := pure ∅
  growths := [newArgument, newAttack selfAttacks]

/-- A framework is given as its two listings, and its admissible sets one a line. -/
instance : Payloads Framework where
  kinds := ["apx", "tgf", "extensions"]
  text? af
    | "apx" => some af.facts
    | "tgf" => some af.graph
    | "extensions" => some (Dialect.iccma19.writeSet af.extensionLabels)
    | _ => none

end SolverAudit.Framework
