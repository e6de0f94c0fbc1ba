import SolverAudit.Tree.Generator

/-!
# Weighted growths

Weights say how often each growth of a generator is tried on an instance. They have to name every
growth, and nothing else, and none may be negative.
-/

namespace SolverAudit

variable {σ ι : Type}

def firstOfName : List (Growth σ ι) → List (Growth σ ι)
  | [] => []
  | growth :: rest => growth :: (firstOfName rest).filter fun other => other.name != growth.name

/-- The generator with the first growth of each name tried so many times on each instance. -/
def Generator.repeated (g : Generator σ ι) (times : String → Nat) : Generator σ ι :=
  { g with
    effective := (firstOfName g.growths).flatMap fun growth =>
      List.replicate (times growth.name) growth }

inductive WeightFault where
  | negative (name : String) (weight : Int)
  | unknown (name : String)
  | missing (name : String)
deriving DecidableEq, Repr

instance : Cause WeightFault where
  kind _ := .invalidConfiguration
  wording
    | .negative name weight => s!"negative weight {weight} for translator \"{name}\""
    | .unknown name => s!"no translator named \"{name}\""
    | .missing name => s!"no weight given for translator \"{name}\""

def faultOfWeight? (names : List String) : String × Int → Option WeightFault
  | (name, weight) =>
    if weight < 0 then some (.negative name weight)
    else if name ∈ names then none
    else some (.unknown name)

/-- What is wrong with weights for growths of the given names: each weight is looked at in turn,
then each name. -/
def weightFault? (names : List String) (weights : List (String × Int)) : Option WeightFault :=
  (weights.findSome? (faultOfWeight? names)).or
    ((names.find? fun name => (weights.lookup name).isNone).map .missing)

def timesOf (weights : List (String × Int)) (name : String) : Nat :=
  ((weights.lookup name).getD 0).toNat

/-- The generator whose growths are tried as often as their weights say. -/
def Generator.weighted (g : Generator σ ι) (weights : List (String × Int)) :
    Except WeightFault (Generator σ ι) :=
  match weightFault? ((firstOfName g.growths).map Growth.name) weights with
  | some fault => .error fault
  | none => .ok (g.repeated (timesOf weights))

def checkWeight (names : List String) (weight : String × Int) : Except WeightFault Unit :=
  match faultOfWeight? names weight with
  | some fault => .error fault
  | none => .ok ()

def addTimes (weights : List (String × Int)) (effective : List (Growth σ ι))
    (growth : Growth σ ι) : Except WeightFault (List (Growth σ ι)) :=
  match weights.lookup growth.name with
  | some weight => .ok (effective ++ List.replicate weight.toNat growth)
  | none => .error (.missing growth.name)

/-- The growths to be tried, made anew: each weight is checked first, then each growth is added as
often as its weight says. -/
def Generator.effectiveBy (g : Generator σ ι) (weights : List (String × Int)) :
    Except WeightFault (List (Growth σ ι)) := do
  let distinct := firstOfName g.growths
  weights.forM (checkWeight (distinct.map Growth.name))
  distinct.foldlM (addTimes weights) []

end SolverAudit
