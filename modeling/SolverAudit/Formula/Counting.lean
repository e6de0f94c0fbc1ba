import SolverAudit.Formula.Weighted

/-!
# Counting problems

A formula may be asked for the number of its models, and a weighted formula for the sum of their
weights.
-/

namespace SolverAudit

variable {σ : Type} [Source σ]

structure CountingProblem where
  formula : Formula
deriving DecidableEq

namespace CountingProblem

def count (p : CountingProblem) : Nat := p.formula.models.size

instance : Payloads CountingProblem where
  kinds := ["cnf", "count"]
  text? p
    | "cnf" => Payloads.text? p.formula "cnf"
    | "count" => some (Dimacs.count p.count)
    | _ => none

def adaptation : Adaptation Formula CountingProblem where
  base := formula
  ofBase f := .ok ⟨f⟩

def generator : Generator σ CountingProblem :=
  Formula.generator.adapt adaptation []

end CountingProblem

structure WeightedCountingProblem where
  weighted : WeightedFormula
deriving DecidableEq

namespace WeightedCountingProblem

def count (p : WeightedCountingProblem) : Nat := p.weighted.count

instance : Payloads WeightedCountingProblem where
  kinds := ["cnf", "weights", "count"]
  text? p
    | "cnf" => Payloads.text? p.weighted "cnf"
    | "weights" => Payloads.text? p.weighted "weights"
    | "count" => some (Dimacs.count p.count)
    | _ => none

def adaptation : Adaptation WeightedFormula WeightedCountingProblem where
  base := weighted
  ofBase w := .ok ⟨w⟩

def generator : Generator σ WeightedCountingProblem :=
  WeightedFormula.generator.adapt adaptation []

end WeightedCountingProblem

end SolverAudit
