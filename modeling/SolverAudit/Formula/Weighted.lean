import SolverAudit.Formula.Growth
import SolverAudit.Ordered.Map
import SolverAudit.Tree.Generator

/-!
# Weighted formulas

Every literal of a weighted formula has a positive weight, either its own or a common one. A model
weighs the product of the weights of its literals.
-/

namespace SolverAudit

structure WeightedFormula where
  formula : Formula
  /-- The literals with a weight of their own. -/
  weights : OrderedMap Literal Nat
deriving DecidableEq

namespace WeightedFormula

/-- A weight that is zero or given to a variable that the formula does not have. -/
structure RejectedWeight where
  literal : Literal
  weight : Nat
  varCount : Nat

instance : Cause RejectedWeight where
  kind _ := .invalidArgument
  wording r :=
    let literal := r.literal
    let weight := r.weight
    let varCount := r.varCount
    s!"cannot set weight {weight} to literal {literal} (number of variables is {varCount})"

def weigh (f : Formula) (weights : OrderedMap Literal Nat) :
    Except RejectedWeight WeightedFormula :=
  match weights.bindings.find? fun (l, weight) => weight == 0 || f.varCount ≤ l.index with
  | some (literal, weight) => .error ⟨literal, weight, f.varCount⟩
  | none => .ok ⟨f, weights⟩

/-- The weight of the literals without one of their own. -/
def commonWeight : Nat := 2

def literalWeight (w : WeightedFormula) (l : Literal) : Nat :=
  (w.weights.get? l).getD commonWeight

def isExplicit (w : WeightedFormula) (l : Literal) : Bool := w.weights.contains l

def modelWeight (w : WeightedFormula) (m : Assignment) : Nat :=
  m.toList.foldr (fun l product => w.literalWeight l * product) 1

def count (w : WeightedFormula) : Nat :=
  w.formula.models.toList.foldr (fun m sum => w.modelWeight m + sum) 0

def table (w : WeightedFormula) : List (Literal × Nat) :=
  w.formula.literals.map fun l => (l, w.literalWeight l)

instance : Payloads WeightedFormula where
  kinds := ["cnf", "weights", "models"]
  text? w
    | "cnf" => Payloads.text? w.formula "cnf"
    | "weights" => some (Dimacs.weights w.table)
    | "models" => Payloads.text? w.formula "models"
    | _ => none

/-! ### Growth -/

variable {σ : Type}

/-- A formula is first weighed with the common weight alone, and keeps its weights as it grows. -/
def adaptation : Adaptation Formula WeightedFormula where
  base := formula
  ofBase f := .ok ⟨f, ∅⟩
  rebuild w f := orFail (weigh f w.weights)

def setWeight (w : WeightedFormula) (l : Literal) (weight : Nat) : WeightedFormula :=
  { w with weights := w.weights.insert l weight }

def unweighted (w : WeightedFormula) : List Literal :=
  w.formula.literals.filter fun l => !w.isExplicit l

inductive Saturated where
  | everyLiteralWeighted

instance : Cause Saturated where
  kind _ := .invalidState
  wording _ := "all the literals already have an explicit weight"

variable [Source σ]

/-- The growth by the weight of a literal, from one to nine. -/
def newWeight : Growth σ WeightedFormula where
  name := "set_literal_weight"
  applies w := w.formula.literals.any fun l => !w.isExplicit l
  grow w :=
    match w.unweighted with
    | [] => throw (.of Saturated.everyLiteralWeighted)
    | first :: others => do
      let l ← Context.choose (Source.pick first others)
      let weight ← Context.choose (Source.upTo 8)
      return w.setWeight l (weight.val + 1)

def generator : Generator σ WeightedFormula :=
  Formula.generator.adapt adaptation [newWeight]

end WeightedFormula

end SolverAudit
