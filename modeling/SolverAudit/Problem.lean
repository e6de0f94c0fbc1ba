import SolverAudit.Argument.Growth
import SolverAudit.Formula.Counting
import SolverAudit.Tree.Walk
import SolverAudit.Tree.Weighting

/-!
# Problems

The kinds of problems that instances are generated of, each with its instances and its generator.
-/

namespace SolverAudit

inductive Problem where
  | frameworks
  | formulas
  | counting
  | weighted
  | weightedCounting
deriving DecidableEq, Repr

namespace Problem

def all : List Problem := [.frameworks, .formulas, .counting, .weighted, .weightedCounting]

def name : Problem → String
  | .frameworks => "AF"
  | .formulas => "CNF"
  | .counting => "MC"
  | .weighted => "WCNF"
  | .weightedCounting => "WMC"

def description : Problem → String
  | .frameworks => "argumentation frameworks and their extensions"
  | .formulas => "CNF formulas and their models"
  | .counting => "CNF formulas and their number of models"
  | .weighted => "weighted CNF formulas and their models"
  | .weightedCounting => "weighted CNF formulas and their weighted number of models"

structure Unknown where
  name : String

instance : Cause Unknown where
  kind _ := .invalidArgument
  wording u :=
    let name := u.name
    let known := String.intercalate ", " (all.map Problem.name)
    s!"unknown generator \"{name}\" (expected one of {known})"

def ofName (name : String) : Except Unknown Problem :=
  match all.find? fun problem => problem.name = name with
  | some problem => .ok problem
  | none => .error ⟨name⟩

abbrev Instance : Problem → Type
  | .frameworks => Framework
  | .formulas => Formula
  | .counting => CountingProblem
  | .weighted => WeightedFormula
  | .weightedCounting => WeightedCountingProblem

instance : (problem : Problem) → Payloads problem.Instance
  | .frameworks => inferInstanceAs (Payloads Framework)
  | .formulas => inferInstanceAs (Payloads Formula)
  | .counting => inferInstanceAs (Payloads CountingProblem)
  | .weighted => inferInstanceAs (Payloads WeightedFormula)
  | .weightedCounting => inferInstanceAs (Payloads WeightedCountingProblem)

variable {σ : Type} [Source σ]

/-- The generator that tries each of its growths once. -/
def plain : (problem : Problem) → Generator σ problem.Instance
  | .frameworks => Framework.generator true
  | .formulas => Formula.generator
  | .counting => CountingProblem.generator
  | .weighted => WeightedFormula.generator
  | .weightedCounting => WeightedCountingProblem.generator

/-- Unit clauses, each with a literal of its own choice, are tried twice. -/
def formulaWeights : List (String × Int) :=
  [("new_variable", 1), ("new_clause", 2), ("new_literal_in_clause", 1)]

def weightedFormulaWeights : List (String × Int) :=
  formulaWeights ++ [("set_literal_weight", 1)]

/-- How often the growths are tried, if it is not once each. -/
def weights? : Problem → Option (List (String × Int))
  | .frameworks => none
  | .formulas | .counting => some formulaWeights
  | .weighted | .weightedCounting => some weightedFormulaWeights

def generator (problem : Problem) : Generator σ problem.Instance :=
  match problem.weights? with
  | none => problem.plain
  | some weights => problem.plain.repeated (timesOf weights)

/-- The weights of a problem match its growths, and so its generator is the weighted one. -/
theorem weighted_plain (problem : Problem) {weights : List (String × Int)}
    (h : problem.weights? = some weights) :
    (problem.plain : Generator σ _).weighted weights = .ok problem.generator := by
  cases problem with
  | frameworks => cases h
  | formulas | counting | weighted | weightedCounting =>
      cases h
      rfl

end Problem

end SolverAudit
