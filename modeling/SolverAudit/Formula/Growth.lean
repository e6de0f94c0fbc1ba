import SolverAudit.Formula.Dimacs
import SolverAudit.Tree.Generator

/-!
# Growing formulas

A formula grows by a variable, by a unit clause whose literal is chosen at random among those that
are not in a unit clause yet, or by a random literal of a variable that a clause does not mention.
The last of these overflows when the formula has too many variables for its models to be found.
-/

namespace SolverAudit.Formula

variable {σ : Type}

def newVariable : Growth σ Formula where
  name := "new_variable"
  applies := satisfiable
  grow f := pure f.addVariable

/-- The literals that are not the literal of a unit clause. -/
def freeLiterals (f : Formula) : List Literal :=
  f.literals.filter fun l => !([l] ∈ f.clauses)

def absentFrom (f : Formula) (clause : Clause) : List Nat :=
  (List.range f.varCount).filter fun i => clause.all (·.index != i)

/-- The places of the clauses that do not mention every variable, with the variables they lack. -/
def openClauses (f : Formula) : List (Nat × List Nat) :=
  (f.clauses.zipIdx.map fun (clause, place) => (place, f.absentFrom clause)).filter
    fun (_, absent) => !absent.isEmpty

inductive Saturated where
  | everyLiteralPinned
  | everyClauseFull

instance : Cause Saturated where
  kind _ := .invalidState
  wording
    | .everyLiteralPinned => "all the literals are already involved in unit clauses"
    | .everyClauseFull => "all the clauses already contain a literal for each variable"

variable [Source σ]

def newClause : Growth σ Formula where
  name := "new_clause"
  applies f := f.satisfiable && !f.freeLiterals.isEmpty
  grow f :=
    match f.freeLiterals with
    | [] => throw (.of Saturated.everyLiteralPinned)
    | first :: others => do
      let l ← Context.choose (Source.pick first others)
      return f.addUnit l

def newLiteral : Growth σ Formula where
  name := "new_literal_in_clause"
  applies f := f.clauses.any fun clause => !(f.absentFrom clause).isEmpty
  grow f :=
    match f.openClauses with
    | [] => throw (.of Saturated.everyClauseFull)
    | first :: others => do
      let (place, absent) ← Context.choose (Source.pick first others)
      match absent with
      | [] => throw (.of Saturated.everyClauseFull)
      | first :: others =>
        let index ← Context.choose (Source.pick first others)
        let positive ← Context.choose Source.coin
        Attempt.lift (orFail (f.widen? place ⟨index, positive⟩))

def generator : Generator σ Formula where
  root := pure Formula.root
  growths := [newVariable, newClause, newLiteral]

end SolverAudit.Formula
