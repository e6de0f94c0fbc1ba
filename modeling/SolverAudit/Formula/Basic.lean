import SolverAudit.Formula.Assignment

/-!
# Formulas

A formula has numbered variables and clauses, and knows its models, the total assignments that
satisfy every clause. Each way of enlarging a formula brings the models up to date without starting
over. Where this takes another look at all assignments, it overflows with too many variables.
-/

namespace SolverAudit

structure Formula where
  varCount : Nat
  clauses : List Clause
  models : OrderedSet Assignment
deriving DecidableEq

/-- A literal of a variable that a formula does not have. -/
structure OutOfBounds where
  literal : Literal
  varCount : Nat
deriving DecidableEq, Repr

instance : Cause OutOfBounds where
  kind _ := .invalidArgument
  wording o :=
    let literal := o.literal
    let varCount := o.varCount
    s!"literal {literal} is out of bounds (number of variables is {varCount})"

namespace Formula

/-- The formula without variables and clauses, whose only model is the empty one. -/
def root : Formula := ⟨0, [], .ofList [∅]⟩

/-- The models are exactly the total assignments that satisfy every clause. -/
def Sound (f : Formula) : Prop :=
  ∀ m, m ∈ f.models ↔ m.Total f.varCount ∧ ∀ clause ∈ f.clauses, satisfies m clause

def ofClauses (varCount : Nat) (clauses : List Clause) : Except Failure Formula :=
  match clauses.flatten.find? fun l => varCount ≤ l.index with
  | some literal => .error (.of (⟨literal, varCount⟩ : OutOfBounds))
  | none => do
    let ms ← orFail (solutions? varCount clauses)
    return ⟨varCount, clauses, .ofList ms⟩

def literals (f : Formula) : List Literal := SolverAudit.literals f.varCount

def satisfiable (f : Formula) : Bool := !f.models.isEmpty

/-! ### Enlarging a formula -/

/-- One more variable, which may be true or false in every model. -/
def addVariable (f : Formula) : Formula where
  varCount := f.varCount + 1
  clauses := f.clauses
  models := .ofList (f.models.toList.flatMap fun m =>
    [m.insert ⟨f.varCount, false⟩, m.insert ⟨f.varCount, true⟩])

/-- One more clause, made of a single literal. -/
def addUnit (f : Formula) (l : Literal) : Formula where
  varCount := f.varCount
  clauses := f.clauses ++ [[l]]
  models := f.models.filter (l ∈ ·)

/-- One more literal in the clause at the given place. The models that this adds are found among all
assignments. -/
def widen? (f : Formula) (place : Nat) (l : Literal) : Except Mask.Overflow Formula := do
  let clauses := f.clauses.modify place (· ++ [l])
  let ms ← solutions? f.varCount clauses
  return { f with clauses, models := f.models.union (.ofList ms) }

end Formula

end SolverAudit
