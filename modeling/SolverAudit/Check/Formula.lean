import SolverAudit.Check.Verdict
import SolverAudit.Decimal.Shortest
import SolverAudit.Formula.Counting
import SolverAudit.Status.Count
import SolverAudit.Status.Satisfiability

/-!
# Checking answers about formulas

A model may leave variables open, but must satisfy every clause by itself. Counts must be exact, and
weighted counts are compared as floating-point numbers with a tolerance.
-/

namespace SolverAudit

/-! ### Satisfiability -/

namespace Formula

def judgeModel (f : Formula) (values : List Literal) : Verdict :=
  let m : Assignment := .ofList values
  match m.toList.find? fun l => l.negate ∈ m with
  | some l => .failure (.bothPolarities l.var)
  | none =>
    match m.toList.find? fun l => f.varCount ≤ l.index with
    | some l => .failure (.outOfBounds ⟨l, f.varCount⟩)
    | none =>
      match f.clauses.find? fun clause => !satisfies m clause with
      | some clause => .failure (.unsatisfied clause)
      | none => .success

def judge (f : Formula) : Satisfiability → Verdict
  | .satisfiable values =>
    if f.satisfiable then f.judgeModel values else .failure (.wrongStatus false)
  | .unsatisfiable => if f.satisfiable then .failure (.wrongStatus true) else .success
  | .unknown => .failure .undecided

def check (f : Formula) (output : String) : Except Failure Verdict :=
  (Status.readSatisfiability output).map f.judge

end Formula

/-! ### Counts -/

inductive CountFault where
  | notNatural (word : List Char)
  | notNumber (word : List Char)

instance : Cause CountFault where
  kind _ := .malformed
  wording
    | .notNatural word =>
      let word := String.ofList word
      s!"\"{word}\" is not a non-negative integer"
    | .notNumber word =>
      let word := String.ofList word
      s!"\"{word}\" is not a number"

/-- A count of models, which fits into one hundred and twenty-eight bits. -/
def exactCount (word : List Char) : Except Failure Nat :=
  match Numeral.unsigned? 128 word with
  | some n => .ok n
  | none => .error (.of (CountFault.notNatural word))

def approximateCount (word : List Char) : Except Failure Float :=
  match DecimalNotation.read? Char.isDigit word with
  | some n => .ok n.toFloat
  | none => during "while reading a weighted count" (.error (.of (CountFault.notNumber word)))

def CountingProblem.check (p : CountingProblem) (output : String) : Except Failure Verdict := do
  let word ← Status.readCount output
  let given ← exactCount word
  return Verdict.compare toString p.count given

/-- Two numbers are taken as equal if they differ by at most this part of the expected one. -/
def countTolerance : Float := Binary64.toFloat false (Binary64.ofDecimal 1 (-9))

def isNear (given expected : Float) : Bool :=
  let scale := if expected.abs < 1 then 1 else expected.abs
  (given - expected).abs ≤ countTolerance * scale

def WeightedCountingProblem.check (p : WeightedCountingProblem) (output : String) :
    Except Failure Verdict := do
  let word ← Status.readCount output
  let given ← approximateCount word
  if isNear given (Binary64.toFloat false (Binary64.ofDecimal p.count 0)) then
    return .success
  else
    return .failure (.mismatch (toString p.count) (Shortest.text given))

end SolverAudit
