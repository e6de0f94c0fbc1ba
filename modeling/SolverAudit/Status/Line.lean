import SolverAudit.Failure
import SolverAudit.Text.Basic

/-!
# The lines of a solver's output

Solvers for formulas answer line by line. Blanks at the end of a line do not count, and empty lines
and comments, which start with the letter c, are passed over.
-/

namespace SolverAudit.Status

def isRelevant (line : List Char) : Bool :=
  !line.isEmpty && line.head? != some 'c'

/-- The relevant lines, trimmed, with their numbers among all lines, which start from one. -/
def relevantLines (output : List Char) : List (List Char × Nat) :=
  (((lines output).map trimEnd).zipIdx 1).filter fun (line, _) => isRelevant line

inductive Fault where
  | unknownStatus (line : List Char)
  | repeatedStatus
  | unexpectedLine (line : List Char)
  | notLiteral (word : List Char)
  | valueAfterEnd
  | notNumber (word : List Char)
  | noValues
  | unterminatedValues
  | strayValues
  | noStatus
deriving DecidableEq, Repr

instance : Cause Fault where
  kind _ := .malformed
  wording
    | .unknownStatus line =>
      let line := String.ofList line
      s!"unknown status line \"{line}\""
    | .repeatedStatus => "multiple status lines"
    | .unexpectedLine line =>
      let line := String.ofList line
      s!"unexpected line \"{line}\""
    | .notLiteral word =>
      let word := String.ofList word
      s!"\"{word}\" is not a literal"
    | .valueAfterEnd => "value after the terminating zero"
    | .notNumber word =>
      let word := String.ofList word
      s!"\"{word}\" is not a number"
    | .noValues => "satisfiable status without values"
    | .unterminatedValues => "values are not terminated by a zero"
    | .strayValues => "values given while the status is not satisfiable"
    | .noStatus => "no status line"

variable {α : Type}

def readNumbered (readLine : α → List Char → Except Fault α) (progress : α) :
    List Char × Nat → Except Failure α
  | (line, number) =>
    during s!"while reading line {number} of the solver output" (orFail (readLine progress line))

def readLines (readLine : α → List Char → Except Fault α) (start : α) (output : String) :
    Except Failure α :=
  (relevantLines output.toList).foldlM (readNumbered readLine) start

end SolverAudit.Status
