import SolverAudit.Answer.Reader
import SolverAudit.Formula.Basic
import SolverAudit.Text.Quoted

/-!
# Verdicts

The verdict on an answer that could be read: it is right, or it differs from the expected one in a
way that can be told.
-/

namespace SolverAudit

inductive Discrepancy where
  | mismatch (expected given : String)
  | notAnExtension (given extensions : String)
  | bothPolarities (var : Nat)
  | outOfBounds (cause : OutOfBounds)
  | unsatisfied (clause : Clause)
  | undecided
  | wrongStatus (satisfiable : Bool)
deriving DecidableEq, Repr

def Discrepancy.wording : Discrepancy → String
  | .mismatch expected given => s!"expected {expected}, got {given}"
  | .notAnExtension given extensions =>
    s!"{given} is not an extension (extensions are {extensions})"
  | .bothPolarities var => s!"the model assigns both polarities of variable {var}"
  | .outOfBounds cause => Cause.wording cause
  | .unsatisfied clause =>
    let shown := bracketed (clause.map toString)
    s!"the model does not satisfy clause {shown}"
  | .undecided => "the solver returned an unknown status"
  | .wrongStatus true => "wrong status; the formula is satisfiable"
  | .wrongStatus false => "wrong status; the formula is unsatisfiable"

inductive Verdict where
  | success
  | failure (discrepancy : Discrepancy)
deriving DecidableEq, Repr

def Verdict.compare {α : Type} [DecidableEq α] (render : α → String) (expected given : α) :
    Verdict :=
  if given = expected then .success
  else .failure (.mismatch (render expected) (render given))

/-! ### Answers as they are shown in messages -/

namespace Answer

def Extension.shown (e : Extension) : String := braced (e.toList.map quoted)

def Extensions.shown (es : Extensions) : String := braced (es.toList.map Extension.shown)

def statusesShown (statuses : List Bool) : String := bracketed (statuses.map toString)

end Answer

end SolverAudit
