import SolverAudit.Answer.Dialect
import SolverAudit.Argument.Admissible
import SolverAudit.Argument.Grounded
import SolverAudit.Check.Verdict

/-!
# Checking answers about frameworks

A solver may be asked for all extensions of a framework, for one of them, or whether the last
argument is accepted: credulously, by some extension, or skeptically, by the grounded one.
-/

namespace SolverAudit

inductive Query where
  | enumeration
  | single
  | credulous
  | skeptical
deriving DecidableEq, Repr

def Query.isAboutArgument : Query → Bool
  | .enumeration | .single => false
  | .credulous | .skeptical => true

namespace Framework

open Answer

def lastLabel? (af : Framework) : Option String := af.arguments.getLast?.map Argument.label

def isCredulouslyAccepted (af : Framework) (label : String) : Bool :=
  af.extensionLabels.toList.any fun e => label ∈ e

def isSkepticallyAccepted (af : Framework) (label : String) : Bool :=
  af.grounded.toList.any fun a => a.label == label

def judgeExtensions (af : Framework) (given : Extensions) : Verdict :=
  Verdict.compare Extensions.shown af.extensionLabels given

def judgeExtension (af : Framework) (given : Extension) : Verdict :=
  if given ∈ af.extensionLabels then .success
  else .failure (.notAnExtension (Extension.shown given) (Extensions.shown af.extensionLabels))

/-- Judges the acceptance of the last argument, of which exactly one status has to be given. -/
def judgeStatus (accepted : Bool) (given : List Bool) : Verdict :=
  Verdict.compare statusesShown [accepted] given

def check (af : Framework) (query : Query) (dialect : Dialect) (output : String) :
    Except Failure Verdict :=
  let label := af.lastLabel?.getD ""
  match query with
  | .enumeration => (dialect.readSet output).map af.judgeExtensions
  | .single => (dialect.readExtension output).map af.judgeExtension
  | .credulous => (dialect.readStatuses output).map (judgeStatus (af.isCredulouslyAccepted label))
  | .skeptical => (dialect.readStatuses output).map (judgeStatus (af.isSkepticallyAccepted label))

end Framework

end SolverAudit
