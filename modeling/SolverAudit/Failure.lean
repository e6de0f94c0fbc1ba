/-!
# Failures

A failure has a cause of a known kind and the list of activities during which it arose, outermost
first. Each part of the library names its own causes and says how they are worded.
-/

namespace SolverAudit

inductive FailureKind where
  | invalidArgument
  | malformed
  | invalidConfiguration
  | invalidState
  | system
  /-- Arithmetic beyond the width of the numbers, which nothing handles: it ends the whole run. -/
  | overflow
  | other
deriving DecidableEq, Repr

/-- What announces the kind in front of the wording of the cause. -/
def FailureKind.heading : FailureKind → String
  | .invalidArgument => "invalid argument: "
  | .malformed => "syntax error: "
  | .invalidConfiguration => "invalid configuration: "
  | .invalidState => "invalid state: "
  | .system | .overflow | .other => ""

class Cause (ε : Type) where
  kind : ε → FailureKind
  wording : ε → String

structure Failure where
  kind : FailureKind
  wording : String
  /-- The activities that the failure interrupted, outermost first. -/
  contexts : List String := []
deriving DecidableEq, Repr

namespace Failure

def of {ε : Type} [Cause ε] (cause : ε) : Failure :=
  { kind := Cause.kind cause, wording := Cause.wording cause }

def during (activity : String) (failure : Failure) : Failure :=
  { failure with contexts := activity :: failure.contexts }

def cause (failure : Failure) : String :=
  failure.kind.heading ++ failure.wording

/-- Everything known about the failure, outermost activity first and the cause last. -/
def chain (failure : Failure) : List String :=
  failure.contexts ++ [failure.cause]

def headline (failure : Failure) : String :=
  failure.contexts.headD failure.cause

def text (failure : Failure) : String :=
  String.intercalate ": " failure.chain

/-- The cause, when it is of one of the four kinds that the library itself defines. -/
def ownCause? (failure : Failure) : Option String :=
  match failure.kind with
  | .system | .overflow | .other => none
  | _ => some failure.cause

end Failure

def during {α : Type} (activity : String) : Except Failure α → Except Failure α :=
  Except.mapError (Failure.during activity)

def orFail {ε α : Type} [Cause ε] : Except ε α → Except Failure α :=
  Except.mapError Failure.of

/-- A computation that may fail and that keeps the changes it made to its state when it does. -/
abbrev Attempt (s α : Type) := ExceptT Failure (StateM s) α

namespace Attempt

variable {s t α : Type}

def lift (result : Except Failure α) : Attempt s α :=
  ExceptT.mk (pure result)

def change (f : s → α × s) : Attempt s α :=
  ExceptT.mk fun state => ((.ok (f state).1), (f state).2)

def during (activity : String) (attempt : Attempt s α) : Attempt s α :=
  ExceptT.mk fun state =>
    let (result, state) := attempt.run state
    (SolverAudit.during activity result, state)

/-- The attempt on the first part of a wider state. -/
def onFirst (attempt : Attempt s α) : Attempt (s × t) α :=
  ExceptT.mk fun state =>
    let (result, first) := attempt.run state.1
    (result, first, state.2)

/-- The attempt on the second part of a wider state. -/
def onSecond (attempt : Attempt t α) : Attempt (s × t) α :=
  ExceptT.mk fun state =>
    let (result, second) := attempt.run state.2
    (result, state.1, second)

end Attempt

end SolverAudit
