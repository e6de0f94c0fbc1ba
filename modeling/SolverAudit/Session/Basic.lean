import SolverAudit.Check.Checker
import SolverAudit.Program
import SolverAudit.Storage.Payload

/-!
# Sessions

A session gives every instance of a tree to a solver and has the answer checked. Nothing that a
solver does stops a session: it is counted, and the files of the instances that the solver failed on
are kept with what it put out and an explanation.
-/

namespace SolverAudit

structure Session where
  checker : Checker
  solver : Solver
  dialect : Dialect
  depth : Nat
  directory : String

/-- How many instances were given to the solver, on how many of them it failed, and how many were
not relevant. -/
structure Tally where
  checks : Nat := 0
  errors : Nat := 0
  ignored : Nat := 0
deriving DecidableEq, Repr

namespace Tally

def withCheck (t : Tally) : Tally := { t with checks := t.checks + 1 }

def withError (t : Tally) : Tally := { t with errors := t.errors + 1 }

def withIgnored (t : Tally) : Tally := { t with ignored := t.ignored + 1 }

def isSuccess (t : Tally) : Bool := t.errors == 0

end Tally

/-- How far a session has got: the number of the last instance, and the counters. -/
structure Progress where
  index : Nat := 0
  tally : Tally := {}
deriving DecidableEq, Repr

def Progress.next (p : Progress) : Progress := { p with index := p.index + 1 }

namespace Session

def consult (s : Session) (x : s.checker.problem.Instance) (files : List String)
    (storage : Storage) : Except Failure Verdict × String :=
  match s.solver.run (s.checker.call x files) storage with
  | .error failure => (.error failure, "")
  | .ok output => (s.checker.check x s.dialect output, output)

def explanation? : Except Failure Verdict → Option String
  | .ok .success => none
  | .ok (.failure discrepancy) => some discrepancy.wording
  | .error failure => some failure.text

/-- A text as it is kept: without the blanks at its end, and with one line feed instead. -/
def kept (text : String) : String :=
  String.ofList (trimEnd text.toList ++ ['\n'])

def keep (path text : String) : Attempt Storage Unit :=
  let shown := quoted path
  Attempt.during s!"while writing {shown}" (Storage.attempt (·.withFile path (kept text)))

def forget (directory : String) : Attempt Storage Unit :=
  let shown := quoted directory
  Attempt.during s!"while removing directory {shown}"
    (Storage.attempt (·.withoutDirectory directory))

def count (counted : Tally → Tally) : Attempt (Storage × Progress) Unit :=
  Attempt.onSecond (.change fun p => ((), { p with tally := counted p.tally }))

def visit (s : Session) (x : s.checker.problem.Instance) : Attempt (Storage × Progress) Unit := do
  let number ← Attempt.onSecond (.change fun p => (p.next.index, p.next))
  if s.checker.ignores x then
    count Tally.withIgnored
  else
    let directory := Path.join s.directory (Storage.instanceName number)
    let files ← Attempt.onFirst (Storage.storePayloads x s.checker.required directory)
    let storage ← Attempt.onFirst (.change fun storage => (storage, storage))
    let (verdict, output) := s.consult x files storage
    count Tally.withCheck
    match explanation? verdict with
    | none => Attempt.onFirst (forget directory)
    | some explanation =>
      count Tally.withError
      Attempt.onFirst do
        discard (Storage.storeAllPayloads x directory)
        keep (Path.join directory "solver_output.txt") output
        keep (Path.join directory "explanation.txt") explanation

/-- Runs the session on the tree that a source of random choices grows. -/
def run {σ : Type} [Source σ] (s : Session) (source : σ) : Attempt Storage Tally := do
  Storage.createOutput s.directory
  ExceptT.mk fun storage =>
    let (result, _, storage, progress) :=
      (s.checker.problem.generator.walk s.visit s.depth).run (Context.fresh source, storage, {})
    (result.map fun _ => progress.tally, storage)

end Session

end SolverAudit
