import SolverAudit.Storage.Basic
import SolverAudit.Text.Utf8

/-!
# Programs

A program is given arguments and files, and ends with an output and errors. Its output counts only
if the program ends well, and has to be text.

Programs are installed at certain places. A name with a slash is the path of a program, and any
other is looked up in the directories of the search path.

A solver is a program with the name it is called by.
-/

namespace SolverAudit

inductive Ending where
  | exited (code : Nat)
  | killed (signal : Nat)
deriving DecidableEq, Repr

structure Outcome where
  ending : Ending
  output : List UInt8
  errors : List UInt8
deriving DecidableEq, Repr

/-- A program depends on its arguments and on the files it may read. It may not even start. -/
abbrev Program := List String → Storage → Except SystemFault Outcome

/-- The names of the signals, the first one being number one. -/
def signalNames : List String :=
  ["SIGHUP", "SIGINT", "SIGQUIT", "SIGILL", "SIGTRAP", "SIGABRT", "SIGBUS", "SIGFPE", "SIGKILL",
    "SIGUSR1", "SIGSEGV", "SIGUSR2", "SIGPIPE", "SIGALRM", "SIGTERM", "SIGSTKFLT", "SIGCHLD",
    "SIGCONT", "SIGSTOP", "SIGTSTP", "SIGTTIN", "SIGTTOU", "SIGURG", "SIGXCPU", "SIGXFSZ",
    "SIGVTALRM", "SIGPROF", "SIGWINCH", "SIGIO", "SIGPWR", "SIGSYS"]

/-- The ending as a number, as a shell tells it. -/
def Ending.status : Ending → Nat
  | .exited code => code
  | .killed signal => 128 + signal

def Ending.wording : Ending → String
  | .exited code => s!"exit status: {code}"
  | .killed signal =>
    match if signal = 0 then none else signalNames[signal - 1]? with
    | some name => s!"signal: {signal} ({name})"
    | none => s!"signal: {signal}"

structure Breakdown where
  ending : Ending
  errors : List UInt8

instance : Cause Breakdown where
  kind _ := .other
  wording b :=
    let ending := b.ending.wording
    let errors := Utf8.decodeLossy b.errors
    s!"solver exited with {ending}; standard error was:\n{errors}"

instance : Cause Utf8.Fault where
  kind _ := .other
  wording := Utf8.Fault.wording

namespace Outcome

def printed (output : List UInt8) : Outcome := ⟨.exited 0, output, []⟩

def complained (code : Nat) (message : String) : Outcome :=
  ⟨.exited code, [], Utf8.encode (message ++ "\n")⟩

def text (o : Outcome) : Except Failure String :=
  if o.ending = .exited 0 then
    during "solver output is not valid UTF-8" (orFail (Utf8.decode o.output))
  else
    .error (.of (⟨o.ending, o.errors⟩ : Breakdown))

end Outcome

/-! ### Installations -/

/-- The programs at their places, each of them told the name it is called by. -/
abbrev Installation := Place → Option (String → Program)

namespace Installation

def searchPath : List String := ["/usr/bin", "/bin"]

/-- Runs the program that a name stands for at a path. Only programs may be run. -/
def runAt (programs : Installation) (name path : String) : Program := fun arguments storage => do
  let (place, entry) ← storage.find path
  match entry, programs place with
  | .file _, some program => program name arguments storage
  | _, _ => throw .permissionDenied

/-- Runs the program of a name in the first of the directories that has it. What may not be run is
passed over, and remembered. -/
def runFrom (programs : Installation) (name : String) (denied : Bool) : List String → Program
  | [], _, _ => .error (if denied then .permissionDenied else .notFound)
  | directory :: rest, arguments, storage =>
    match programs.runAt name (Path.join directory name) arguments storage with
    | .error .notFound | .error .notDirectory => programs.runFrom name denied rest arguments storage
    | .error .permissionDenied => programs.runFrom name true rest arguments storage
    | result => result

def named (programs : Installation) (name : String) : Program := fun arguments storage =>
  if hasEnd name || arguments.any hasEnd then .error .endInArgument
  else if name = "" then .error .notFound
  else if name.contains '/' then programs.runAt name name arguments storage
  else programs.runFrom name false searchPath arguments storage

end Installation

/-! ### Solvers -/

structure Solver where
  name : String
  program : Program

def Solver.run (s : Solver) (arguments : List String) (storage : Storage) : Except Failure String :=
  let shown := quoted s.name
  during s!"while executing solver {shown}" do
    let outcome ← orFail (s.program arguments storage)
    outcome.text

end SolverAudit
