import SolverAudit.Host.Shell.Builtin
import SolverAudit.Host.Shell.Redirection

/-!
# Called programs

A script calls the standard programs, and shells that run further scripts. What runs commands is an
argument.
-/

namespace SolverAudit.Shell

/-! ### Scripts -/

/-- Runs the lines of a script from the given tokens on. A line is read after the one before it has
been run. -/
def runLines (run : Command → Action Unit) : (most : Nat) → List Token → Action Unit
  | 0, _ => return
  | most + 1, tokens => do
    match Parser.line.run tokens with
    | .error (line, fault) => modify fun r => { r with line }.broken fault.wording
    | .ok (.sequence [], rest) => if rest.length < tokens.length then runLines run most rest
    | .ok (command, rest) =>
      run command
      if (← get).jump.isNone ∧ rest.length < tokens.length then runLines run most rest

def runText (run : Command → Action Unit) (script : String) : Action Unit :=
  let tokens := tokens script
  runLines run tokens.length tokens

def runScript (run : Command → Action Unit) (script : String) : Action Unit := do
  runText run script
  runEndTrap (runText run)

/-! ### Signals -/

/-- What each signal from one on means, as far as it kills and as that is worth telling. -/
def signalMeanings : List String :=
  ["Hangup", "", "Quit", "Illegal instruction", "Trace/breakpoint trap", "Aborted", "Bus error",
    "Floating point exception", "Killed", "User defined signal 1", "Segmentation fault",
    "User defined signal 2", "", "Alarm clock", "Terminated", "Stack fault", "", "", "", "", "", "",
    "", "CPU time limit exceeded", "File size limit exceeded", "Virtual timer expired",
    "Profiling timer expired", "", "I/O possible", "Power failure", "Bad system call"]

def killedWording (signal : Nat) : String :=
  match if signal = 0 then none else signalMeanings[signal - 1]? with
  | some "" => ""
  | some meaning => meaning ++ "\n"
  | none =>
    let number := signal - firstRealTimeSignal
    s!"Real-time signal {number}\n"

/-! ### Shells -/

/-- Runs the script that a shell is given as an argument, finds in a file, or reads as its input. -/
def runShell (run : Command → Action Unit) (arguments : List String) : Action Unit := do
  let r ← get
  let complained (message : String) : Action Unit := do
    let name := r.name
    set (({ r with status := 2 } : Running).write 2 (Utf8.encode s!"{name}: 0: {message}\n"))
  let fromInput (r : Running) : Action Unit := do
    set (r.leave 0 [])
    runScript run (Utf8.decodeLossy (r.unread 0))
  match readOptions false r arguments with
  | .error message => complained message
  | .ok (isCommand, r, arguments) =>
    let arguments := if arguments.head? = some "--" then arguments.tail else arguments
    match isCommand, arguments with
    | true, [] => complained "-c requires an argument"
    | true, script :: rest =>
      set { r with name := rest.headD r.name, arguments := rest.tail }
      runScript run script
    | false, [] => fromInput r
    | false, path :: rest =>
      if r.options.contains 's' then fromInput { r with arguments }
      else
        match r.storage.find path with
        | .ok (_, .file script) =>
          set { r with name := path, arguments := rest }
          runScript run script
        | _ => complained s!"cannot open {path}: No such file"

def callShell (run : Command → Action Unit) (name : String) (arguments : List String) :
    Action Unit := do
  let outer ← get
  set {
    name
    arguments := []
    values := outer.environment
    exported := outer.exported
    traps := outer.traps.filter (·.2 == "")
    streams := outer.streams
    descriptors := outer.descriptors
    storage := outer.storage
    process := outer.process + 1 : Running }
  runShell run arguments
  let inner ← get
  let storage := { inner.storage with here := outer.storage.here }
  let after := { outer with streams := inner.streams, storage, status := inner.status }
  match inner.jump with
  | some (.killed process signal) =>
    if process = inner.process then
      set ((after.write 2 (Utf8.encode (killedWording signal))).withStatus (128 + signal))
    else set { after with jump := some (.killed process signal) }
  | _ => set after

/-! ### Calls -/

/-- Nothing but the shell, which does nothing, to tell whether a name stands for it. -/
def shellInstallation : Installation
  | ["bin", "sh"] | ["usr", "bin", "sh"] => some fun _ _ _ => .ok (.printed [])
  | _ => none

/-- The programs that read what is left of their input. -/
def readers : List String := ["cat", "head", "wc"]

def call (run : Command → Action Unit) (name : String) (arguments : List String) :
    Action Bool := do
  let r ← get
  if (shellInstallation.named name arguments r.storage).isOk then
    callShell run name arguments
    return true
  else
    match (Host.simpleInstallation (r.unread 0)).named name arguments r.storage with
    | .error fault =>
      let reason := openingReason "not found" fault
      let status := if fault = .permissionDenied then 126 else 127
      set ((r.complain s!"{name}: {reason}").withStatus status)
      return false
    | .ok outcome =>
      if readers.contains ((Path.names name).getLastD "") then modify (·.leave 0 [])
      modify fun r => (r.write 1 outcome.output).write 2 outcome.errors
      modify (·.withStatus outcome.ending.status)
      return true

end SolverAudit.Shell
