import SolverAudit.Host.Shell.Command
import SolverAudit.Program
import SolverAudit.Text.Basic

/-!
# The state of a running script

A script has parameters, functions and traps. Its descriptors lead to streams, of which one is its
output, one its errors and one its input, or to files.
-/

namespace SolverAudit.Shell

inductive Channel where
  | stream (number : Nat)
  | file (path : String)
  /-- What is written is lost, and there is nothing to read. -/
  | nothing
deriving DecidableEq, Repr

/-- How a script goes on elsewhere than at the next command. -/
inductive Jump where
  /-- The innermost loops are left, of the given number. -/
  | leaves (loops : Nat)
  /-- The next round of a loop comes, after inner loops have been left. -/
  | resumes (loops : Nat)
  | returns
  | exits
  | killed (process signal : Nat)
deriving DecidableEq, Repr

structure Running where
  name : String
  arguments : List String
  values : OrderedMap String String := ∅
  /-- The variables that the programs called by the script have as well. -/
  exported : List String := []
  functions : List (String × Command) := []
  /-- The scripts to run on signals, zero being the end. -/
  traps : List (Nat × String) := []
  options : List Char := []
  streams : List (List UInt8)
  descriptors : List (Nat × Channel)
  storage : Storage
  /-- The number by which signals are sent to the script. -/
  process : Nat
  line : Nat := 1
  builtin : Option String := none
  /-- How the last command has ended. -/
  status : Nat := 0
  /-- How the last script inside a word has ended. -/
  innerStatus : Option Nat := none
  /-- How the last command in the background has ended. -/
  backgroundStatus : Option Nat := none
  /-- Whether the success of the command is tested, so that a failure does not end the script. -/
  tested : Bool := false
  loops : Nat := 0
  jump : Option Jump := none

abbrev Action := StateM Running

namespace Running

/-! ### Parameters -/

/-- The value of a parameter other than all the arguments at once. -/
def parameter? (r : Running) (name : String) : Option String :=
  match name.toList with
  | ['#'] => some (toString r.arguments.length)
  | ['?'] => some (toString r.status)
  | ['$'] => some (toString r.process)
  | ['!'] => r.backgroundStatus.map fun _ => toString (r.process + 1)
  | ['-'] => some (String.ofList r.options)
  | letters =>
    match Numeral.natural? letters with
    | some 0 => some r.name
    | some (n + 1) => r.arguments[n]?
    | none => if name = "PPID" then some (toString (r.process - 1)) else r.values.get? name

def separators (r : Running) : List Char :=
  match r.values.get? "IFS" with
  | some separators => separators.toList
  | none => [' ', '\t', '\n']

def assign (r : Running) (name value : String) : Running :=
  { r with values := r.values.insert name value }

/-- The variables that a called program has as well. -/
def environment (r : Running) : OrderedMap String String :=
  r.values.restrict r.exported.contains

/-! ### Streams and descriptors -/

def channel? (r : Running) (descriptor : Nat) : Option Channel := r.descriptors.lookup descriptor

/-- Makes a descriptor lead elsewhere, or nowhere. -/
def connect (r : Running) (descriptor : Nat) (channel : Option Channel) : Running :=
  let others := r.descriptors.filter (·.1 != descriptor)
  { r with descriptors := (channel.toList.map fun c => (descriptor, c)) ++ others }

def content (r : Running) (path : String) : List UInt8 :=
  match r.storage.find path with
  | .ok (_, .file content) => Utf8.encode content
  | _ => []

def write (r : Running) (descriptor : Nat) (bytes : List UInt8) : Running :=
  match r.channel? descriptor with
  | some (.stream n) => { r with streams := r.streams.modify n (· ++ bytes) }
  | some (.file path) =>
    match r.storage.withFile path (Utf8.decodeLossy (r.content path ++ bytes)) with
    | .ok storage => { r with storage }
    | .error _ => r
  | some .nothing | none => r

def unread (r : Running) (descriptor : Nat) : List UInt8 :=
  match r.channel? descriptor with
  | some (.stream n) => r.streams[n]?.getD []
  | _ => []

def leave (r : Running) (descriptor : Nat) (bytes : List UInt8) : Running :=
  match r.channel? descriptor with
  | some (.stream n) => { r with streams := r.streams.set n bytes }
  | _ => r

/-! ### Complaints -/

def complain (r : Running) (message : String) : Running :=
  let name := r.name
  let line := r.line
  let speaker := (r.builtin.map (· ++ ": ")).getD ""
  r.write 2 (Utf8.encode s!"{name}: {line}: {speaker}{message}\n")

def withStatus (r : Running) (status : Nat) : Running := { r with status }

def mistaken (r : Running) (message : String) : Running := (r.complain message).withStatus 2

def stop (r : Running) (status : Nat) : Running := { r with status, jump := some .exits }

/-- Complains about what no script may do, and ends it. -/
def broken (r : Running) (message : String) : Running := (r.complain message).stop 2

end Running

/-! ### Actions -/

def unlessJump (act : Action Unit) : Action Unit := do
  if (← get).jump.isNone then act

/-- An action whose failure does not end the script. -/
def tested (act : Action Unit) : Action Unit := do
  let before := (← get).tested
  modify ({ · with tested := true })
  act
  modify ({ · with tested := before })

def withDescriptors (act : Action Unit) : Action Unit := do
  let before := (← get).descriptors
  act
  modify ({ · with descriptors := before })

def asCommand (builtin : Option String) (act : Action Unit) : Action Unit := do
  let before := (← get).builtin
  modify ({ · with builtin })
  act
  modify ({ · with builtin := before })

/-- Runs the script that is set for the end, if the end comes by itself. -/
def runEndTrap (run : String → Action Unit) : Action Unit := do
  let r ← get
  match r.jump, r.traps.lookup 0 with
  | some (.killed ..), _ | _, none => return
  | _, some script =>
    set { r with jump := none, traps := r.traps.filter (·.1 != 0) }
    run script
    if (← get).jump.isNone then modify (·.withStatus r.status)

/-- An action in a copy of the script, in which only ignored signals are set. It leaves its output,
its files and its status. -/
def inSubshell (run : String → Action Unit) (act : Action Unit) : Action Unit := do
  let outer ← get
  set { outer with traps := outer.traps.filter (·.2 == "") }
  act
  runEndTrap run
  let inner ← get
  let jump := match inner.jump with
    | some (.killed process signal) => some (.killed process signal)
    | _ => none
  set { outer with
    streams := inner.streams
    storage := inner.storage
    status := inner.status
    jump }

def captured (run : String → Action Unit) (act : Action Unit) : Action (List UInt8) := do
  let outer ← get
  let number := outer.streams.length
  inSubshell run do
    modify fun r => { r with streams := r.streams ++ [[]] }.connect 1 (some (.stream number))
    act
  let r ← get
  set { r with
    streams := r.streams.take number
    status := outer.status
    innerStatus := some r.status }
  return r.streams[number]?.getD []

end SolverAudit.Shell
