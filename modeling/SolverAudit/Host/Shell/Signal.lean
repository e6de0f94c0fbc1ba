import SolverAudit.Host.Shell.Condition
import SolverAudit.Host.Shell.Running

/-!
# Signals of scripts

A script may send signals to itself and to the processes that have called it, and set what is done
on those that it gets.
-/

namespace SolverAudit.Shell

/-! ### Numbers in arguments -/

def greatestNumber : Nat := 0x7FFFFFFF

def natural? (text : String) : Option Nat :=
  (integer? text).bind fun n =>
    if 0 ≤ n ∧ n ≤ (greatestNumber : Int) then some n.toNat else none

def withNumber (text : String) (act : Nat → Action Unit) : Action Unit :=
  match natural? text with
  | some n => act n
  | none => modify (·.mistaken s!"Illegal number: {text}")

/-- As in commands whose mistakes end the script. -/
def withNumberOrStop (text : String) (act : Nat → Action Unit) : Action Unit :=
  match natural? text with
  | some n => act n
  | none => modify (·.broken s!"Illegal number: {text}")

/-! ### Signals -/

def lastSignal : Nat := 64

def firstRealTimeSignal : Nat := 34

/-- The names of the signals from zero on, which is the end of a script. -/
def signalTable : List String :=
  let usual := signalNames.map fun name =>
    if name = "SIGSTKFLT" then "16" else String.ofList (name.toList.drop 3)
  let raised := (List.range 15).map fun n => s!"RTMIN+{n + 1}"
  let lowered := (List.range 14).map fun n => s!"RTMAX-{14 - n}"
  ["EXIT"] ++ usual ++ ["32", "33", "RTMIN"] ++ raised ++ lowered ++ ["RTMAX"]

/-- The number of a signal given by its number or its name. The end of a script may count as one. -/
def signal? (end? : Bool) (name : String) : Option Nat :=
  match Numeral.natural? name.toList with
  | some n => if n ≤ lastSignal then some n else none
  | none => (signalTable.idxOf? name.toUpper).filter fun n => end? || n ≠ 0

/-- The numbers that a process lives on after: none, and SIGCHLD, SIGCONT, SIGURG, SIGWINCH. -/
def harmlessSignals : List Nat := [0, 17, 18, 23, 28]

/-- The numbers that nothing else can be done on: SIGKILL and SIGSTOP. -/
def uncaughtSignals : List Nat := [9, 19]

def firstProcess : Nat := 1000

def raiseSignal (run : String → Action Unit) (signal : Nat) : Action Unit := do
  let r ← get
  match r.traps.lookup signal with
  | some script =>
    if uncaughtSignals.contains signal then set { r with jump := some (.killed r.process signal) }
    else if signal ≠ 0 then asCommand none (run script)
  | none =>
    unless harmlessSignals.contains signal do
      set { r with jump := some (.killed r.process signal) }

/-- Sends a signal to one process after the other. Processes below the script's own number are those
that have called it. -/
def sendSignal (run : String → Action Unit) (signal : Nat) : List String → Action Unit
  | [] => return
  | target :: targets => do
    let number := if target.startsWith "-" then String.ofList (target.toList.drop 1) else target
    withNumber number fun process => do
      let r ← get
      if process = 0 ∨ process = r.process then raiseSignal run signal
      else if firstProcess ≤ process ∧ process < r.process then
        unless harmlessSignals.contains signal do
          set { r with jump := some (.killed process signal) }
      else set ((r.complain "No such process\n").withStatus 1)
      unlessJump (sendSignal run signal targets)

def killUsage : String :=
  "Usage: kill [-s sigspec | -signum | -sigspec] [pid | job]... or\nkill -l [exitstatus]"

def unknownOption (letter : Char) : String := s!"Illegal option -{letter}"

def send (run : String → Action Unit) (signal : Nat) (targets : List String) : Action Unit :=
  if targets.isEmpty then modify (·.mistaken killUsage) else sendSignal run signal targets

def listSignals : List String → Action Unit
  | [] =>
    let names := "0" :: signalTable.tail
    modify (·.write 1 (Utf8.encode (String.ofList (unlines (names.map String.toList)))))
  | number :: _ => withNumber number fun n => do
    let signal := if 128 < n then n - 128 else n
    match if signal = 0 then none else signalTable[signal]? with
    | some name => modify (·.write 1 (Utf8.encode (name ++ "\n")))
    | none => modify (·.mistaken s!"invalid signal number or exit status: {number}")

def kill (run : String → Action Unit) (arguments : List String) : Action Unit :=
  match arguments with
  | [] => modify (·.mistaken killUsage)
  | first :: rest =>
    if !first.startsWith "-" then send run 15 arguments
    else
      let named (name : String) (rest : List String) : Action Unit :=
        match signal? false name with
        | some signal => send run signal (if rest.head? = some "--" then rest.tail else rest)
        | none => modify (·.mistaken s!"invalid signal number or name: {name}")
      match signal? false (String.ofList (first.toList.drop 1)) with
      | some signal => send run signal rest
      | none =>
        match first.toList.drop 1, rest with
        | [], _ => send run 15 arguments
        | ['-'], _ => send run 15 rest
        | 'l' :: _, _ => listSignals rest
        | ['s'], [] => modify (·.mistaken "No arg for -s option")
        | ['s'], name :: rest => named name rest
        | 's' :: name, _ => named (String.ofList name) rest
        | letter :: _, _ => modify (·.mistaken (unknownOption letter))

def setTraps (script : Option String) : List String → Action Unit
  | [] => return
  | name :: names => do
    match signal? true name with
    | none =>
      modify fun r => (r.write 2 (Utf8.encode s!"trap: {name}: bad trap\n")).withStatus 1
    | some signal =>
      modify fun r =>
        let others := r.traps.filter (·.1 != signal)
        { r with traps := (script.toList.map fun script => (signal, script)) ++ others }
      setTraps script names

def trap : List String → Action Unit
  | [] => return
  | "--" :: rest => setAll rest
  | arguments => setAll arguments
where
  setAll : List String → Action Unit
    | [] => return
    | "-" :: names => setTraps none names
    | first :: names =>
      if names.isEmpty ∨ (Numeral.natural? first.toList).isSome then setTraps none (first :: names)
      else setTraps (some first) names

end SolverAudit.Shell
