import SolverAudit.Host.Shell.Process

/-!
# Running commands

What each command does with the state of a script, the parts of commands being run by an argument.
A script is run with a limit on how deep commands may be nested, and another one on the rounds of a
loop. With the shell, the standard programs are complete.
-/

namespace SolverAudit

namespace Shell

/-! ### Simple commands -/

def assignAll (run : String → Action Unit) (exports : Bool) (assignments : List (String × Word)) :
    Action (List String) :=
  assignments.mapM fun (name, word) => do
    let value ← expandWhole run word
    modify fun r =>
      let r := r.assign name value
      if exports then { r with exported := name :: r.exported } else r
    return s!"{name}={value}"

/-- An action with assignments that are forgotten after it. -/
def withAssignments (run : String → Action Unit) (assignments : List (String × Word))
    (act : List String → Action Unit) : Action Unit := do
  let before ← get
  let assigned ← assignAll run true assignments
  unlessJump (act assigned)
  let names := assignments.map Prod.fst
  modify fun r =>
    let restored := names.foldl (fun values name =>
      match before.values.get? name with
      | some value => values.insert name value
      | none => values) (r.values.restrict (!names.contains ·))
    { r with values := restored, exported := before.exported }

def callFunction (run : Command → Action Unit) (body : Command) (arguments : List String) :
    Action Unit := do
  let before ← get
  set { before with arguments, loops := 0 }
  run body
  modify fun r =>
    let jump := if r.jump = some .returns then none else r.jump
    { r with arguments := before.arguments, loops := before.loops, jump }

/-- Runs what the fields of a command name: a function, a builtin command or a program. -/
def runFields (run : Command → Action Unit) (functions : Bool) (name : String)
    (arguments : List String) : Action Unit := do
  let r ← get
  match if functions then r.functions.lookup name else none, name, arguments with
  | some body, _, _ => callFunction run body arguments
  | none, "exec", [] => modify (·.withStatus 0)
  | none, "exec", name :: arguments =>
    asCommand (some "exec") do
      if ← call run name arguments then modify ({ · with traps := [] })
    modify fun r => r.stop r.status
  | none, _, _ =>
    match builtin? (runText run) name arguments with
    | some act => act
    | none => let _ ← call run name arguments

def trace (descriptors : List (Nat × Channel)) (texts : List String) : Action Unit := do
  if (← get).options.contains 'x' then
    withDescriptors do
      modify ({ · with descriptors })
      modify (·.write 2 (Utf8.encode ("+ " ++ String.intercalate " " texts ++ "\n")))

/-- Runs a simple command. Without a name it only assigns, and has the status of the last script in
its words. -/
def runSimple (run : Command → Action Unit) (assignments : List (String × Word))
    (words : List Word) (redirections : List Redirection) : Action Unit := do
  modify ({ · with innerStatus := none })
  let found ← expandFields (runText run) words
  let (isPlain, found) := match found with
    | "command" :: rest => (true, rest)
    | _ => (false, found)
  let isSpecial := specialBuiltins.contains (found.headD "")
  let outer := (← get).descriptors
  let redirected (act : Action Unit) : Action Unit := do
    if ← redirect (runText run) redirections then unlessJump act
    else if isSpecial then modify fun r => r.stop r.status
  let assigned (act : Action Unit) : Action Unit :=
    let traced (assigned : List String) : Action Unit := do
      trace outer (assigned ++ found)
      act
    if isSpecial || found.isEmpty then do
      let assigned ← assignAll (runText run) false assignments
      unlessJump (traced assigned)
    else withAssignments (runText run) assignments traced
  unlessJump do
    match found with
    | [] =>
      withDescriptors <| redirected <| assigned do
        modify fun r => r.withStatus (r.innerStatus.getD 0)
    | ["exec"] => redirected (assigned (modify (·.withStatus 0)))
    | name :: arguments =>
      withDescriptors (redirected (assigned (runFields run (!isPlain) name arguments)))

/-! ### Compound commands -/

def checkFailure : Action Unit :=
  modify fun r =>
    if r.status ≠ 0 ∧ !r.tested ∧ r.jump.isNone ∧ r.options.contains 'e' then r.stop r.status else r

/-- What a loop does after its body. It tells whether another round may come. -/
def settle : Action Bool := do
  let r ← get
  match r.jump with
  | none => return true
  | some (.leaves n) =>
    set { r with jump := if n ≤ 1 then none else some (.leaves (n - 1)) }
    return false
  | some (.resumes n) =>
    set { r with jump := if n ≤ 1 then none else some (.resumes (n - 1)) }
    return n ≤ 1
  | some _ => return false

def inLoop (act : Action Unit) : Action Unit := do
  modify fun r => { r with loops := r.loops + 1 }
  act
  modify fun r => { r with loops := r.loops - 1 }

def mostRounds : Nat := 1000000

/-- Runs the rounds of a loop. It ends with the status of the last body. -/
def rounds (success : Bool) (test body : Action Unit) : (most last : Nat) → Action Unit
  | 0, _ => return
  | most + 1, last => do
    tested test
    let r ← get
    if r.jump.isSome then
      let _ ← settle
    else if (r.status == 0) != success then set (r.withStatus last)
    else
      body
      if ← settle then rounds success test body most (← get).status

def each (name : String) (body : Action Unit) : List String → Action Unit
  | [] => return
  | value :: values => do
    modify (·.assign name value)
    body
    if ← settle then each name body values

/-- Runs each of the commands in a copy of the script, on the output of the one before it. -/
def runPipeline (run : Command → Action Unit) : List Command → Action Unit
  | [] => return
  | [last] => inSubshell (runText run) (run last)
  | first :: others => do
    let output ← captured (runText run) (run first)
    unlessJump <| withDescriptors do
      modify (supply 0 output)
      runPipeline run others

def chosen (run : String → Action Unit) (text : String) :
    List (List Word × Command) → Action (Option Command)
  | [] => return none
  | (patterns, body) :: cases => do
    if ← patterns.anyM fun pattern => return (← expandPattern run pattern).fits text.toList then
      return some body
    else chosen run text cases

/-! ### All commands -/

def perform (run : Command → Action Unit) : Command → Action Unit
  | .simple line assignments words redirections => do
    modify ({ · with line })
    unless (← get).options.contains 'n' do runSimple run assignments words redirections
    checkFailure
  | .sequence [] => modify (·.withStatus 0)
  | .sequence commands => commands.forM fun command => unlessJump (run command)
  | .background command => do
    inSubshell (runText run) do
      modify (·.connect 0 (some .nothing))
      run command
    modify fun r => { r with backgroundStatus := some r.status, status := 0 }
  | .conjunction first second => do
    tested (run first)
    if (← get).status = 0 then unlessJump (run second)
  | .disjunction first second => do
    tested (run first)
    if (← get).status ≠ 0 then unlessJump (run second)
  | .negation command => do
    tested (run command)
    unlessJump (modify fun r => r.withStatus (if r.status = 0 then 1 else 0))
  | .pipeline commands => do
    runPipeline run commands
    checkFailure
  | .subshell command => do
    inSubshell (runText run) (run command)
    checkFailure
  | .conditional test yes no => do
    tested (run test)
    let success := (← get).status = 0
    unlessJump (run (if success then yes else no))
  | .loop success test body => inLoop (rounds success (run test) (run body) mostRounds 0)
  | .iteration name words body => do
    let values ← match words with
      | some words => expandFields (runText run) words
      | none => pure (← get).arguments
    unlessJump do
      if values.isEmpty then modify (·.withStatus 0) else inLoop (each name (run body) values)
  | .choice word cases => do
    let text ← expandWhole (runText run) word
    match ← chosen (runText run) text cases with
    | some body => unlessJump (run body)
    | none => unlessJump (modify (·.withStatus 0))
  | .function name body =>
    modify fun r => { r with functions := (name, body) :: r.functions, status := 0 }
  | .redirected line command redirections => do
    modify ({ · with line })
    withDescriptors do
      if ← redirect (runText run) redirections then unlessJump (run command)

/-! ### The shell -/

def standardDescriptors : List (Nat × Channel) := [(0, .stream 2), (1, .stream 0), (2, .stream 1)]

namespace Running

def start (name : String) (input : List UInt8) (storage : Storage) : Running where
  name := name
  arguments := []
  streams := [[], [], input]
  descriptors := standardDescriptors
  storage := storage
  process := firstProcess

def outcome (r : Running) : Outcome where
  ending := match r.jump with
    | some (.killed _ signal) => .killed signal
    | _ => .exited r.status
  output := r.streams[0]?.getD []
  errors := r.streams[1]?.getD []

end Running

/-- Runs a command that is nested no deeper than the given number. -/
def run : (depth : Nat) → Command → Action Unit
  | 0, _ => modify (·.stop 2)
  | depth + 1, command => perform (run depth) command

def deepestCommand : Nat := 1000

def shell (name : String) : Program := fun arguments storage =>
  let start := Running.start name [] storage
  .ok ((runShell (run deepestCommand) arguments).run start).2.outcome

end Shell

/-- The standard programs at their places. -/
def Host.installation : Installation
  | ["bin", "sh"] | ["usr", "bin", "sh"] => some Shell.shell
  | place => simpleInstallation [] place

end SolverAudit
