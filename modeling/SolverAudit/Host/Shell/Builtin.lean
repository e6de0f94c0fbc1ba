import SolverAudit.Host.Shell.Signal
import SolverAudit.Host.Standard

/-!
# Builtin commands

The commands that a shell runs by itself, because they change the state of the script or send
signals, or because it always has.
-/

namespace SolverAudit.Shell

/-! ### Options and variables -/

def optionLetters : List Char := "efIimnsxvVECabuqlp".toList

def switch (on : Bool) (letters : List Char) (r : Running) : Running :=
  let others := r.options.filter (!letters.contains ·)
  { r with options := if on then others ++ letters else others }

def longOptions : List (String × Char) :=
  [("errexit", 'e'), ("noglob", 'f'), ("ignoreeof", 'I'), ("interactive", 'i'), ("monitor", 'm'),
    ("noexec", 'n'), ("stdin", 's'), ("xtrace", 'x'), ("verbose", 'v'), ("vi", 'V'), ("emacs", 'E'),
    ("noclobber", 'C'), ("allexport", 'a'), ("notify", 'b'), ("nounset", 'u'), ("privileged", 'p')]

/-- Reads options in front of arguments, and tells whether a script is to come first among these. -/
def readOptions (isCommand : Bool) (r : Running) :
    List String → Except String (Bool × Running × List String)
  | [] => .ok (isCommand, r, [])
  | "-" :: rest => .ok (isCommand, r, rest)
  | argument :: rest =>
    match argument.toList with
    | sign :: letter :: letters =>
      if argument = "--" || sign != '-' && sign != '+' then .ok (isCommand, r, argument :: rest)
      else
        let on := sign == '-'
        let letters := letter :: letters
        let set := switch on (letters.filter optionLetters.contains) r
        let isCommand := isCommand || letters.contains 'c'
        match letters.find? fun c => !optionLetters.contains c && c != 'c' with
        | none => readOptions isCommand set rest
        | some 'o' =>
          match rest with
          | [] => .ok (isCommand, set, [])
          | name :: rest =>
            match longOptions.lookup name with
            | some letter => readOptions isCommand (switch on [letter] set) rest
            | none => .error (unknownOption 'o' ++ " " ++ name)
        | some letter => .error (unknownOption letter)
    | _ => .ok (isCommand, r, argument :: rest)

def setArguments (arguments : List String) : Action Unit := do
  let r ← get
  match readOptions false r arguments with
  | .error message => set (r.broken message)
  | .ok (_, r, []) => set r
  | .ok (_, r, "--" :: arguments) | .ok (_, r, arguments) => set { r with arguments }

def definition? (argument : String) : Option (String × String) :=
  let name := argument.toList.takeWhile (· != '=')
  if name.length < argument.length then
    some (String.ofList name, String.ofList (argument.toList.drop (name.length + 1)))
  else none

def withNames (names : List String) (refuse : Running → String → Running) (act : Action Unit) :
    Action Unit :=
  match names.find? (!isName ·.toList) with
  | some name => modify (refuse · s!"{name}: bad variable name")
  | none => act

/-- Assigns variables. What is exported is known to called programs. -/
def define (exported : Bool) (arguments : List String) : Action Unit :=
  (arguments.filter (!·.startsWith "-")).forM fun argument => do
    let name := (definition? argument).elim argument Prod.fst
    withNames [name] Running.broken do
      modify fun r =>
        let r := match definition? argument with
          | some (name, value) => r.assign name value
          | none => r
        if exported then { r with exported := name :: r.exported } else r

def unset : List String → Action Unit
  | "-f" :: names =>
    modify fun r => { r with functions := r.functions.filter (!names.contains ·.1) }
  | "-v" :: names | names => withNames names Running.broken do
    modify fun r => { r with values := r.values.restrict (!names.contains ·) }

def shift (n : Nat) : Action Unit := do
  let r ← get
  if r.arguments.length < n then set (r.broken "can't shift that many")
  else set { r with arguments := r.arguments.drop n }

/-! ### Input -/

/-- The characters of a line, each with whether it is protected by a backslash, and the bytes after
it, if it is complete. -/
def readLine (raw : Bool) (escaped : Bool) : List UInt8 → List (UInt8 × Bool) × Option (List UInt8)
  | [] => ([], none)
  | byte :: rest =>
    let after (safe : Bool) :=
      let (line, left) := readLine raw false rest
      ((byte, safe) :: line, left)
    if escaped then if byte = 0x0A then readLine raw false rest else after true
    else if byte = 0x0A then ([], some rest)
    else if byte = 0x5C ∧ !raw then readLine raw true rest
    else after false

def isOneOf (characters : List Char) (byte : UInt8 × Bool) : Bool :=
  !byte.2 && characters.any (·.toNat == byte.1.toNat)

def textOf (bytes : List (UInt8 × Bool)) : String := Utf8.decodeLossy (bytes.map Prod.fst)

/-- Gives the words of a line to variables, and the rest of the line to the last one. One separator
between two words need not be blank. -/
def giveWords (separators : List Char) (line : List (UInt8 × Bool)) : List String → Action Unit
  | [] => return
  | name :: names => do
    let blank := isOneOf (separators.filter isBlank)
    let text := line.dropWhile blank
    if names.isEmpty then modify (·.assign name (textOf (text.reverse.dropWhile blank).reverse))
    else
      modify (·.assign name (textOf (text.takeWhile (!isOneOf separators ·))))
      let rest := (text.dropWhile (!isOneOf separators ·)).dropWhile blank
      giveWords separators (if rest.head?.any (isOneOf separators) then rest.tail else rest) names

def readWords (raw : Bool) : List String → Action Unit
  | "-r" :: arguments => readWords true arguments
  | "-p" :: _ :: arguments => readWords raw arguments
  | [] => modify (·.mistaken "arg count")
  | names => withNames names Running.mistaken do
    let r ← get
    let (line, left) := readLine raw false (r.unread 0)
    set (r.leave 0 (left.getD []))
    giveWords r.separators line names
    modify (·.withStatus (if left.isSome then 0 else 1))

/-! ### Output -/

def echoEscaping : Host.Escaping := ⟨true, false, false, true⟩

def printfEscaping : Host.Escaping := ⟨false, false, false, false⟩

/-- Writes the output of a builtin command, which needs a place to go. -/
def emit (name : String) (outcome : Outcome) : Action Unit := do
  let r ← get
  if (r.channel? 1).isNone ∧ !outcome.output.isEmpty then
    set ((r.complain s!"{name}: I/O error").withStatus 1)
  else set (r.write 1 outcome.output)

/-- The builtin echo always replaces escapes. -/
def echo : List String → Action Unit
  | "-n" :: arguments => emit "echo" (Host.printArguments false (some echoEscaping) arguments)
  | arguments => emit "echo" (Host.printArguments true (some echoEscaping) arguments)

def printf (arguments : List String) : Action Unit :=
  match Host.printf? printfEscaping arguments with
  | some outcome => emit "printf" outcome
  | none => modify (·.mistaken "usage: printf format [arg ...]")

/-! ### Conditions and places -/

def test (condition : List String) : Action Unit := do
  let r ← get
  match examine r.storage condition with
  | .ok holds => set (r.withStatus (if holds then 0 else 1))
  | .error fault => set (r.mistaken fault.wording)

def bracket (arguments : List String) : Action Unit :=
  if arguments.getLast? = some "]" then test arguments.dropLast
  else modify (·.mistaken "missing ]")

def changeDirectory (path : String) : Action Unit := do
  let r ← get
  match r.storage.find path with
  | .ok (place, .directory) => set { r with storage := { r.storage with here := place } }
  | _ => set (r.mistaken s!"can't cd to {path}")

def printDirectory : Action Unit :=
  modify fun r => r.write 1 (Utf8.encode ("/" ++ String.intercalate "/" r.storage.here ++ "\n"))

/-- Runs the script in a file. A name without a slash is looked up like a program, and not found. -/
def source (run : String → Action Unit) : List String → Action Unit
  | [] => return
  | path :: _ => do
    let r ← get
    if !path.contains '/' then set (r.broken s!"{path}: not found")
    else
      match r.storage.find path with
      | .ok (_, .file script) => asCommand none (run script)
      | _ => set (r.broken s!"cannot open {path}: No such file")

def wait : List String → Action Unit
  | [] => return
  | process :: _ => withNumber process fun n => do
    let r ← get
    let known := if n = r.process + 1 then r.backgroundStatus else none
    set (r.withStatus (known.getD 127))

/-! ### Leaving -/

/-- Leaves as many loops as there are, but no more than the given number. -/
def leaveLoops (jump : Nat → Jump) : List String → Action Unit
  | [] => go 1
  | n :: _ => withNumberOrStop n go
where
  go (n : Nat) : Action Unit :=
    modify fun r => if r.loops = 0 then r else { r with jump := some (jump (min n r.loops)) }

/-- Leaves a function or the script, with the last status unless there is another. -/
def leaveWith (jump : Jump) : List String → Action Unit
  | [] => modify ({ · with jump := some jump })
  | status :: _ =>
    withNumberOrStop status fun n => modify ({ · with status := n % 256, jump := some jump })

/-! ### All builtin commands -/

/-- The commands whose mistakes end the script and whose assignments stay. -/
def specialBuiltins : List String :=
  [".", ":", "break", "continue", "eval", "exec", "exit", "export", "readonly", "return", "set",
    "shift", "times", "trap", "unset"]

def action? (run : String → Action Unit) (name : String) (arguments : List String) :
    Option (Action Unit) :=
  let succeeding (act : Action Unit) : Action Unit := do
    modify (·.withStatus 0)
    act
  match name with
  | ":" | "true" | "ulimit" => some (succeeding (return))
  | "false" => some (modify (·.withStatus 1))
  | "exit" => some (leaveWith .exits arguments)
  | "return" => some (leaveWith .returns arguments)
  | "eval" =>
    let script := String.intercalate " " arguments
    some (if (trimStart script.toList).isEmpty then succeeding (return) else run script)
  | "." => some (source run arguments)
  | "break" => some (succeeding (leaveLoops .leaves arguments))
  | "continue" => some (succeeding (leaveLoops .resumes arguments))
  | "shift" =>
    some <| succeeding <| match arguments with
      | [] => shift 1
      | n :: _ => withNumberOrStop n shift
  | "set" => some (succeeding (setArguments arguments))
  | "export" => some (succeeding (define true arguments))
  | "local" | "readonly" => some (succeeding (define false arguments))
  | "unset" => some (succeeding (unset arguments))
  | "trap" => some (succeeding (trap arguments))
  | "kill" => some (succeeding (kill run arguments))
  | "wait" => some (succeeding (wait arguments))
  | "read" => some (succeeding (readWords false arguments))
  | "echo" => some (succeeding (echo arguments))
  | "printf" => some (succeeding (printf arguments))
  | "test" => some (test arguments)
  | "[" => some (bracket arguments)
  | "cd" => some (succeeding (changeDirectory (arguments.headD "/")))
  | "pwd" => some (succeeding printDirectory)
  | _ => none

def builtin? (run : String → Action Unit) (name : String) (arguments : List String) :
    Option (Action Unit) :=
  (action? run name arguments).map (asCommand (some name))

end SolverAudit.Shell
