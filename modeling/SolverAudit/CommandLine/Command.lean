import SolverAudit.CommandLine.Setting
import SolverAudit.Random
import SolverAudit.Session.Basic

/-!
# Commands

The commands list what there is, generate instances into a directory, or check a solver. How a
command ends is told by its status and by the links of its failure.
-/

namespace SolverAudit.CommandLine

inductive Command where
  | authors
  | check
  | checkers
  | dialects
  | generate
  | generators
deriving DecidableEq, Repr

namespace Command

def all : List Command := [.authors, .check, .checkers, .dialects, .generate, .generators]

def name : Command → String
  | .authors => "authors"
  | .check => "check"
  | .checkers => "checkers"
  | .dialects => "dialects"
  | .generate => "generate"
  | .generators => "generators"

def ofName? (name : String) : Option Command := all.find? fun command => command.name = name

def loggingLevel : Setting where
  name := "logging-level"
  standard := some "info"
  choices := ["trace", "debug", "info", "warn", "error", "off"]

def treeSettings : List Setting :=
  [{ name := "depth", letter := some 'd', required := true },
    { name := "output-dir", letter := some 'o', required := true }, { name := "seed" }]

def settings : Command → List Setting
  | .check =>
    [{ name := "checker", letter := some 'c', required := true },
      { name := "solver", letter := some 's', required := true },
      { name := "dialect", standard := some Dialect.standard.name }] ++
      treeSettings ++ [loggingLevel]
  | .generate =>
    { name := "generator", letter := some 'g', required := true } :: treeSettings ++ [loggingLevel]
  | _ => [loggingLevel]

end Command

/-- A request for help about a command, about the program, or about help itself. -/
def readHelp : List String → Refusal
  | [] => .help
  | [word] => if word = "help" || (Command.ofName? word).isSome then .help else .misuse
  | _ => .misuse

def readCommand : List String → Except Refusal (Command × Values)
  | [] => .error .misuse
  | "help" :: rest => .error (readHelp rest)
  | first :: rest =>
    match Command.ofName? first with
    | some command => (readValues command.settings rest).map fun values => (command, values)
    | none =>
      match Reading.readArgument [] {} first with
      | .error refusal => .error refusal
      | .ok _ => .error .misuse

/-! ### Carrying out -/

structure Environment where
  programs : Installation
  /-- The seed of a run that names none. -/
  seed : Nat

structure NotNumber where
  text : String

instance : Cause NotNumber where
  kind _ := .invalidArgument
  wording n :=
    let text := n.text
    s!"\"{text}\" is not a valid number"

def number (purpose text : String) : Except Failure Nat :=
  during s!"while reading argument {purpose}" <|
    match Numeral.unsigned? 64 text.toList with
    | some n => .ok n
    | none => .error (.of (⟨text⟩ : NotNumber))

def depth (values : Values) : Except Failure Nat := number "DEPTH" (values.get "depth")

def source (environment : Environment) (values : Values) : Except Failure Keystream :=
  match values.get? "seed" with
  | some text => (number "SEED" text).map fun seed => Keystream.ofSeed (UInt64.ofNat seed)
  | none => .ok (Keystream.ofSeed (UInt64.ofNat environment.seed))

def generate (environment : Environment) (values : Values) : Attempt Storage String := do
  let problem ← Attempt.lift (orFail (Problem.ofName (values.get "generator")))
  let depth ← Attempt.lift (depth values)
  let source ← Attempt.lift (source environment values)
  Storage.storeTree problem.generator depth source (values.get "output-dir")
  return ""

structure ChecksFailed where
  tally : Tally
  directory : String

instance : Cause ChecksFailed where
  kind _ := .other
  wording c :=
    let errors := c.tally.errors
    let checks := c.tally.checks
    let directory := quoted c.directory
    s!"{errors} of {checks} check(s) failed; see {directory} for the failing instances"

def check (environment : Environment) (values : Values) : Attempt Storage String := do
  let checker ← Attempt.lift (orFail (Checker.ofName (values.get "checker")))
  let dialect ← Attempt.lift (orFail (Dialect.ofName (values.get "dialect")))
  let depth ← Attempt.lift (depth values)
  let source ← Attempt.lift (source environment values)
  let name := values.get "solver"
  let directory := values.get "output-dir"
  let session : Session :=
    { checker, solver := ⟨name, environment.programs.named name⟩, dialect, depth, directory }
  let tally ← session.run source
  if tally.isSuccess then return ""
  else throw (.of (⟨tally, directory⟩ : ChecksFailed))

def table (rows : List (String × String)) : String :=
  String.join (rows.map fun (name, description) => s!"{name}\t{description}\n")

def authors : String :=
  "crusticheck 0.1.0\n" ++
    "Jean-Marie Lagniez <lagniez@cril.fr>, Emmanuel Lonca <lonca@cril.fr> and " ++
    "Jean-Guy Mailly <jean-guy.mailly@u-paris.fr>\n"

def Command.run (environment : Environment) (values : Values) :
    Command → Attempt Storage String
  | .authors => return CommandLine.authors
  | .check => CommandLine.check environment values
  | .checkers => return table (Checker.all.map fun c => (c.name, c.description))
  | .dialects =>
    let names := String.intercalate "," (Dialect.all.map Dialect.name)
    return s!"[{names}]\n"
  | .generate => CommandLine.generate environment values
  | .generators => return table (Problem.all.map fun p => (p.name, p.description))

/-! ### Whole runs -/

inductive Conclusion where
  | printed (text : String)
  | helped
  | misused
  /-- A failure, which is not told if the run is to be silent. -/
  | failed (failure : Failure) (silent : Bool)
deriving DecidableEq, Repr

def Conclusion.status : Conclusion → Nat
  | .printed _ | .helped => 0
  | .misused => 2
  | .failed failure _ =>
    match failure.kind with
    | .invalidArgument => 2
    | .system => 3
    | .overflow => 101
    | _ => 1

/-- The complaints about a failure, one for each link of its chain. An overflow is not complained
about, since nothing handles it. -/
def Conclusion.complaints : Conclusion → List String
  | .failed failure false =>
    match failure.kind, failure.chain with
    | .overflow, _ | _, [] => []
    | _, first :: rest => ("an error occurred: " ++ first) :: rest.map ("caused by: " ++ ·)
  | _ => []

def run (environment : Environment) (arguments : List String) (storage : Storage) :
    Conclusion × Storage :=
  match readCommand arguments with
  | .error .help => (.helped, storage)
  | .error .misuse => (.misused, storage)
  | .ok (command, values) =>
    match (command.run environment values).run storage with
    | (.ok text, storage) => (.printed text, storage)
    | (.error failure, storage) =>
      (.failed failure (values.get "logging-level" == "off"), storage)

end SolverAudit.CommandLine
