/-!
# Settings

A command takes settings, each with a value: behind an equals sign, attached to the letter of the
setting, or as the next argument. A call for help is answered as soon as it is read; whether the
settings make sense together is looked at in the end.
-/

namespace SolverAudit.CommandLine

structure Setting where
  name : String
  letter : Option Char := none
  required : Bool := false
  standard : Option String := none
  /-- The values allowed. If none are listed, all are but the empty one. -/
  choices : List String := []

inductive Refusal where
  | help
  | misuse
deriving DecidableEq, Repr

structure Reading where
  /-- The settings given so far, the latest one first, with their values. -/
  given : List (String × Option String) := []
  /-- Whether the latest setting can still take the next argument as its value. -/
  waiting : Bool := false
  /-- Whether the end of the settings has been marked. -/
  closed : Bool := false

def Setting.accepts (s : Setting) (value : String) : Bool :=
  if s.choices.isEmpty then value != "" else s.choices.contains value

namespace Reading

/-- A setting with its value, if one is attached. Equals signs before the value do not count. -/
def give (r : Reading) (setting : Setting) : Option (List Char) → Except Refusal Reading
  | none => .ok { r with given := (setting.name, none) :: r.given, waiting := true }
  | some text =>
    let value := String.ofList (text.dropWhile (· == '='))
    if value = "" ∧ setting.choices.isEmpty then .error .misuse
    else .ok { r with given := (setting.name, some value) :: r.given, waiting := false }

def readName (settings : List Setting) (r : Reading) (text : List Char) : Except Refusal Reading :=
  let name := String.ofList (text.takeWhile (· != '='))
  let attached := match text.dropWhile (· != '=') with
    | [] => none
    | _ :: value => some value
  match settings.find? fun s => s.name = name with
  | some setting => r.give setting attached
  | none => .error (if name = "help" then .help else .misuse)

/-- Reads an argument that starts with the letter of a setting, without its dash. -/
def readLetter (settings : List Setting) (r : Reading) : List Char → Except Refusal Reading
  | [] => .error .misuse
  | letter :: rest =>
    match settings.find? fun s => s.letter = some letter with
    | some setting => r.give setting (if rest.isEmpty then none else some rest)
    | none => .error (if letter = 'h' then .help else .misuse)

/-- Reads an argument that can only be the value of the latest setting. -/
def readValue (r : Reading) (value : String) : Except Refusal Reading :=
  match r.waiting, r.given with
  | true, (name, _) :: given =>
    .ok { r with given := (name, some value) :: given, waiting := false }
  | _, _ => .error .misuse

def readArgument (settings : List Setting) (r : Reading) (argument : String) :
    Except Refusal Reading :=
  if r.closed then .error .misuse
  else
    match argument.toList with
    | ['-', '-'] => .ok { r with closed := true }
    | '-' :: '-' :: text => r.readName settings (text.dropWhile (· == '-'))
    | '-' :: letter :: rest => r.readLetter settings (letter :: rest)
    | _ => r.readValue argument

def valueOf (r : Reading) (setting : Setting) : Except Refusal (Option String) :=
  match r.given.filter fun (name, _) => name == setting.name with
  | [] =>
    if setting.standard.isNone && setting.required then .error .misuse else .ok setting.standard
  | [(_, some value)] => if setting.accepts value then .ok (some value) else .error .misuse
  | [(_, none)] => if setting.standard.isNone then .error .misuse else .ok setting.standard
  | _ => .error .misuse

end Reading

abbrev Values := List (String × Option String)

def readValues (settings : List Setting) (arguments : List String) : Except Refusal Values := do
  let reading ← arguments.foldlM (Reading.readArgument settings) {}
  settings.mapM fun setting => do
    let value ← reading.valueOf setting
    return (setting.name, value)

def Values.get? (values : Values) (name : String) : Option String :=
  (values.lookup name).join

def Values.get (values : Values) (name : String) : String := (values.get? name).getD ""

end SolverAudit.CommandLine
