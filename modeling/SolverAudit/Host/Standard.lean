import SolverAudit.Host.Filter
import SolverAudit.Host.Printing
import SolverAudit.Program
import SolverAudit.Text.Basic

/-!
# Standard programs

What a host has before anything is installed or stored. The small programs that every system has can
stand in for solvers: they succeed, fail, wait, count, repeat their arguments or show files. Nothing
about sessions depends on them, as these work with any programs.
-/

namespace SolverAudit

namespace Host

def misused (name message : String) : Outcome :=
  .complained 1 s!"{name}: {message}\nTry '{name} --help' for more information."

def isInterval (text : String) : Bool :=
  let letters := text.toList
  let digits := match letters.getLast? with
    | some unit => if "smhd".contains unit then letters.dropLast else letters
    | none => letters
  let whole := digits.takeWhile Char.isDigit
  let fraction := digits.drop (whole.length + 1)
  let isFraction := digits.length = whole.length || digits[whole.length]? = some '.'
  isFraction && fraction.all Char.isDigit && !(whole ++ fraction).isEmpty

def sleep (name : String) (arguments : List String) : Outcome :=
  match arguments, arguments.find? (!isInterval ·) with
  | [], _ => misused name "missing operand"
  | _, some interval => misused name s!"invalid time interval '{interval}'"
  | _, none => .printed []

def numbers (first step last : Int) : List Int :=
  let count := if step = 0 then 0 else (last - first) / step + 1
  (List.range count.toNat).map fun (n : Nat) => first + step * n

def seq (name : String) (arguments : List String) : Outcome :=
  let number? (text : String) : Option Int := Numeral.signed? 64 text.toList
  match arguments.find? fun a => (number? a).isNone with
  | some text => misused name s!"invalid floating point argument: '{text}'"
  | none =>
    let printed (first step last : Int) : Outcome :=
      if step = 0 then misused name "invalid Zero increment value: '0'"
      else .printed (Utf8.encode (String.ofList
        (unlines ((numbers first step last).map fun n => (toString n).toList))))
    match arguments.filterMap number? with
    | [] => misused name "missing operand"
    | [last] => printed 1 1 last
    | [first, last] => printed first 1 last
    | [first, step, last] => printed first step last
    | _ =>
      let extra := arguments.getD 3 ""
      misused name s!"extra operand '{extra}'"

/-- The standard program of a name, the shell aside, as it runs on an input under the name it is
called by. -/
def simple? (input : List UInt8) : String → Option (String → Program)
  | "true" => some fun _ _ _ => .ok (.printed [])
  | "false" => some fun _ _ _ => .ok ⟨.exited 1, [], []⟩
  | "sleep" => some fun name arguments _ => .ok (sleep name arguments)
  | "echo" => some fun _ arguments _ => .ok (echo arguments)
  | "printf" => some fun name arguments _ =>
    .ok ((printf? .ofPrintf arguments).getD (misused name "missing operand"))
  | "seq" => some fun name arguments _ => .ok (seq name arguments)
  | "cat" => some fun name arguments storage => .ok (cat name storage input arguments)
  | "head" => some fun name arguments storage => .ok (head name storage input arguments)
  | "wc" => some fun name arguments storage => .ok (wc name storage input arguments)
  | _ => none

def simpleInstallation (input : List UInt8) : Installation
  | ["bin", name] => simple? input name
  | ["usr", "bin", name] => simple? input name
  | _ => none

end Host

/-! ### What is usually there -/

namespace Storage

def usualDirectories : List Place :=
  [["bin"], ["boot"], ["dev"], ["etc"], ["home"], ["lib"], ["media"], ["mnt"], ["opt"], ["proc"],
    ["root"], ["run"], ["sbin"], ["srv"], ["sys"], ["tmp"], ["usr"], ["usr", "bin"],
    ["usr", "include"], ["usr", "lib"], ["usr", "local"], ["usr", "local", "bin"], ["usr", "sbin"],
    ["usr", "share"], ["var"], ["var", "log"], ["var", "tmp"]]

def usualPrograms : List String :=
  ["cat", "echo", "false", "head", "printf", "seq", "sh", "sleep", "true", "wc"]

def usualFiles : List Place :=
  [["dev", "null"], ["etc", "hostname"], ["etc", "hosts"], ["etc", "passwd"]] ++
    usualPrograms.flatMap fun name => [["bin", name], ["usr", "bin", name]]

/-- The storage of a system with the current directory and what is usually there. -/
def usual (here : Place) : Storage :=
  let s := usualDirectories.foldl (fun s place => s.put place .directory) (fresh here)
  usualFiles.foldl (fun s place => s.put place (.file "")) s

end Storage

end SolverAudit
