import SolverAudit.Program
import SolverAudit.Text.Basic

/-!
# Filters

The programs that show their input or files, whole or in part, or count what is in them.
-/

namespace SolverAudit.Host

/-- What a program reads: a file, or its input for a dash. -/
def source (storage : Storage) (input : List UInt8) (path : String) :
    Except SystemFault (List UInt8) :=
  if path = "-" then .ok input
  else
    match storage.find path with
    | .error fault => .error fault
    | .ok (_, .directory) => .error .isDirectory
    | .ok (_, .file content) => .ok (Utf8.encode content)

/-- A path as complaints show it: in quotes if it has a character that means something to a
shell. -/
def shownPath (path : String) : String :=
  let letters := path.toList
  let isSpecial :=
    path == "" || path == "\x7b" || path == "\x7d" ||
      letters.head?.any ("#~".contains ·) || letters.any (" \t\n!\"$&()*;<=>?[\\^|:\x60".contains ·)
  if letters.contains '\'' && !letters.any ("!\"$\\\x60".contains ·) then s!"\"{path}\""
  else if isSpecial then s!"'{path}'"
  else path

/-- Shows files one after the other. Of the input, nothing is left after the first dash. -/
def catFiles (name : String) (storage : Storage) (input : List UInt8) : List String → Outcome
  | [] => .printed []
  | path :: rest =>
    let rest := catFiles name storage (if path = "-" then [] else input) rest
    match source storage input path with
    | .ok content => { rest with output := content ++ rest.output }
    | .error fault =>
      let shown := shownPath path
      let reason := fault.reason
      ⟨.exited 1, rest.output, Utf8.encode s!"{name}: {shown}: {reason}\n" ++ rest.errors⟩

/-- Options that are letters, and the other arguments. All after two dashes are such. -/
def letterOptions (arguments : List String) : List Char × List String :=
  let before := arguments.takeWhile (· != "--")
  let (others, options) := before.partition fun a => !a.startsWith "-" || a == "-"
  (options.flatMap (·.toList.drop 1), others ++ arguments.drop (before.length + 1))

def invalidOption (name : String) (letter : Char) : Outcome :=
  .complained 1 s!"{name}: invalid option -- '{letter}'\nTry '{name} --help' for more information."

def cat (name : String) (storage : Storage) (input : List UInt8) (arguments : List String) :
    Outcome :=
  let (options, files) := letterOptions arguments
  match options.find? (!"AbeEnstTuv".contains ·) with
  | some letter => invalidOption name letter
  | none => catFiles name storage input (if files.isEmpty then ["-"] else files)

def leadingLines : (count : Nat) → List UInt8 → List UInt8
  | 0, _ => []
  | _, [] => []
  | count + 1, byte :: rest =>
    byte :: if byte = 0x0A then leadingLines count rest else leadingLines (count + 1) rest

def head (name : String) (storage : Storage) (input : List UInt8) (arguments : List String) :
    Outcome :=
  let shown (inBytes : Bool) (count : String) (files : List String) : Outcome :=
    match Numeral.natural? count.toList with
    | none =>
      let unit := if inBytes then "bytes" else "lines"
      .complained 1 s!"{name}: invalid number of {unit}: '{count}'"
    | some n =>
      let path := files.headD "-"
      match source storage input path with
      | .ok content => .printed (if inBytes then content.take n else leadingLines n content)
      | .error fault =>
        let reason := fault.reason
        .complained 1 s!"{name}: cannot open '{path}' for reading: {reason}"
  match arguments with
  | "-n" :: count :: files => shown false count files
  | "-c" :: count :: files => shown true count files
  | first :: files =>
    match first.toList with
    | '-' :: 'n' :: count => shown false (String.ofList count) files
    | '-' :: 'c' :: count => shown true (String.ofList count) files
    | '-' :: digit :: digits =>
      if digit.isDigit then shown false (String.ofList (digit :: digits)) files
      else invalidOption name digit
    | _ => shown false "10" arguments
  | [] => shown false "10" []

def isSpaceByte (byte : UInt8) : Bool := byte == 0x20 || (0x09 ≤ byte && byte ≤ 0x0D)

def countWords (inWord : Bool) : List UInt8 → Nat
  | [] => 0
  | byte :: rest =>
    if isSpaceByte byte then countWords false rest
    else (if inWord then 0 else 1) + countWords true rest

def wc (name : String) (storage : Storage) (input : List UInt8) (arguments : List String) :
    Outcome :=
  let (options, files) := letterOptions arguments
  let options := if options.isEmpty then ['l', 'w', 'c'] else options
  let path := files.headD "-"
  match options.find? (!"lwc".contains ·), source storage input path with
  | some letter, _ => invalidOption name letter
  | none, .error fault =>
    let shown := shownPath path
    let reason := fault.reason
    .complained 1 s!"{name}: {shown}: {reason}"
  | none, .ok content =>
    let counts := ['l', 'w', 'c'].filterMap fun letter =>
      if !options.contains letter then none
      else some <| Numeral.digits <| match letter with
        | 'l' => content.count 0x0A
        | 'w' => countWords false content
        | _ => content.length
    let width :=
      if counts.length ≤ 1 then 1
      else if path = "-" then 7
      else (Numeral.digits content.length).length
    let columns := counts.map fun digits =>
      String.ofList (List.replicate (width - digits.length) ' ' ++ digits)
    .printed (Utf8.encode (String.intercalate " " (columns ++ files.take 1) ++ "\n"))

end SolverAudit.Host
