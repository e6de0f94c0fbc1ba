import SolverAudit.Failure
import SolverAudit.Ordered.Map
import SolverAudit.Text.Quoted

/-!
# Storage

Directories and text files, each at its place below the root. A path names a place, from the root or
from the current directory on. What cannot be done is refused with the fault that the operating
system would report.

A path is a text of names with slashes between them, from the root on if a slash comes first. A
single dot names the directory it stands in, two dots the one above it.
-/

namespace SolverAudit

/-! ### Paths -/

namespace Path

def isAbsolute (path : String) : Bool := path.startsWith "/"

/-- Whether a path ends as only paths of directories do. -/
def endsOpen (path : String) : Bool := path.endsWith "/"

def names (path : String) : List String :=
  ((path.toList.splitOn '/').map String.ofList).filter (· != "")

/-- The names that tell a path from others. Single dots change nothing, except one that stands in
front. -/
def components (path : String) : List String :=
  match names path with
  | "." :: rest => (if isAbsolute path then [] else ["."]) ++ rest.filter (· != ".")
  | names => names.filter (· != ".")

def join (directory name : String) : String :=
  if directory = "" || endsOpen directory then directory ++ name
  else directory ++ "/" ++ name

/-- A path and the paths of the directories above it, the innermost one first. Neither the root nor
the directory that a path without names starts from is among them. -/
def ancestors (path : String) : List String :=
  match components path with
  | [] => []
  | components =>
    let root := if isAbsolute path then "/" else ""
    path :: (List.range' 1 (components.length - 1)).reverse.map fun count =>
      root ++ String.intercalate "/" (components.take count)

end Path

/-! ### Entries -/

/-- The names on the way from the root to an entry. -/
abbrev Place := List String

inductive Entry where
  | directory
  | file (content : String)
deriving DecidableEq, Repr

structure Storage where
  /-- The entries below the root, which is a directory itself. -/
  entries : OrderedMap Place Entry
  here : Place
deriving DecidableEq

inductive SystemFault where
  | notFound
  | permissionDenied
  | present
  | notDirectory
  | isDirectory
  | nameTooLong
  /-- A path has the character that ends texts inside the operating system. -/
  | endInPath
  /-- The name of a program or one of its arguments has that character. -/
  | endInArgument
deriving DecidableEq, Repr

namespace SystemFault

def reason : SystemFault → String
  | .notFound => "No such file or directory"
  | .permissionDenied => "Permission denied"
  | .present => "File exists"
  | .notDirectory => "Not a directory"
  | .isDirectory => "Is a directory"
  | .nameTooLong => "File name too long"
  | .endInPath => "file name contained an unexpected NUL byte"
  | .endInArgument => "nul byte found in provided data"

/-- The number of a fault, unless it is seen before the operating system is asked. -/
def number? : SystemFault → Option Nat
  | .notFound => some 2
  | .permissionDenied => some 13
  | .present => some 17
  | .notDirectory => some 20
  | .isDirectory => some 21
  | .nameTooLong => some 36
  | .endInPath => none
  | .endInArgument => none

end SystemFault

instance : Cause SystemFault where
  kind _ := .system
  wording fault :=
    let reason := fault.reason
    match fault.number? with
    | some number => s!"{reason} (os error {number})"
    | none => reason

def hasEnd (text : String) : Bool := text.contains '\x00'

namespace Storage

def fresh (here : Place) : Storage where
  entries := .ofList ((List.range here.length).map fun n => (here.take (n + 1), .directory))
  here := here

def entry? (s : Storage) (place : Place) : Option Entry :=
  if place.isEmpty then some .directory else s.entries.get? place

def put (s : Storage) (place : Place) (entry : Entry) : Storage :=
  { s with entries := s.entries.insert place entry }

/-! ### Following paths -/

/-- The greatest number of bytes of a name. -/
def longestName : Nat := 255

/-- The greatest number of bytes of a path. -/
def longestPath : Nat := 4095

def isTooLong (name : String) : Bool := longestName < name.utf8ByteSize

/-- Whether a name leads from a directory to itself or to the one above it. -/
def isDots (name : String) : Bool := name == "." || name == ".."

def origin (s : Storage) (path : String) : Place :=
  if Path.isAbsolute path then [] else s.here

def step (place : Place) (name : String) : Place :=
  if name = "." then place
  else if name = ".." then place.dropLast
  else place ++ [name]

/-- The directory that names lead to, through directories only. -/
def follow (s : Storage) (place : Place) : List String → Except SystemFault Place
  | [] => .ok place
  | name :: rest =>
    if isTooLong name then .error .nameTooLong
    else
      match s.entry? (step place name) with
      | none => .error .notFound
      | some (.file _) => .error .notDirectory
      | some .directory => s.follow (step place name) rest

/-- The directory that the last name of a path stands in, and that name. The root stands in
itself. -/
def reach (s : Storage) (path : String) : Except SystemFault (Place × String) := do
  if hasEnd path then throw .endInPath
  if longestPath < path.utf8ByteSize then throw .nameTooLong
  match (Path.names path).getLast? with
  | none => if Path.isAbsolute path then return ([], ".") else throw .notFound
  | some last => return (← s.follow (s.origin path) (Path.names path).dropLast, last)

def find (s : Storage) (path : String) : Except SystemFault (Place × Entry) := do
  let (directory, last) ← s.reach path
  if isTooLong last then throw .nameTooLong
  match s.entry? (step directory last) with
  | none => throw .notFound
  | some (.file content) =>
    if Path.endsOpen path then throw .notDirectory
    else return (step directory last, .file content)
  | some .directory => return (step directory last, .directory)

def isDirectory (s : Storage) (path : String) : Bool :=
  match s.find path with
  | .ok (_, .directory) => true
  | _ => false

/-! ### Changes -/

/-- The storage with one more directory, inside one that is there. -/
def withDirectory (s : Storage) (path : String) : Except SystemFault Storage := do
  let (directory, last) ← s.reach path
  if isDots last then throw .present
  if isTooLong last then throw .nameTooLong
  match s.entry? (step directory last) with
  | none => return s.put (step directory last) .directory
  | some _ => throw .present

/-- The storage with a file of the given content, whatever its content before. -/
def withFile (s : Storage) (path content : String) : Except SystemFault Storage := do
  let (directory, last) ← s.reach path
  if isDots last || Path.endsOpen path then throw .isDirectory
  if isTooLong last then throw .nameTooLong
  match s.entry? (step directory last) with
  | some .directory => throw .isDirectory
  | _ => return s.put (step directory last) (.file content)

/-- The storage without a directory and all that is below it. -/
def withoutDirectory (s : Storage) (path : String) : Except SystemFault Storage := do
  match ← s.find path with
  | (_, .file _) => throw .notDirectory
  | (place, .directory) => return { s with entries := s.entries.restrict (!place.isPrefixOf ·) }

def attempt (change : Storage → Except SystemFault Storage) : Attempt Storage Unit :=
  ExceptT.mk fun s =>
    match change s with
    | .ok s => (.ok (), s)
    | .error fault => (.error (.of fault), s)

/-- Creates the first of the given directories unless it is there, and before it those of the others
that are missing. Each of them stands in the next one. What has been created stays if something is
refused later. -/
def createInnermost : List String → Storage → Except SystemFault Unit × Storage
  | [], s => (.ok (), s)
  | path :: above, s =>
    match s.withDirectory path with
    | .ok s => (.ok (), s)
    | .error .notFound =>
      match createInnermost above s with
      | (.error fault, s) => (.error fault, s)
      | (.ok (), s) =>
        match s.withDirectory path with
        | .ok s => (.ok (), s)
        | .error fault => (unlessThere s path fault, s)
    | .error fault => (unlessThere s path fault, s)
where
  /-- A directory that is there need not be created. -/
  unlessThere (s : Storage) (path : String) (fault : SystemFault) : Except SystemFault Unit :=
    if fault = .present ∧ s.isDirectory path then .ok () else .error fault

def createDirectory (path : String) : Attempt Storage Unit :=
  ExceptT.mk fun s =>
    let (result, s) := createInnermost (Path.ancestors path) s
    (orFail result, s)

/-! ### Views -/

def names (s : Storage) (directory : Place) : List String :=
  s.entries.keys.filterMap fun place =>
    if place.dropLast = directory then place.getLast? else none

def files (s : Storage) (directory : Place) : List (String × String) :=
  (s.names directory).filterMap fun name =>
    match s.entry? (directory ++ [name]) with
    | some (.file content) => some (name, content)
    | _ => none

end Storage

end SolverAudit
