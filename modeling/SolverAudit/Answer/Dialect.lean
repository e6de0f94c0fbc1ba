import SolverAudit.Answer.Reader

/-!
# Dialects

The two dialects of argumentation solvers differ in the layout of extension sets: the older one
writes them flat, the newer one with one extension a line. Each written answer ends with a line
feed.
-/

namespace SolverAudit

/-! ### Writing answers -/

namespace Answer

def bracketList (texts : List (List Char)) : List Char :=
  ['['] ++ [','].intercalate texts ++ [']']

def extensionText (e : Extension) : List Char :=
  bracketList (e.toList.map String.toList)

def flatSetText (es : Extensions) : List Char :=
  bracketList (es.toList.map extensionText)

def lineSetText (es : Extensions) : List Char :=
  ['[', '\n'] ++ es.toList.flatMap (fun e => [' ', ' '] ++ extensionText e ++ ['\n']) ++ [']']

def tripleText (setText : Extensions → List Char) :
    Extensions × Extensions × Extensions → List Char
  | (first, second, third) => bracketList [setText first, setText second, setText third]

def statusText (accepted : Bool) : List Char :=
  if accepted then ['Y', 'E', 'S'] else ['N', 'O']

def statusesText (statuses : List Bool) : List Char :=
  [','].intercalate (statuses.map statusText)

def asLine (text : List Char) : String :=
  String.ofList (text ++ ['\n'])

end Answer

/-! ### The dialects -/

inductive Dialect where
  | iccma17
  | iccma19
deriving DecidableEq, Repr, Inhabited

namespace Dialect

open Answer

/-- The dialect used when none is named. -/
def standard : Dialect := .iccma19

def name : Dialect → String
  | .iccma17 => "ICCMA17"
  | .iccma19 => "ICCMA19"

def all : List Dialect := [.iccma17, .iccma19]

structure Unknown where
  name : String

instance : Cause Unknown where
  kind _ := .invalidArgument
  wording u :=
    let name := u.name
    let known := String.intercalate ", " (all.map Dialect.name)
    s!"unknown dialect \"{name}\" (expected one of {known})"

/-- The dialect of a name, whose ASCII letters may be of either case. -/
def ofName (name : String) : Except Unknown Dialect :=
  match all.find? fun dialect => dialect.name.toLower = name.toLower with
  | some dialect => .ok dialect
  | none => .error ⟨name⟩

def setReader : Dialect → Reader Extensions
  | .iccma17 => flatSet
  | .iccma19 => lineSet

def setText : Dialect → Extensions → List Char
  | .iccma17 => flatSetText
  | .iccma19 => lineSetText

/-- Reads a whole text during an activity. Content after the answer is not part of that activity. -/
def read {α : Type} (activity : String) (reader : Reader α) (text : String) : Except Failure α :=
  (readText reader text.toList).mapError fun m =>
    match m.expected with
    | .theEnd => .of m
    | _ => (Failure.of m).during activity

def readExtension (dialect : Dialect) (text : String) : Except Failure Extension :=
  let name := dialect.name
  read s!"while reading an {name} extension" extension text

def readSet (dialect : Dialect) (text : String) : Except Failure Extensions :=
  let name := dialect.name
  read s!"while reading an {name} extension set" dialect.setReader text

def readTriple (dialect : Dialect) (text : String) :
    Except Failure (Extensions × Extensions × Extensions) :=
  let name := dialect.name
  read s!"while reading an {name} D3 answer" (triple dialect.setReader) text

def readStatuses (dialect : Dialect) (text : String) : Except Failure (List Bool) :=
  let name := dialect.name
  read s!"while reading {name} acceptance statuses" statuses text

/-- Extensions and statuses are written alike in both dialects. -/
def writeExtension (_ : Dialect) (e : Extension) : String := asLine (extensionText e)

def writeSet (dialect : Dialect) (es : Extensions) : String := asLine (dialect.setText es)

def writeTriple (dialect : Dialect) (sets : Extensions × Extensions × Extensions) : String :=
  asLine (tripleText dialect.setText sets)

def writeStatuses (_ : Dialect) (statuses : List Bool) : String := asLine (statusesText statuses)

end Dialect

end SolverAudit
