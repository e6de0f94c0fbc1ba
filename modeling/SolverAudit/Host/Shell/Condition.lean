import SolverAudit.Storage.Basic
import SolverAudit.Text.Basic

/-!
# Conditions of scripts

A condition is a list of operands and operators about texts, numbers and files.
-/

namespace SolverAudit.Shell

inductive ConditionFault where
  | notNumber (text : String)
  | noOperand (operator : String)
  | misplaced (operand : String)
  | noClosing
deriving DecidableEq, Repr

def ConditionFault.wording : ConditionFault → String
  | .notNumber text => s!"Illegal number: {text}"
  | .noOperand operator => s!"{operator}: argument expected"
  | .misplaced "" => "unexpected operator"
  | .misplaced operand => s!"{operand}: unexpected operator"
  | .noClosing => "closing paren expected"

/-- The whole number that a text denotes, with blanks around it. -/
def integer? (text : String) : Option Int :=
  Numeral.signed? 64 (trimEnd (trimStart text.toList))

structure Examination where
  rest : List String
  last : String := ""

/-- Conditions are about the files of a storage. -/
abbrev Examiner := ReaderT Storage (StateT Examination (Except ConditionFault))

namespace Examiner

def unaryOperators : List String :=
  ["-n", "-z", "-e", "-f", "-d", "-r", "-w", "-x", "-s", "-t", "-b", "-c", "-p", "-h", "-L", "-S",
    "-u", "-g", "-k", "-O", "-G"]

def binaryOperators : List String :=
  ["=", "!=", "<", ">", "-eq", "-ne", "-lt", "-le", "-gt", "-ge", "-nt", "-ot", "-ef"]

/-- Devices are neither directories nor usual files. -/
def isDevice (place : Place) : Bool := place.head? == some "dev"

/-- Whether a file is as the operator says. All files may be read and written, and those are
programs that are where programs are installed. -/
def examineFile (storage : Storage) (operator path : String) : Bool :=
  match storage.find path with
  | .error _ => false
  | .ok (_, .directory) => ["-e", "-d", "-r", "-w", "-x", "-s", "-O", "-G"].contains operator
  | .ok (place, .file content) =>
    match operator with
    | "-e" | "-r" | "-w" | "-O" | "-G" => true
    | "-f" => !isDevice place
    | "-c" => isDevice place
    | "-s" => content != ""
    | "-x" => place.dropLast.getLast? == some "bin"
    | _ => false

def number (text : String) : Examiner Int :=
  match integer? text with
  | some n => return n
  | none => throw (.notNumber text)

def unary (operator operand : String) : Examiner Bool := do
  match operator with
  | "-n" => return operand != ""
  | "-z" => return operand == ""
  | "-t" =>
    let _ ← number operand
    return false
  | _ => return examineFile (← read) operator operand

def binary (a operator b : String) : Examiner Bool := do
  match operator with
  | "=" => return a == b
  | "!=" => return a != b
  | "<" => return a < b
  | ">" => return b < a
  | "-eq" => return (← number a) == (← number b)
  | "-ne" => return (← number a) != (← number b)
  | "-lt" => return (← number a) < (← number b)
  | "-le" => return (← number a) ≤ (← number b)
  | "-gt" => return (← number b) < (← number a)
  | "-ge" => return (← number b) ≤ (← number a)
  | "-ef" => return examineFile (← read) "-e" a && a == b
  | _ => return false

/-- Whether an operator comes next that is followed by an operand, so that it is no operand
itself. -/
def operates : List String → Bool
  | _ :: [] | [] => false
  | _ :: _ :: [] => true
  | _ :: second :: _ :: _ => !binaryOperators.contains second

def primary (whole : Examiner Bool) : Examiner Bool := do
  match (← get).rest with
  | [] => return false
  | "(" :: ")" :: rest =>
    set { rest, last := ")" : Examination }
    return false
  | "(" :: second :: rest =>
    set { rest := second :: rest, last := "(" : Examination }
    let result ← whole
    match (← get).rest with
    | ")" :: rest =>
      set { rest, last := ")" : Examination }
      return result
    | _ => throw .noClosing
  | first :: rest =>
    if unaryOperators.contains first ∧ operates (first :: rest) then
      set { rest := rest.tail, last := rest.headD "" : Examination }
      unary first (rest.headD "")
    else
      match rest with
      | operator :: others =>
        if binaryOperators.contains operator then
          match others with
          | [] => throw (.noOperand operator)
          | second :: rest =>
            set { rest, last := second : Examination }
            binary first operator second
        else
          set { rest, last := first : Examination }
          return first != ""
      | [] =>
        set { rest := [], last := first : Examination }
        return first != ""

def combined (operator : String) (combine : Bool → Bool → Bool) (operand : Examiner Bool)
    (a : Bool) : (most : Nat) → Examiner Bool
  | 0 => return a
  | most + 1 => do
    match (← get).rest with
    | next :: rest =>
      if next = operator then
        set { rest, last := next : Examination }
        combined operator combine operand (combine a (← operand)) most
      else return a
    | [] => return a

def negated (whole : Examiner Bool) : (most : Nat) → Examiner Bool
  | 0 => return false
  | most + 1 => do
    match (← get).rest with
    | "!" :: second :: rest =>
      set { rest := second :: rest, last := "!" : Examination }
      return !(← negated whole most)
    | _ => primary whole

/-- A condition that is nested no deeper than the given number. -/
def condition : (depth : Nat) → Examiner Bool
  | 0 => return false
  | depth + 1 => do
    let most := (← get).rest.length + 1
    let single := negated (condition depth) most
    let conjunction : Examiner Bool := do combined "-a" (· && ·) single (← single) most
    combined "-o" (· || ·) conjunction (← conjunction) most

/-- A whole condition. Two operands with an operator between them are a comparison, whatever they
are. -/
def complete : Examiner Bool := do
  match (← get).rest with
  | [] => return false
  | [a, operator, b] =>
    if binaryOperators.contains operator then binary a operator b
    else whole
  | _ => whole
where
  whole : Examiner Bool := do
    let result ← condition ((← get).rest.length + 1)
    unless (← get).rest.isEmpty do throw (.misplaced (← get).last)
    return result

end Examiner

def examine (storage : Storage) (condition : List String) : Except ConditionFault Bool :=
  (Examiner.complete storage).run' ⟨condition, ""⟩

end SolverAudit.Shell
