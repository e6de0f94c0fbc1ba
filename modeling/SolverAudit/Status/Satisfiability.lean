import SolverAudit.Formula.Literal
import SolverAudit.Status.Line

/-!
# Answers of satisfiability solvers

One line of the output announces whether the formula is satisfiable. If it is, value lines give the
true literals, ended by a zero.
-/

namespace SolverAudit

inductive Satisfiability where
  | satisfiable (values : List Literal)
  | unsatisfiable
  | unknown
deriving DecidableEq, Repr

namespace Status

inductive Announcement where
  | satisfiable
  | unsatisfiable
  | unknown
deriving DecidableEq, Repr

def Announcement.line : Announcement → List Char
  | satisfiable => "s SATISFIABLE".toList
  | unsatisfiable => "s UNSATISFIABLE".toList
  | unknown => "s UNKNOWN".toList

def announcement? (line : List Char) : Option Announcement :=
  [.satisfiable, .unsatisfiable, .unknown].find? fun a => a.line = line

def valueWords? : List Char → Option (List (List Char))
  | ['v'] => some []
  | 'v' :: ' ' :: words => some (wordsBy isAsciiBlank words)
  | _ => none

structure Progress where
  announced : Option Announcement := none
  values : List Literal := []
  valuesGiven : Bool := false
  /-- Whether the zero after the values has been read. -/
  ended : Bool := false
deriving DecidableEq, Repr

namespace Progress

def readWord (p : Progress) (word : List Char) : Except Fault Progress :=
  match Numeral.signed? 64 word with
  | none => .error (.notLiteral word)
  | some n =>
    if p.ended then .error .valueAfterEnd
    else
      match Literal.ofInt? n with
      | some l => .ok { p with values := p.values ++ [l] }
      | none => .ok { p with ended := true }

def readLine (p : Progress) (line : List Char) : Except Fault Progress :=
  if line.head? = some 's' then
    match announcement? line with
    | none => .error (.unknownStatus line)
    | some a =>
      if p.announced.isSome then .error .repeatedStatus else .ok { p with announced := some a }
  else
    match valueWords? line with
    | none => .error (.unexpectedLine line)
    | some words => words.foldlM readWord { p with valuesGiven := true }

def conclude (p : Progress) : Except Fault Satisfiability :=
  match p.announced with
  | none => .error .noStatus
  | some .satisfiable =>
    if !p.valuesGiven then .error .noValues
    else if !p.ended then .error .unterminatedValues
    else .ok (.satisfiable p.values)
  | some .unsatisfiable => if p.valuesGiven then .error .strayValues else .ok .unsatisfiable
  | some .unknown => if p.valuesGiven then .error .strayValues else .ok .unknown

end Progress

def readSatisfiability (output : String) : Except Failure Satisfiability := do
  let progress ← readLines Progress.readLine {} output
  orFail progress.conclude

end Status

end SolverAudit
