import SolverAudit.Decimal.Notation
import SolverAudit.Status.Line
import SolverAudit.Text.Basic

/-!
# Answers of model counters

The only relevant line of the output gives the count, which may have a tag in front. The count is
kept as it is written.
-/

namespace SolverAudit.Status

def countTags : List (List Char) := [['m', 'c'], ['w', 'm', 'c']]

def countWord? : List Char → Option (List Char)
  | 's' :: blank :: rest =>
    if isBlank blank then
      match wordsBy isBlank rest with
      | [word] => some word
      | [tag, word] => if tag ∈ countTags then some word else none
      | _ => none
    else none
  | _ => none

/-- Whether a word is a number in decimal notation, with the digits of any script. -/
def isNumber (word : List Char) : Bool :=
  (DecimalNotation.read? isDecimalDigit word).isSome

def readCountLine (count : Option (List Char)) (line : List Char) :
    Except Fault (Option (List Char)) :=
  match countWord? line with
  | none => .error (.unexpectedLine line)
  | some word =>
    if !isNumber word then .error (.notNumber word)
    else if count.isSome then .error .repeatedStatus
    else .ok (some word)

def readCount (output : String) : Except Failure (List Char) := do
  match ← readLines readCountLine none output with
  | some word => return word
  | none => throw (.of Fault.noStatus)

end SolverAudit.Status
