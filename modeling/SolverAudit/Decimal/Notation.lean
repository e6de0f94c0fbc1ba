import SolverAudit.Decimal.Binary64
import SolverAudit.Text.Basic

/-!
# Decimal notation

A number in decimal notation has an optional sign, digits with an optional point among them, and an
optional exponent. Which characters count as digits is a parameter.
-/

namespace SolverAudit

structure DecimalNotation where
  negative : Bool
  whole : List Char
  fraction : List Char
  exponentNegative : Bool
  exponent : List Char
deriving DecidableEq, Repr

namespace DecimalNotation

/-- Whether a sign in front is a minus, and what follows it. -/
def sign : List Char → Bool × List Char
  | '-' :: rest => (true, rest)
  | '+' :: rest => (false, rest)
  | text => (false, text)

/-- The digits after a point, if a point comes first, and what follows them. -/
def fractionOf (isDigit : Char → Bool) : List Char → List Char × List Char
  | '.' :: rest => rest.span isDigit
  | text => ([], text)

/-- The exponent that makes up a whole text: nothing, or its mark, a sign and at least one digit. -/
def exponentOf? (isDigit : Char → Bool) : List Char → Option (Bool × List Char)
  | [] => some (false, [])
  | mark :: rest =>
    let (negative, digits) := sign rest
    if (mark = 'e' ∨ mark = 'E') ∧ digits ≠ [] ∧ digits.all isDigit then some (negative, digits)
    else none

def read? (isDigit : Char → Bool) (text : List Char) : Option DecimalNotation := do
  let (negative, text) := sign text
  let (whole, text) := text.span isDigit
  let (fraction, text) := fractionOf isDigit text
  guard (whole ≠ [] ∨ fraction ≠ [])
  let (exponentNegative, exponent) ← exponentOf? isDigit text
  return { negative, whole, fraction, exponentNegative, exponent }

/-- The number written, when its digits are ASCII digits. -/
def toFloat (n : DecimalNotation) : Float :=
  let exponent : Int := Numeral.value n.exponent
  let exponent := if n.exponentNegative then -exponent else exponent
  Binary64.toFloat n.negative
    (Binary64.ofDecimal (Numeral.value (n.whole ++ n.fraction)) (exponent - n.fraction.length))

end DecimalNotation

end SolverAudit
