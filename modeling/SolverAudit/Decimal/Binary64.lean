/-!
# Binary64 numbers

The sixty-four bits of a floating-point number stand for a sign and `mantissa * 2 ^ exponent`. A
ratio of whole numbers is rounded to the nearest such number, a tie going to the even mantissa.
-/

namespace SolverAudit.Binary64

/-- The least exponent, that of the numbers nearest to zero. -/
def leastExponent : Int := -1074

/-- The bit in front of the fraction, which is not written. -/
def hiddenBit : Nat := Nat.pow 2 52

def infinity : Nat := 0x7FF * hiddenBit

def signBit : Nat := Nat.pow 2 63

structure Magnitude where
  mantissa : Nat
  exponent : Int
deriving DecidableEq, Repr

/-- The magnitude that finite bits stand for, whatever their sign. -/
def magnitude (bits : Nat) : Magnitude :=
  let fraction := bits % hiddenBit
  match bits / hiddenBit % 0x800 with
  | 0 => ⟨fraction, leastExponent⟩
  | field + 1 => ⟨fraction + hiddenBit, (field : Int) + leastExponent⟩

/-- The whole number nearest to a ratio, the even one of two. -/
def nearest (num den : Nat) : Nat :=
  let floor := num / den
  let twice := 2 * (num % den)
  if twice < den then floor
  else if den < twice then floor + 1
  else floor + floor % 2

def scaleDown (num den : Nat) (exponent : Int) : Nat × Nat :=
  (num * Nat.pow 2 (-exponent).toNat, den * Nat.pow 2 exponent.toNat)

/-- The exponent `e` with `2 ^ e ≤ num / den < 2 ^ (e + 1)`. -/
def floorLog2 (num den : Nat) : Int :=
  let guess := (num.log2 : Int) - den.log2
  let (n, d) := scaleDown num den guess
  if n < d then guess - 1 else guess

def ofRatio (num den : Nat) : Nat :=
  if num = 0 then 0
  else
    let exponent := max (floorLog2 num den - 52) leastExponent
    let (n, d) := scaleDown num den exponent
    min ((exponent - leastExponent).toNat * hiddenBit + nearest n d) infinity

/-- The bits of the number nearest to `digits * 10 ^ exponent`. A decimal exponent far outside the
range of the numbers settles the result, so that no huge power is computed. -/
def ofDecimal (digits : Nat) (exponent : Int) : Nat :=
  let width := (Nat.toDigits 10 digits).length
  if digits = 0 then 0
  else if 400 < exponent + width then infinity
  else if exponent + width < -400 then 0
  else ofRatio (digits * Nat.pow 10 exponent.toNat) (Nat.pow 10 (-exponent).toNat)

def toFloat (negative : Bool) (bits : Nat) : Float :=
  let value := Float.ofBits (UInt64.ofNat bits)
  if negative then -value else value

end SolverAudit.Binary64
