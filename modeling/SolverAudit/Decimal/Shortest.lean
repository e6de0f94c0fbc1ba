import SolverAudit.Decimal.Binary64

/-!
# The shortest decimal of a number

Of the decimals that read back as a given number, the ones with the fewest digits are chosen, and of
these the nearest one, the larger of two equally near. Numbers from `10 ^ -4` up to and without
`10 ^ 16` are written with a point, the others with an exponent.
-/

namespace SolverAudit.Shortest

open Binary64

structure Decimal where
  digits : Nat
  exponent : Int
deriving DecidableEq, Repr

/-- The reals that round to a magnitude, in units of `2 ^ unit`; the ends belong to the interval
when the mantissa is even. -/
structure Interval where
  low : Nat
  value : Nat
  high : Nat
  unit : Int
  closed : Bool

def Interval.of (x : Magnitude) : Interval where
  low := if x.mantissa = hiddenBit ∧ leastExponent < x.exponent then 4 * x.mantissa - 1
    else 4 * x.mantissa - 2
  value := 4 * x.mantissa
  high := 4 * x.mantissa + 2
  unit := x.exponent - 2
  closed := x.mantissa % 2 == 0

/-- The numerators and denominator with which units and the decimal grid are compared:
`units * 2 ^ unit` is to `count * 10 ^ grid` as `units * up` is to `count * down`. -/
def ratio (unit grid : Int) : Nat × Nat :=
  (Nat.pow 2 unit.toNat * Nat.pow 10 (-grid).toNat,
    Nat.pow 2 (-unit).toNat * Nat.pow 10 grid.toNat)

def Interval.holds (i : Interval) (d : Decimal) : Bool :=
  let (up, down) := ratio i.unit d.exponent
  let point := d.digits * down
  if i.closed then i.low * up ≤ point && point ≤ i.high * up
  else i.low * up < point && point < i.high * up

/-- The point of the grid `10 ^ grid` that stands for the interval, if one lies in it. -/
def Interval.onGrid? (i : Interval) (grid : Int) : Option Decimal :=
  let (up, down) := ratio i.unit grid
  let below : Decimal := ⟨i.value * up / down, grid⟩
  let above : Decimal := ⟨below.digits + 1, grid⟩
  match i.holds below, i.holds above with
  | true, true => if 2 * (i.value * up % down) < down then some below else some above
  | true, false => some below
  | false, true => some above
  | false, false => none

def leadingExponent (value : Nat) (unit : Int) : Int :=
  let (up, down) := ratio unit 0
  let whole := value * up / down
  if 0 < whole then ((Nat.toDigits 10 whole).length : Int) - 1
  else
    let inverse := (down - 1) / (value * up)
    Int.negOfNat (Nat.toDigits 10 inverse).length

/-- The digits without the zeros at the end. -/
def Decimal.trim : (width : Nat) → Decimal → Decimal
  | 0, d => d
  | width + 1, d =>
    if d.digits ≠ 0 ∧ d.digits % 10 = 0 then trim width ⟨d.digits / 10, d.exponent + 1⟩ else d

/-- The first hit on the grids from `count` digits before the last one on. -/
def search (i : Interval) (leading : Int) : (left : Nat) → (width : Nat) → Decimal
  | 0, width => ⟨i.value * (ratio i.unit (leading - width)).1 /
      (ratio i.unit (leading - width)).2, leading - width⟩
  | left + 1, width =>
    match i.onGrid? (leading - width) with
    | some d => d
    | none => search i leading left (width + 1)

/-- The shortest decimal of a positive magnitude; seventeen digits always suffice. -/
def ofMagnitude (x : Magnitude) : Decimal :=
  let i := Interval.of x
  (search i (leadingExponent i.value i.unit) 17 0).trim 17

/-- The decimal written with a point: all its digits, and at least one on each side. -/
def positional (d : Decimal) : String :=
  let digits := Nat.toDigits 10 d.digits
  let whole := digits ++ List.replicate d.exponent.toNat '0'
  let places := (-d.exponent).toNat
  let padded := List.replicate (places + 1 - whole.length) '0' ++ whole
  let fraction := if places = 0 then ['0'] else padded.drop (padded.length - places)
  String.ofList (padded.take (padded.length - places) ++ ['.'] ++ fraction)

/-- The decimal written with one digit before the point and an exponent. -/
def scientific (d : Decimal) : String :=
  match Nat.toDigits 10 d.digits with
  | [] => ""
  | first :: rest =>
    let exponent := toString (d.exponent + rest.length)
    let point := if rest = [] then [] else ['.']
    String.ofList (first :: point ++ rest ++ ['e']) ++ exponent

def text (x : Float) : String :=
  let bits := x.toBits.toNat
  let sign := if signBit ≤ bits then "-" else ""
  let bits := bits % signBit
  if bits = 0 then sign ++ "0.0"
  else if bits = infinity then sign ++ "inf"
  else if infinity < bits then "NaN"
  else
    let d := ofMagnitude (magnitude bits)
    let leading := d.exponent + (Nat.toDigits 10 d.digits).length - 1
    sign ++ if -4 ≤ leading ∧ leading < 16 then positional d else scientific d

end SolverAudit.Shortest
