/-!
# Characters, lines and numerals

Blanks are the characters with the Unicode property White_Space, which texts are trimmed and split
at. Decimal digits are the characters of the category Nd in Unicode 16. Numerals are whole numbers
written with ASCII digits, an optional sign in front and leading zeros allowed, read within the
range of a machine word.
-/

namespace SolverAudit

/-! ### Blanks and lines -/

def isBlank (c : Char) : Bool :=
  let n := c.toNat
  (9 ≤ n && n ≤ 13) || n == 32 || n == 0x85 || n == 0xA0 || n == 0x1680 ||
    (0x2000 ≤ n && n ≤ 0x200A) || n == 0x2028 || n == 0x2029 || n == 0x202F || n == 0x205F ||
    n == 0x3000

/-- Whether the character separates words in the ASCII sense: a space, a tab, or the end of a line
or page. -/
def isAsciiBlank (c : Char) : Bool :=
  c == ' ' || c == '\t' || c == '\n' || c == '\x0c' || c == '\r'

def trimStart (text : List Char) : List Char :=
  text.dropWhile isBlank

def trimEnd (text : List Char) : List Char :=
  (text.reverse.dropWhile isBlank).reverse

/-- The maximal runs of characters that fail the test, in order. -/
def wordsBy (separates : Char → Bool) (text : List Char) : List (List Char) :=
  (text.splitOnP separates).filter fun word => !word.isEmpty

def lines (text : List Char) : List (List Char) :=
  text.splitOn '\n'

def unlines (rows : List (List Char)) : List Char :=
  rows.flatMap (· ++ ['\n'])

/-! ### Decimal digits -/

/-- The zeros among the decimal digits, which come in runs of ten. -/
def decimalZeros : List Nat :=
  [
    0x30, 0x660, 0x6F0, 0x7C0, 0x966, 0x9E6, 0xA66, 0xAE6, 0xB66, 0xBE6, 0xC66, 0xCE6, 0xD66, 0xDE6,
    0xE50, 0xED0, 0xF20, 0x1040, 0x1090, 0x17E0, 0x1810, 0x1946, 0x19D0, 0x1A80, 0x1A90, 0x1B50,
    0x1BB0, 0x1C40, 0x1C50, 0xA620, 0xA8D0, 0xA900, 0xA9D0, 0xA9F0, 0xAA50, 0xABF0, 0xFF10, 0x104A0,
    0x10D30, 0x10D40, 0x11066, 0x110F0, 0x11136, 0x111D0, 0x112F0, 0x11450, 0x114D0, 0x11650,
    0x116C0, 0x116D0, 0x116DA, 0x11730, 0x118E0, 0x11950, 0x11BF0, 0x11C50, 0x11D50, 0x11DA0,
    0x11F50, 0x16130, 0x16A60, 0x16AC0, 0x16B50, 0x16D70, 0x1CCF0, 0x1D7CE, 0x1D7D8, 0x1D7E2,
    0x1D7EC, 0x1D7F6, 0x1E140, 0x1E2F0, 0x1E4F0, 0x1E5F1, 0x1E950, 0x1FBF0
  ]

def isDecimalDigit (c : Char) : Bool :=
  decimalZeros.any fun first => first ≤ c.toNat && c.toNat < first + 10

theorem isDecimalDigit_of_isDigit {c : Char} (h : c.isDigit = true) : isDecimalDigit c = true := by
  simp only [Char.isDigit, Bool.and_eq_true, decide_eq_true_eq, ge_iff_le, UInt32.le_iff_toNat_le]
    at h
  have low : 0x30 ≤ c.toNat := h.1
  have high : c.toNat ≤ 0x39 := h.2
  simp only [isDecimalDigit, decimalZeros, List.any_cons, Bool.or_eq_true, Bool.and_eq_true,
    decide_eq_true_eq]
  exact .inl ⟨low, by omega⟩

/-! ### Numerals -/

namespace Numeral

def value (digits : List Char) : Nat :=
  digits.foldl (fun n d => 10 * n + (d.toNat - '0'.toNat)) 0

/-- The number that a non-empty sequence of ASCII digits denotes. -/
def natural? (text : List Char) : Option Nat :=
  if text ≠ [] ∧ text.all Char.isDigit then some (value text) else none

/-- How many numbers can be told apart by so many bits. -/
def capacity (bits : Nat) : Nat := Nat.pow 2 bits

/-- The number below `2 ^ bits` that digits denote, a plus sign allowed in front. -/
def unsigned? (bits : Nat) (text : List Char) : Option Nat :=
  let digits := match text with
    | '+' :: rest => rest
    | _ => text
  (natural? digits).filter (· < capacity bits)

/-- The number from `-2 ^ (bits - 1)` up to and without `2 ^ (bits - 1)` that digits denote, a sign
allowed in front. -/
def signed? (bits : Nat) (text : List Char) : Option Int :=
  match text with
  | '-' :: digits => (natural? digits).bind fun n =>
    if n ≤ capacity (bits - 1) then some (-(n : Int)) else none
  | '+' :: digits => (natural? digits).bind fun n =>
    if n < capacity (bits - 1) then some (n : Int) else none
  | digits => (natural? digits).bind fun n =>
    if n < capacity (bits - 1) then some (n : Int) else none

def digits (n : Nat) : List Char := Nat.toDigits 10 n

end Numeral

end SolverAudit
