import SolverAudit.Program
import SolverAudit.Text.Basic

/-!
# Printing programs

The programs that repeat their arguments, as they are or by a format, and the escapes in them.
-/

namespace SolverAudit.Host

/-! ### Escapes -/

/-- How escapes name a byte by digits. -/
structure Escaping where
  /-- Whether a zero may come before the octal digits. -/
  zeroInFront : Bool
  /-- Whether hexadecimal digits may follow an x. -/
  hexadecimal : Bool
  /-- Whether a quotation mark may be escaped. -/
  quotationMark : Bool
  /-- Whether an escape in a format may end the output. -/
  stops : Bool

def Escaping.ofEcho : Escaping := ⟨true, true, false, true⟩

def Escaping.ofPrintf : Escaping := ⟨false, true, true, true⟩

def letterEscape? : Char → Option UInt8
  | '\\' => some 0x5C
  | 'a' => some 0x07
  | 'b' => some 0x08
  | 'e' => some 0x1B
  | 'f' => some 0x0C
  | 'n' => some 0x0A
  | 'r' => some 0x0D
  | 't' => some 0x09
  | 'v' => some 0x0B
  | _ => none

def digitValue? (c : Char) : Option Nat :=
  "0123456789abcdef".toList.idxOf? c.toLower

def leadingDigits (base most : Nat) (text : List Char) : List Char :=
  (text.take most).takeWhile fun c => (digitValue? c).any (· < base)

def byteOfDigits (base : Nat) (digits : List Char) : UInt8 :=
  UInt8.ofNat (digits.foldl (fun n d => base * n + (digitValue? d).getD 0) 0)

def Escaping.escape? (e : Escaping) (text : List Char) : Option (UInt8 × Nat) :=
  let zeros := if e.zeroInFront ∧ text.head? = some '0' then 1 else 0
  let octal := leadingDigits 8 3 (text.drop zeros)
  if zeros + octal.length ≠ 0 then some (byteOfDigits 8 octal, zeros + octal.length)
  else
    let hexadecimal := leadingDigits 16 2 (text.drop 1)
    if e.hexadecimal ∧ text.head? = some 'x' ∧ hexadecimal ≠ [] then
      some (byteOfDigits 16 hexadecimal, 1 + hexadecimal.length)
    else if e.quotationMark ∧ text.head? = some '"' then some (0x22, 1)
    else (text.head?.bind letterEscape?).map fun byte => (byte, 1)

def characterBytes (c : Char) : List UInt8 := Utf8.encode (String.singleton c)

/-- The bytes of a text with its escapes replaced. The first `skipped` characters belong to an
escape already replaced. -/
def Escaping.unescapeFrom (e : Escaping) (skipped : Nat) : List Char → List UInt8
  | [] => []
  | c :: rest =>
    match skipped with
    | skipped + 1 => e.unescapeFrom skipped rest
    | 0 =>
      match if c = '\\' then e.escape? rest else none with
      | some (byte, length) => byte :: e.unescapeFrom length rest
      | none => characterBytes c ++ e.unescapeFrom 0 rest

def beforeStop : List Char → List Char × Bool
  | '\\' :: 'c' :: _ => ([], true)
  | '\\' :: c :: rest => (('\\' :: c :: (beforeStop rest).1), (beforeStop rest).2)
  | c :: rest => (c :: (beforeStop rest).1, (beforeStop rest).2)
  | [] => ([], false)

def Escaping.unescape (e : Escaping) (text : List Char) : List UInt8 := e.unescapeFrom 0 text

/-! ### Arguments as they are -/

def echoOptions? (argument : String) : Option (List Char) :=
  match argument.toList with
  | '-' :: letters =>
    if letters ≠ [] ∧ letters.all (fun c => c == 'n' || c == 'e' || c == 'E') then some letters
    else none
  | _ => none

def printArguments (newline : Bool) (escaping : Option Escaping) (arguments : List String) :
    Outcome :=
  let text := String.intercalate " " arguments
  let rest := if newline then [0x0A] else []
  .printed <|
    match escaping with
    | some e =>
      let (text, stopped) := beforeStop text.toList
      e.unescape text ++ if stopped then [] else rest
    | none => Utf8.encode text ++ rest

/-- Prints arguments after the options in front of them. -/
def echoWith (newline escapes : Bool) (arguments : List String) : Outcome :=
  match arguments with
  | [] => printArguments newline none []
  | argument :: rest =>
    match echoOptions? argument with
    | some letters =>
      echoWith (newline && !letters.contains 'n')
        (letters.foldl (fun on c => c == 'e' || (c != 'E' && on)) escapes)
        rest
    | none => printArguments newline (if escapes then some .ofEcho else none) arguments

def echo (arguments : List String) : Outcome := echoWith true false arguments

/-! ### Formats -/

structure Directive where
  flags : List Char
  width : Nat
  precision : Option Nat
  conversion : Char

def directive? (text : List Char) : Option (Directive × Nat) :=
  let flags := text.takeWhile ("-+ 0#".contains ·)
  let width := (text.drop flags.length).takeWhile Char.isDigit
  let rest := text.drop (flags.length + width.length)
  let precision := match rest with
    | '.' :: rest => some (rest.takeWhile Char.isDigit)
    | _ => none
  let length := flags.length + width.length + (precision.elim 0 (·.length + 1))
  match text.drop length with
  | conversion :: _ =>
    if "%scbdiuoxX".contains conversion then
      some (⟨flags, Numeral.value width, precision.map Numeral.value, conversion⟩, length + 1)
    else none
  | [] => none

namespace Directive

def pad (d : Directive) (bytes : List UInt8) : List UInt8 :=
  let blanks := List.replicate (d.width - bytes.length) 0x20
  if d.flags.contains '-' then bytes ++ blanks else blanks ++ bytes

def padNumber (d : Directive) (negative : Bool) (digits : List Char) : List UInt8 :=
  let sign :=
    if negative then ['-']
    else if d.flags.contains '+' then ['+']
    else if d.flags.contains ' ' then [' ']
    else []
  let isFilled := d.flags.contains '0' && !d.flags.contains '-' && d.precision.isNone
  let least := if isFilled then d.width - sign.length else d.precision.getD 1
  let zeros := List.replicate (least - digits.length) '0'
  d.pad (Utf8.encode (String.ofList (sign ++ zeros ++ digits)))

end Directive

/-- The number at the beginning of an argument, which may be written in base eight or sixteen, or as
a character after a quotation mark. -/
def numberOf (argument : String) : Int :=
  let magnitude (text : List Char) : Int :=
    match text with
    | '0' :: 'x' :: rest => (rest.takeWhile fun c => (digitValue? c).isSome).foldl (digit 16) 0
    | '0' :: rest => (rest.takeWhile fun c => '0' ≤ c && c ≤ '7').foldl (digit 8) 0
    | text => (text.takeWhile Char.isDigit).foldl (digit 10) 0
  match argument.toList with
  | '\'' :: c :: _ | '"' :: c :: _ => c.toNat
  | '-' :: text => -(magnitude text)
  | '+' :: text | text => magnitude text
where
  digit (base n : Int) (d : Char) : Int := base * n + ((digitValue? d).getD 0 : Nat)

/-- An argument put into a format, a missing one counting as empty. -/
def Directive.apply (d : Directive) (escaping : Escaping) (argument : String) : List UInt8 :=
  let cut (bytes : List UInt8) : List UInt8 := match d.precision with
    | some n => bytes.take n
    | none => bytes
  let n := numberOf argument
  let inBase (base : Nat) : List UInt8 :=
    let unsigned := if n < 0 then n + (Numeral.capacity 64 : Nat) else n
    let digits := Nat.toDigits base unsigned.toNat
    d.padNumber false (if d.conversion = 'X' then digits.map Char.toUpper else digits)
  match d.conversion with
  | '%' => [0x25]
  | 's' => d.pad (cut (Utf8.encode argument))
  | 'c' => d.pad ((Utf8.encode argument).take 1)
  | 'b' => d.pad (cut ({ escaping with zeroInFront := true }.unescape argument.toList))
  | 'o' => inBase 8
  | 'u' => inBase 10
  | 'x' | 'X' => inBase 16
  | _ => d.padNumber (n < 0) (Nat.toDigits 10 n.natAbs)

/-- The output of a format for arguments in order, and the arguments that it leaves. The first
`skipped` characters belong to what has been replaced already. -/
def formatOnce (escaping : Escaping) (skipped : Nat) :
    List Char → List String → List UInt8 × List String
  | [], arguments => ([], arguments)
  | c :: rest, arguments =>
    let before (bytes : List UInt8) (after : List UInt8 × List String) :=
      (bytes ++ after.1, after.2)
    match skipped with
    | skipped + 1 => formatOnce escaping skipped rest arguments
    | 0 =>
      match if c = '%' then directive? rest else none with
      | some (d, length) =>
        let left := if d.conversion = '%' then arguments else arguments.tail
        before (d.apply escaping (arguments.headD "")) (formatOnce escaping length rest left)
      | none =>
        match if c = '\\' then escaping.escape? rest else none with
        | some (byte, length) => before [byte] (formatOnce escaping length rest arguments)
        | none => before (characterBytes c) (formatOnce escaping 0 rest arguments)

/-- Applies a format as long as it takes arguments that are there. -/
def formatAll (escaping : Escaping) (format : List Char) : (passes : Nat) → List String → List UInt8
  | 0, _ => []
  | passes + 1, arguments =>
    let (bytes, left) := formatOnce escaping 0 format arguments
    bytes ++
      if left.length < arguments.length ∧ left ≠ [] then formatAll escaping format passes left
      else []

def printf? (escaping : Escaping) : List String → Option Outcome
  | [] | ["--"] => none
  | "--" :: format :: arguments | format :: arguments =>
    let (format, stopped) :=
      if escaping.stops then beforeStop format.toList else (format.toList, false)
    let passes := if stopped then 1 else arguments.length + 1
    some (.printed (formatAll escaping format passes arguments))

end SolverAudit.Host
