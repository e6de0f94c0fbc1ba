import SolverAudit.Host.Shell.Word
import SolverAudit.Ordered.Map
import SolverAudit.Text.Basic

/-!
# Arithmetic of scripts

Expressions over machine words of 64 bits, with the variables of a script, which may be assigned.
-/

namespace SolverAudit.Shell

inductive CalculationFault where
  | divisionByZero
  | noOperand
  | noEnd
  | noClosing
  | noColon
  | notNumber (value : String)
deriving DecidableEq, Repr

def CalculationFault.wording (fault : CalculationFault) (expression : String) : String :=
  let about (reason : String) := s!"arithmetic expression: {reason}: \"{expression}\""
  match fault with
  | .divisionByZero => about "division by zero"
  | .noOperand => about "expecting primary"
  | .noEnd => about "expecting EOF"
  | .noClosing => about "expecting ')'"
  | .noColon => about "expecting ':'"
  | .notNumber value => s!"Illegal number: {value}"

/-! ### Reading -/

inductive Lexeme where
  | number (value : Int64)
  | name (name : String)
  | operator (sign : String)
deriving DecidableEq, Repr

def isHexadecimal (c : Char) : Bool := "0123456789abcdef".contains c.toLower

def valueIn (base : Nat) (digits : List Char) : Int64 :=
  Int64.ofNat (digits.foldl
    (fun n d => base * n + ("0123456789abcdef".toList.idxOf? d.toLower).getD 0) 0)

/-- The number at the beginning of a text and how many characters it has. Its base is sixteen or
eight if it begins so. -/
def leadingNumber (text : List Char) : Int64 × Nat :=
  match text with
  | '0' :: 'x' :: rest =>
    let digits := rest.takeWhile isHexadecimal
    (valueIn 16 digits, 2 + digits.length)
  | '0' :: _ =>
    let digits := text.takeWhile fun c => '0' ≤ c && c ≤ '7'
    (valueIn 8 digits, digits.length)
  | _ =>
    let digits := text.takeWhile Char.isDigit
    (valueIn 10 digits, digits.length)

def longOperators : List String :=
  ["<<=", ">>=", "&&", "||", "==", "!=", "<=", ">=", "<<", ">>", "+=", "-=", "*=", "/=", "%=", "&=",
    "|=", "^="]

/-- The lexemes of a text, whose first `skipped` characters belong to one already read. -/
def lexemes (skipped : Nat) : List Char → List Lexeme
  | [] => []
  | c :: rest =>
    match skipped with
    | skipped + 1 => lexemes skipped rest
    | 0 =>
      if c = ' ' || c = '\t' || c = '\n' then lexemes 0 rest
      else if c.isDigit then
        let (value, length) := leadingNumber (c :: rest)
        .number value :: lexemes (length - 1) rest
      else if isNameStart c then
        let letters := rest.takeWhile isNameLetter
        .name (String.ofList (c :: letters)) :: lexemes letters.length rest
      else
        match longOperators.find? fun sign => sign.toList.isPrefixOf (c :: rest) with
        | some sign => .operator sign :: lexemes (sign.length - 1) rest
        | none => .operator (String.singleton c) :: lexemes 0 rest

/-! ### Evaluation -/

structure Calculation where
  rest : List Lexeme
  values : OrderedMap String String

abbrev Calculator := StateT Calculation (Except CalculationFault)

namespace Calculator

def take? (signs : List String) : Calculator (Option String) := do
  match (← get).rest with
  | .operator sign :: rest =>
    if signs.contains sign then
      modify ({ · with rest })
      return some sign
    else return none
  | _ => return none

/-- The binary operators, the loosest first. -/
def levels : List (List String) :=
  [["||"], ["&&"], ["|"], ["^"], ["&"], ["==", "!="], ["<=", ">=", "<", ">"], ["<<", ">>"],
    ["+", "-"], ["*", "/", "%"]]

def truth (b : Bool) : Int64 := if b then 1 else 0

def apply (sign : String) (a b : Int64) : Except CalculationFault Int64 :=
  match sign with
  | "||" => .ok (truth (a != 0 || b != 0))
  | "&&" => .ok (truth (a != 0 && b != 0))
  | "|" => .ok (a ||| b)
  | "^" => .ok (a ^^^ b)
  | "&" => .ok (a &&& b)
  | "==" => .ok (truth (a == b))
  | "!=" => .ok (truth (a != b))
  | "<=" => .ok (truth (a ≤ b))
  | ">=" => .ok (truth (b ≤ a))
  | "<" => .ok (truth (a < b))
  | ">" => .ok (truth (b < a))
  | "<<" => .ok (a <<< b)
  | ">>" => .ok (a >>> b)
  | "+" => .ok (a + b)
  | "-" => .ok (a - b)
  | "*" => .ok (a * b)
  | "/" => if b = 0 then .error .divisionByZero else .ok (a / b)
  | "%" => if b = 0 then .error .divisionByZero else .ok (a % b)
  | _ => .ok b

def number (value : String) : Except CalculationFault Int64 :=
  let (sign, digits) : Int64 × List Char := match value.toList with
    | '-' :: digits => (-1, digits)
    | '+' :: digits => (1, digits)
    | digits => (1, digits)
  if digits.isEmpty then .ok 0
  else
    let (n, length) := leadingNumber digits
    if length = digits.length then .ok (sign * n) else .error (.notNumber value)

/-- A number, a variable, an assignment, or an expression in parentheses. -/
def operand (whole : Calculator Int64) : Calculator Int64 := do
  match (← get).rest with
  | .number value :: rest =>
    modify ({ · with rest })
    return value
  | .name name :: rest =>
    let before := (← get).values.get? name
    modify ({ · with rest })
    let signs := longOperators.filter fun s => s.endsWith "=" && !levels.flatten.contains s
    match ← take? ("=" :: signs) with
    | none => number (before.getD "")
    | some sign =>
      let value ← whole
      let value ←
        if sign = "=" then pure value
        else apply (String.ofList (sign.toList.dropLast)) (← number (before.getD "")) value
      modify fun c => { c with values := c.values.insert name (toString value) }
      return value
  | _ =>
    match ← take? ["("] with
    | none => throw .noOperand
    | some _ =>
      let value ← whole
      if (← take? [")"]).isNone then throw .noClosing
      return value

def signed (whole : Calculator Int64) : (most : Nat) → Calculator Int64
  | 0 => throw .noOperand
  | most + 1 => do
    match ← take? ["+", "-", "!", "~"] with
    | none => operand whole
    | some sign =>
      let value ← signed whole most
      return match sign with
        | "-" => -value
        | "!" => truth (value == 0)
        | "~" => ~~~value
        | _ => value

def chain (signs : List String) (operand : Calculator Int64) (a : Int64) :
    (most : Nat) → Calculator Int64
  | 0 => return a
  | most + 1 => do
    match ← take? signs with
    | none => return a
    | some sign => chain signs operand (← apply sign a (← operand)) most

def combined (tightest : Calculator Int64) : (levels : List (List String)) → Calculator Int64
  | [] => tightest
  | signs :: levels => do
    let operand := combined tightest levels
    chain signs operand (← operand) (← get).rest.length

/-- An expression that is nested no deeper than the given number. -/
def expression : (depth : Nat) → Calculator Int64
  | 0 => throw .noOperand
  | depth + 1 => do
    let condition ← combined (do signed (expression depth) ((← get).rest.length + 1)) levels
    if (← take? ["?"]).isNone then return condition
    let yes ← expression depth
    if (← take? [":"]).isNone then throw .noColon
    let no ← expression depth
    return if condition = 0 then no else yes

/-- A whole expression, nothing being zero. -/
def complete : Calculator Int64 := do
  let lexemes := (← get).rest
  if lexemes.isEmpty then return 0
  let value ← expression (lexemes.length + 1)
  unless (← get).rest.isEmpty do throw .noEnd
  return value

end Calculator

def calculate (values : OrderedMap String String) (text : String) :
    Except CalculationFault (Int64 × OrderedMap String String) := do
  let (value, calculation) ← Calculator.complete.run ⟨lexemes 0 text.toList, values⟩
  return (value, calculation.values)

end SolverAudit.Shell
