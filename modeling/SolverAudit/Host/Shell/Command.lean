import SolverAudit.Host.Shell.Token

/-!
# Commands

The commands that the tokens of a script make up. A script is read one line at a time, because
what stands before a fault is still run.
-/

namespace SolverAudit.Shell

inductive Redirection where
  /-- A file is opened, as the sign tells. -/
  | file (descriptor : Nat) (sign : String) (target : Word)
  /-- A descriptor becomes the same as another one, or is closed. -/
  | copy (descriptor : Nat) (target : Word)
  | document (descriptor : Nat) (replaces : Bool) (text : String)
deriving DecidableEq, Repr

inductive Command where
  | simple (line : Nat) (assignments : List (String × Word)) (words : List Word)
    (redirections : List Redirection)
  | sequence (commands : List Command)
  | background (command : Command)
  | conjunction (first second : Command)
  | disjunction (first second : Command)
  | negation (command : Command)
  | pipeline (commands : List Command)
  | subshell (command : Command)
  | conditional (test yes no : Command)
  /-- The body is run as long as the success of the test is the given one. -/
  | loop (success : Bool) (test body : Command)
  /-- The body is run for each of the words, or for each argument of the script. -/
  | iteration (name : String) (words : Option (List Word)) (body : Command)
  | choice (word : Word) (cases : List (List Word × Command))
  | function (name : String) (body : Command)
  | redirected (line : Nat) (command : Command) (redirections : List Redirection)

/-! ### Parsing -/

/-- Reads tokens, the last of which stays. A fault comes with its line. -/
abbrev Parser := StateT (List Token) (Except (Nat × ScriptFault))

def reservedWords : List String :=
  ["!", "\x7b", "\x7d", "case", "do", "done", "elif", "else", "esac", "fi", "for", "if", "in",
    "then", "until", "while"]

def closings : List String :=
  [")", ";;", "\x7d", "do", "done", "elif", "else", "esac", "fi", "then"]

namespace Sign

def text? : Sign → Option String
  | .operator sign => some sign
  | .word w => w.plain?
  | _ => none

def describe (sign : Sign) : String :=
  let quoted (text : String) := s!"\"{text}\""
  match sign with
  | .operator sign => quoted sign
  | .redirection .. | .document .. => "redirection"
  | .word w =>
    match w.plain? with
    | some text => if reservedWords.contains text then quoted text else "word"
    | none => "word"
  | .finish | .fault _ => "end of file"

def assignment? : Sign → Option (String × Word)
  | .word (.text false letters :: pieces) =>
    let name := letters.takeWhile isNameLetter
    match letters.drop name.length with
    | '=' :: value =>
      if isName name then
        some (String.ofList name, if value.isEmpty then pieces else .text false value :: pieces)
      else none
    | _ => none
  | _ => none

end Sign

namespace Parser

def next : Parser Token := do return (← get).headD ⟨1, .finish⟩

def advance : Parser Unit :=
  modify fun tokens => if tokens.length ≤ 1 then tokens else tokens.tail

/-- Refuses the next token, in place of which another one may be expected. -/
def refuse {α : Type} (expected : Option String) : Parser α := do
  let token ← next
  match token.sign with
  | .fault fault => throw (token.line, fault)
  | .operator "\n" => throw (token.line + 1, .unexpected "newline" expected)
  | sign => throw (token.line, .unexpected sign.describe expected)

def meets (text : String) : Parser Bool := do return (← next).sign.text? == some text

def meetsAny (texts : List String) : Parser Bool := do
  return (← next).sign.text?.any texts.contains

def take (text : String) : Parser Bool := do
  if ← meets text then
    advance
    return true
  else return false

def demand (text : String) : Parser Unit := do
  unless ← take text do refuse (some s!"\"{text}\"")

def upTo {α : Type} (item : Parser (Option α)) : (most : Nat) → Parser (List α)
  | 0 => return []
  | most + 1 => do
    match ← item with
    | none => return []
    | some a => return a :: (← upTo item most)

def many {α : Type} (item : Parser (Option α)) : Parser (List α) := do
  upTo item (← get).length

def skipNewlines : Parser Unit := do
  let _ ← many do return if ← take "\n" then some () else none

def word? : Parser (Option Word) := do
  match (← next).sign with
  | .word word => advance; return some word
  | _ => return none

def redirection? : Parser (Option Redirection) := do
  match (← next).sign with
  | .document descriptor replaces text =>
    advance
    return some (.document descriptor replaces text)
  | .redirection descriptor sign =>
    advance
    match ← word? with
    | none => refuse none
    | some target =>
      if sign = ">&" ∨ sign = "<&" then return some (.copy descriptor target)
      else return some (.file descriptor sign target)
  | _ => return none

def assignment? : Parser (Option (String × Word)) := do
  match (← next).sign.assignment? with
  | some assignment => advance; return some assignment
  | none => return none

inductive Part where
  | assignment (assignment : String × Word)
  | word (word : Word)
  | redirection (redirection : Redirection)

/-- Reads the rest of a simple command, where assignments may come before the first word. -/
def parts (assigns : Bool) : (most : Nat) → Parser (List Part)
  | 0 => return []
  | most + 1 => do
    match ← redirection? with
    | some redirection => return .redirection redirection :: (← parts assigns most)
    | none =>
      match ← if assigns then assignment? else pure none with
      | some assignment => return .assignment assignment :: (← parts true most)
      | none =>
        match ← word? with
        | some word => return .word word :: (← parts false most)
        | none => return []

/-- A function is defined by its name, empty parentheses and its body. -/
def simple (nested : Parser Command) : Parser Command := do
  let line := (← next).line
  let found ← parts true (← get).length
  match found with
  | [] => refuse none
  | [.word name] =>
    if ← take "(" then
      demand ")"
      match name.plain? with
      | some name =>
        unless isName name.toList do throw ((← next).line, .badFunctionName)
        skipNewlines
        return .function name (← nested)
      | none => throw ((← next).line, .badFunctionName)
    else return .simple line [] [name] []
  | _ =>
    let assignments := found.filterMap fun | .assignment a => some a | _ => none
    let words := found.filterMap fun | .word w => some w | _ => none
    let redirections := found.filterMap fun | .redirection r => some r | _ => none
    return .simple line assignments words redirections

def branches (list : Parser Command) : (most : Nat) → Parser Command
  | 0 => refuse none
  | most + 1 => do
    let test ← list
    demand "then"
    let yes ← list
    if ← take "elif" then return .conditional test yes (← branches list most)
    else if ← take "else" then
      let no ← list
      demand "fi"
      return .conditional test yes no
    else
      demand "fi"
      return .conditional test yes (.sequence [])

def loop (list : Parser Command) (success : Bool) : Parser Command := do
  let test ← list
  demand "do"
  let body ← list
  demand "done"
  return .loop success test body

def iteration (list : Parser Command) : Parser Command := do
  let some name := (← next).sign.text?.filter (isName ·.toList)
    | throw ((← next).line, .badLoopVariable)
  advance
  skipNewlines
  let words ←
    if ← take "in" then
      let words ← many word?
      unless ← meetsAny ["\n", ";"] do refuse none
      advance
      pure (some words)
    else
      let _ ← take ";"
      pure none
  skipNewlines
  demand "do"
  let body ← list
  demand "done"
  return .iteration name words body

/-- Reads a pattern. What else may be there is only refused at what comes next. -/
def pattern : Parser Word := do
  match (← next).sign with
  | .word word => advance; return word
  | .fault _ => refuse none
  | _ => advance; return []

def patterns : (most : Nat) → Parser (List Word)
  | 0 => refuse none
  | most + 1 => do
    let pattern ← pattern
    if ← take "|" then return pattern :: (← patterns most) else return [pattern]

def cases (list : Parser Command) : (most : Nat) → Parser (List (List Word × Command))
  | 0 => refuse none
  | most + 1 => do
    skipNewlines
    if ← take "esac" then return []
    let _ ← take "("
    let patterns ← patterns (most + 1)
    demand ")"
    skipNewlines
    let body ← if ← meetsAny closings then pure (.sequence []) else list
    if ← take "esac" then return [(patterns, body)]
    demand ";;"
    return (patterns, body) :: (← cases list most)

def choice (list : Parser Command) : Parser Command := do
  let some word ← word? | refuse (some "word")
  skipNewlines
  demand "in"
  return .choice word (← cases list (← get).length)

/-- Reads a command, a function body being one as well. The argument reads sequences. -/
def command (list : Parser Command) : (depth : Nat) → Parser Command
  | 0 => refuse none
  | depth + 1 => do
    let line := (← next).line
    let compound (c : Parser Command) : Parser Command := do
      let c ← c
      match ← many redirection? with
      | [] => return c
      | redirections => return .redirected line c redirections
    if ← take "if" then compound (do branches list (← get).length)
    else if ← take "while" then compound (loop list true)
    else if ← take "until" then compound (loop list false)
    else if ← take "for" then compound (iteration list)
    else if ← take "case" then compound (choice list)
    else if ← take "\x7b" then
      compound do
        let c ← list
        demand "\x7d"
        return c
    else if ← take "(" then
      compound do
        let c ← list
        demand ")"
        return .subshell c
    else if (← next).sign.text?.any reservedWords.contains then refuse none
    else simple (command list depth)

def pipeline (list : Parser Command) : Parser Command := do
  let command := do command list (← get).length
  let negated ← take "!"
  let first ← command
  let others ← many do
    if ← take "|" then
      skipNewlines
      return some (← command)
    else return none
  let c := if others.isEmpty then first else .pipeline (first :: others)
  return if negated then .negation c else c

def connected (list : Parser Command) (c : Command) : (most : Nat) → Parser Command
  | 0 => return c
  | most + 1 => do
    if ← take "&&" then
      skipNewlines
      connected list (.conjunction c (← pipeline list)) most
    else if ← take "||" then
      skipNewlines
      connected list (.disjunction c (← pipeline list)) most
    else return c

/-- Reads connected commands with the operator that ends them. The second component tells whether
more of them may follow. -/
def ended (list : Parser Command) : Parser (Command × Bool) := do
  let c ← connected list (← pipeline list) (← get).length
  if ← take "&" then return (.background c, true)
  else if ← take ";" then return (c, true)
  else return (c, false)

def rest (list : Parser Command) : (most : Nat) → Parser (List Command)
  | 0 => refuse none
  | most + 1 => do
    let (c, more) ← ended list
    if more || (← meets "\n") then
      skipNewlines
      if (← meetsAny closings) || (← next).sign = .finish then return [c]
      else return c :: (← rest list most)
    else return [c]

/-- Reads a sequence of commands inside a command, with no more than the given depth inside it. -/
def sequence : (depth : Nat) → Parser Command
  | 0 => refuse none
  | depth + 1 => do
    skipNewlines
    if (← next).sign = .finish then return .sequence []
    return .sequence (← rest (sequence depth) (← get).length)

def row (list : Parser Command) : (most : Nat) → Parser (List Command)
  | 0 => return []
  | most + 1 => do
    if (← take "\n") || (← next).sign = .finish then return []
    let (c, more) ← ended list
    if more then return c :: (← row list most)
    else if (← take "\n") || (← next).sign = .finish then return [c]
    else refuse none

def line : Parser Command := do
  let tokens ← get
  return .sequence (← row (sequence tokens.length) tokens.length)

end Parser

end SolverAudit.Shell
