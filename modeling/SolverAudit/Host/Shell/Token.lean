import SolverAudit.Host.Shell.Word

/-!
# Tokens of a script

A script is read character by character into tokens: words, operators and redirections, each with
its line. The last token is the end of the script, or what makes it no script.
-/

namespace SolverAudit.Shell

inductive Sign where
  | word (word : Word)
  | operator (sign : String)
  /-- A redirection, whose target is the next word. -/
  | redirection (descriptor : Nat) (sign : String)
  /-- Text in the script that is given to a command as input, with or without replacements. -/
  | document (descriptor : Nat) (replaces : Bool) (text : String)
  | finish
  | fault (fault : ScriptFault)
deriving DecidableEq, Repr

structure Token where
  line : Nat
  sign : Sign
deriving DecidableEq, Repr

/-! ### Documents in a script -/

def newlines (text : List Char) : Nat := text.count '\n'

/-- The lines before the one that ends a document, and the lines after it. -/
def beforeDelimiter (delimiter : List Char) (trims : Bool) :
    List (List Char) → List (List Char) × List (List Char)
  | [] => ([], [])
  | line :: rest =>
    let line := if trims then line.dropWhile (· == '\t') else line
    if line = delimiter then ([], rest)
    else
      let (document, rest) := beforeDelimiter delimiter trims rest
      (line :: document, rest)

def pieceLetters : Piece → List Char
  | .text _ letters => letters
  | _ => []

def isQuotedText : Piece → Bool
  | .text quoted _ => quoted
  | _ => false

/-- The tokens with the documents that some of them wait for, and the lines after the documents. -/
def withDocuments : List Token → List (List Char) → List Token × List (List Char)
  | ⟨line, .redirection descriptor sign⟩ :: ⟨line', .word delimiter⟩ :: tokens, rows =>
    if sign = "<<" ∨ sign = "<<-" then
      let (document, rows) :=
        beforeDelimiter (delimiter.flatMap pieceLetters) (sign == "<<-") rows
      let text := String.ofList (unlines document)
      let (tokens, rows) := withDocuments tokens rows
      (⟨line, .document descriptor (!delimiter.any isQuotedText) text⟩ :: tokens, rows)
    else
      let (tokens, rows) := withDocuments tokens rows
      (⟨line, .redirection descriptor sign⟩ :: ⟨line', .word delimiter⟩ :: tokens, rows)
  | token :: tokens, rows =>
    let (tokens, rows) := withDocuments tokens rows
    (token :: tokens, rows)
  | [], rows => ([], rows)

def awaitsDocument (tokens : List Token) : Bool :=
  tokens.any fun token =>
    match token.sign with
    | .redirection _ sign => sign == "<<" || sign == "<<-"
    | _ => false

/-! ### Reading -/

structure Reading where
  tokens : List Token := []
  word : Option Word := none
  quoted : Bool := false
  line : Nat := 1

/-- The operators, each of them before its beginnings. -/
def operators : List String := ["&&", "||", ";;", "&", "|", ";", "(", ")"]

/-- The signs of redirections, each of them before its beginnings. -/
def redirections : List String := ["<<-", "<<", "<&", "<>", "<", ">>", ">&", ">|", ">"]

namespace Reading

def push (r : Reading) (sign : Sign) : Reading := { r with tokens := r.tokens ++ [⟨r.line, sign⟩] }

def endWord (r : Reading) : Reading :=
  match r.word with
  | none => r
  | some word => { r.push (.word word) with word := none }

def add (r : Reading) (piece : Piece) : Reading :=
  { r with word := some ((r.word.getD []).add piece) }

/-- Reads a redirection, before which a digit tells the descriptor. -/
def redirect (r : Reading) (sign : String) : Reading :=
  let usual := if sign.startsWith "<" then 0 else 1
  match r.word with
  | some [.text false [digit]] =>
    if digit.isDigit then { r with word := none }.push (.redirection (digit.toNat - '0'.toNat) sign)
    else r.endWord.push (.redirection usual sign)
  | _ => r.endWord.push (.redirection usual sign)

/-- Ends a line and reads the documents that follow it. The second component tells how many of the
next characters they take. -/
def endLine (r : Reading) (rest : List Char) : Reading × Nat :=
  let r := r.endWord.push (.operator "\n")
  let r := { r with line := r.line + 1 }
  if awaitsDocument r.tokens then
    let (tokens, after) := withDocuments r.tokens (lines rest)
    let left := match after with
      | [] => 0
      | row :: rows => row.length + (unlines rows).length
    let taken := rest.take (rest.length - left)
    ({ r with tokens, line := r.line + newlines taken }, taken.length)
  else (r, 0)

/-- Reads one character further, and tells how many of the next ones are part of what it begins. -/
def step (r : Reading) (c : Char) (rest : List Char) : Except ScriptFault (Reading × Nat) := do
  match ← piecesAt? r.quoted c rest with
  | some (pieces, after) =>
    let taken := rest.take (rest.length - after.length)
    let r := pieces.foldl add r
    return ({ r with line := r.line + newlines taken }, taken.length)
  | none =>
    let inText (signs : List String) := signs.find? fun sign => sign.toList.isPrefixOf (c :: rest)
    if c = '"' then
      if !r.quoted && rest.head? = some '"' then return (r.add (.text true []), 1)
      else return ({ r with word := some (r.word.getD []), quoted := !r.quoted }, 0)
    else if r.quoted then
      let r := r.add (.text true [c])
      return (if c = '\n' then { r with line := r.line + 1 } else r, 0)
    else if c = '\n' then return r.endLine rest
    else if c = ' ' || c = '\t' then return (r.endWord, 0)
    else if c = '#' && r.word.isNone then return (r, (rest.takeWhile (· != '\n')).length)
    else
      match inText operators, inText redirections with
      | some sign, _ => return (r.endWord.push (.operator sign), sign.length - 1)
      | none, some sign => return (r.redirect sign, sign.length - 1)
      | none, none => return (r.add (.text false [c]), 0)

/-- Reads to the end of a text, of which the first `skipped` characters have been read. -/
def finish (r : Reading) (skipped : Nat) : List Char → List Token
  | [] =>
    if r.quoted then (r.push (.fault .openQuotes)).tokens
    else (withDocuments r.endWord.tokens []).1 ++ [⟨r.line, .finish⟩]
  | c :: rest =>
    match skipped with
    | skipped + 1 => r.finish skipped rest
    | 0 =>
      match r.step c rest with
      | .ok (r, skipped) => r.finish skipped rest
      | .error fault =>
        let atEnd := { r with line := r.line + newlines rest }
        (atEnd.push (.fault fault)).tokens

end Reading

def tokens (script : String) : List Token := ({} : Reading).finish 0 script.toList

end SolverAudit.Shell
