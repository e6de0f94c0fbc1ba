import SolverAudit.Text.Basic

/-!
# Words of a script

A word is made of pieces: text, which may be quoted, and what is replaced when the word is used.
-/

namespace SolverAudit.Shell

inductive ScriptFault where
  | openQuotes
  | openBackquotes
  | openBrace
  | openArithmetic
  | badLoopVariable
  | badFunctionName
  /-- Something is found where it cannot be, and something else may be the only thing that can. -/
  | unexpected (found : String) (expected : Option String)
deriving DecidableEq, Repr

namespace ScriptFault

def reason : ScriptFault → String
  | .openQuotes => "Unterminated quoted string"
  | .openBackquotes => "EOF in backquote substitution"
  | .openBrace => "Missing '\x7d'"
  | .openArithmetic => "Missing '))'"
  | .badLoopVariable => "Bad for loop variable"
  | .badFunctionName => "Bad function name"
  | .unexpected found none => s!"{found} unexpected"
  | .unexpected found (some expected) => s!"{found} unexpected (expecting {expected})"

def wording (fault : ScriptFault) : String :=
  let reason := fault.reason
  s!"Syntax error: {reason}"

end ScriptFault

/-! ### Pieces -/

inductive Use where
  | value
  | length
  /-- A word comes in by an operator, which may count an empty value as none. -/
  | alternative (operator : Char) (countsEmpty : Bool) (word : String)
  /-- What fits a pattern is taken off, from the front or the end, as much or as little of it as
  possible. -/
  | trimmed (front longest : Bool) (pattern : String)
  | unknown
deriving DecidableEq, Repr

inductive Piece where
  | text (quoted : Bool) (letters : List Char)
  | parameter (quoted : Bool) (name : String) (use : Use)
  | output (quoted : Bool) (script : String)
  | number (quoted : Bool) (expression : String)
deriving DecidableEq, Repr

abbrev Word := List Piece

namespace Word

/-- The word with one more piece. Texts quoted alike become one. -/
def add (word : Word) (piece : Piece) : Word :=
  match word.getLast?, piece with
  | some (.text quoted letters), .text quoted' letters' =>
    if quoted = quoted' then word.dropLast ++ [.text quoted (letters ++ letters')]
    else word ++ [piece]
  | _, _ => word ++ [piece]

def plain? : Word → Option String
  | [.text false letters] => some (String.ofList letters)
  | _ => none

end Word

/-! ### Names -/

def isNameStart (c : Char) : Bool := c.isAlpha || c == '_'

def isNameLetter (c : Char) : Bool := c.isAlphanum || c == '_'

def isName (text : List Char) : Bool := text.head?.any isNameStart && text.all isNameLetter

/-- Whether a character is the name of a parameter that the shell itself sets. -/
def isSpecial (c : Char) : Bool := "@*#?$!-".contains c

/-- The name of a parameter at the beginning of a text, with one digit at most or all of them. -/
def leadingName (allDigits : Bool) (text : List Char) : List Char :=
  match text with
  | [] => []
  | c :: _ =>
    if isSpecial c then [c]
    else if c.isDigit then if allDigits then text.takeWhile Char.isDigit else [c]
    else if isNameStart c then text.takeWhile isNameLetter
    else []

/-! ### Reading -/

def backquote : Char := '\x60'

/-- What a text in brackets begins with, up to the end of what is open, and the text after it. What
is open is told by what ends it, the innermost first. A backslash there ends with any character, and
an opening bracket is one that has been announced by a dollar sign. -/
def enclosed (opened : List Char) : List Char → Option (List Char × List Char)
  | [] => none
  | c :: rest =>
    let goOn (opened : List Char) :=
      (enclosed opened rest).map fun (inside, after) => (c :: inside, after)
    match opened with
    | [] => none
    | '\\' :: outer => goOn outer
    | '(' :: outer => goOn (')' :: outer)
    | '{' :: outer => goOn ('}' :: outer)
    | innermost :: outer =>
      if c = innermost then if outer.isEmpty then some ([], rest) else goOn outer
      else if innermost = '\'' then goOn opened
      else if c = '\\' then goOn ('\\' :: opened)
      else if innermost = backquote then goOn opened
      else if c = backquote || (c = '"' || c = '\'') && innermost ≠ '"' then goOn (c :: opened)
      else if c = '(' && innermost = ')' then goOn (')' :: opened)
      else if c = '$' then
        match rest.head? with
        | some '(' => goOn ('(' :: opened)
        | some '{' => goOn ('{' :: opened)
        | _ => goOn opened
      else goOn opened

def useOf : List Char → Use
  | [] => .value
  | '#' :: '#' :: pattern => .trimmed true true (String.ofList pattern)
  | '#' :: pattern => .trimmed true false (String.ofList pattern)
  | '%' :: '%' :: pattern => .trimmed false true (String.ofList pattern)
  | '%' :: pattern => .trimmed false false (String.ofList pattern)
  | ':' :: operator :: word =>
    if "-=?+".contains operator then .alternative operator true (String.ofList word) else .unknown
  | operator :: word =>
    if "-=?+".contains operator then .alternative operator false (String.ofList word) else .unknown

def inBraces (quoted : Bool) (inside : List Char) : Piece :=
  let measured := inside.drop 1
  if inside.head? = some '#' ∧ measured ≠ [] ∧ leadingName true measured = measured then
    .parameter quoted (String.ofList measured) .length
  else
    let name := leadingName true inside
    let use := if name.isEmpty then .unknown else useOf (inside.drop name.length)
    .parameter quoted (String.ofList name) use

/-- The piece that follows a dollar sign, if one does, and the text after it. -/
def afterDollar (quoted : Bool) (text : List Char) :
    Except ScriptFault (Option (Piece × List Char)) :=
  match text with
  | '(' :: rest =>
    match rest with
    | '(' :: expression =>
      match enclosed [')', ')'] expression with
      | none => .error .openArithmetic
      | some (inside, after) =>
        if inside.getLast? = some ')' then
          .ok (some (.number quoted (String.ofList inside.dropLast), after))
        else .ok (some (.output quoted (String.ofList ('(' :: inside)), after))
    | _ =>
      match enclosed [')'] rest with
      | none => .error (.unexpected "end of file" (some "\")\""))
      | some (inside, after) => .ok (some (.output quoted (String.ofList inside), after))
  | '{' :: rest =>
    match enclosed ['}'] rest with
    | none => .error .openBrace
    | some (inside, after) => .ok (some (inBraces quoted inside, after))
  | _ =>
    let name := leadingName false text
    if name.isEmpty then .ok none
    else .ok (some (.parameter quoted (String.ofList name) .value, text.drop name.length))

/-- The script between backquotes, in which a backslash protects some characters. -/
def unescaped (quoted : Bool) : (escaped : Bool) → List Char → List Char
  | escaped, [] => if escaped then ['\\'] else []
  | true, c :: rest =>
    let bare := c = '\\' || c = '$' || c = backquote || quoted && c = '"'
    (if bare then [c] else ['\\', c]) ++ unescaped quoted false rest
  | false, c :: rest =>
    if c = '\\' then unescaped quoted true rest else c :: unescaped quoted false rest

/-- What a character of a word begins, if it does not stand for itself or quotes by double quotes:
the pieces and the text after them. -/
def piecesAt? (quoted : Bool) (c : Char) (rest : List Char) :
    Except ScriptFault (Option (List Piece × List Char)) :=
  if c = '\\' then
    match rest with
    | [] => .ok (some ([.text true ['\\']], []))
    | '\n' :: after => .ok (some ([], after))
    | d :: after =>
      if !quoted || d = '\\' || d = '$' || d = backquote || d = '"' then
        .ok (some ([.text true [d]], after))
      else .ok (some ([.text true ['\\']], rest))
  else if c = '\'' && !quoted then
    match enclosed ['\''] rest with
    | none => .error .openQuotes
    | some (inside, after) => .ok (some ([.text true inside], after))
  else if c = backquote then
    match enclosed [backquote] rest with
    | none => .error .openBackquotes
    | some (inside, after) =>
      .ok (some ([.output quoted (String.ofList (unescaped quoted false inside))], after))
  else if c = '$' then do
    match ← afterDollar quoted rest with
    | none => return none
    | some (piece, after) => return some ([piece], after)
  else .ok none

/-- The word that a text makes after the given one. The first `skipped` characters belong to a piece
already read, and a quotation mark may stand for itself. -/
def Word.extend (marks quoted : Bool) (word : Word) (skipped : Nat) :
    List Char → Except ScriptFault Word
  | [] => .ok word
  | c :: rest =>
    match skipped with
    | skipped + 1 => word.extend marks quoted skipped rest
    | 0 => do
      match ← piecesAt? quoted c rest with
      | some (pieces, after) =>
        (pieces.foldl Word.add word).extend marks quoted (rest.length - after.length) rest
      | none =>
        if c = '"' && !marks then word.extend marks (!quoted) 0 rest
        else (word.add (.text quoted [c])).extend marks quoted 0 rest

def Word.ofText (marks quoted : Bool) (text : String) : Except ScriptFault Word :=
  Word.extend marks quoted [] 0 text.toList

end SolverAudit.Shell
