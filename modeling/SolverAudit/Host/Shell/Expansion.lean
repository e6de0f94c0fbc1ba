import SolverAudit.Host.Shell.Arithmetic
import SolverAudit.Host.Shell.Pattern
import SolverAudit.Host.Shell.Running

/-!
# Expansion of words

What a word is replaced by when it is used. The values in it that are not quoted are split into
fields at separators.
-/

namespace SolverAudit.Shell

inductive Fragment where
  | quoted (letters : List Char)
  | plain (letters : List Char)
  /-- A value that is split at separators. -/
  | split (letters : List Char)
  /-- The end of a field. -/
  | boundary
deriving DecidableEq, Repr

namespace Fragment

def letters : Fragment → List Char
  | .quoted letters | .plain letters | .split letters => letters
  | .boundary => [' ']

def marked (fragment : Fragment) : List (Char × Bool) :=
  let quoted := match fragment with
    | .quoted _ => true
    | _ => false
  fragment.letters.map fun c => (c, quoted)

end Fragment

/-! ### Fields -/

structure Fields where
  complete : List String := []
  current : Option (List Char) := none
  /-- Whether blanks have ended the last field. -/
  spaced : Bool := false

namespace Fields

def add (f : Fields) (letters : List Char) : Fields :=
  { f with current := some (f.current.getD [] ++ letters), spaced := false }

def close (f : Fields) : Fields :=
  match f.current with
  | none => f
  | some letters => { complete := f.complete ++ [String.ofList letters] }

/-- Reads a character of a value. A separator that is not blank ends a field, be it empty, unless
blanks have done so. -/
def read (separators : List Char) (f : Fields) (c : Char) : Fields :=
  if !separators.contains c then f.add [c]
  else if isBlank c then { f.close with spaced := f.spaced || f.current.isSome }
  else if f.spaced then { f with spaced := false }
  else (f.add []).close

def step (separators : List Char) (f : Fields) : Fragment → Fields
  | .quoted letters => f.add letters
  | .plain letters => if letters.isEmpty then f else f.add letters
  | .split letters => letters.foldl (read separators) f
  | .boundary => f.close

end Fields

def fields (separators : List Char) (fragments : List Fragment) : List String :=
  (fragments.foldl (Fields.step separators) {}).close.complete

def whole (fragments : List Fragment) : String := String.ofList (fragments.flatMap Fragment.letters)

/-! ### Expansion -/

def deepestWord : Nat := 100

def withoutNewlines (letters : List Char) : List Char :=
  (letters.reverse.dropWhile (· == '\n')).reverse

def separated (value : List Char → Fragment) (values : List String) : List Fragment :=
  (values.map fun v => value v.toList).intersperse .boundary

def lacking (name reason : String) : Action (List Fragment) := do
  modify (·.broken s!"{name}: {reason}")
  return []

def valueOf (quoted : Bool) (name : String) : Action (List Fragment) := do
  let r ← get
  let kind := if quoted then Fragment.quoted else Fragment.split
  if name = "*" ∧ quoted then
    let between := String.ofList (r.separators.take 1)
    return [.quoted (String.intercalate between r.arguments).toList]
  else if name = "@" ∨ name = "*" then return separated kind r.arguments
  else
    match r.parameter? name with
    | some value => return [kind value.toList]
    | none =>
      if r.options.contains 'u' then lacking name "parameter not set"
      else return [kind []]

/-- Whether a parameter has a value, an empty one perhaps counting as none. -/
def isSet (r : Running) (name : String) (countsEmpty : Bool) : Bool :=
  if name = "@" ∨ name = "*" then
    !r.arguments.isEmpty && (!countsEmpty || r.arguments != [""])
  else (r.parameter? name).any fun value => !countsEmpty || value != ""

/-- Scripts inside words are run by the first argument. -/
def expand (run : String → Action Unit) : (depth : Nat) → Word → Action (List Fragment)
  | 0, _ => return []
  | depth + 1, word => do
    let nested (quoted : Bool) (text : String) : Action (List Fragment) := do
      match Word.ofText false quoted text with
      | .ok word => expand run depth word
      | .error fault =>
        modify (·.broken fault.wording)
        return []
    let fragments ← word.mapM fun piece => do
      if (← get).jump.isSome then return []
      match piece with
      | .text quoted letters => return [if quoted then .quoted letters else .plain letters]
      | .output quoted script => do
        let text := withoutNewlines (Utf8.decodeLossy (← captured run (run script))).toList
        return [if quoted then .quoted text else .split text]
      | .number quoted expression => do
        let expression := whole (← nested true expression)
        let r ← get
        match calculate r.values expression with
        | .ok (value, values) =>
          set { r with values }
          let letters := (toString value).toList
          return [if quoted then .quoted letters else .split letters]
        | .error fault =>
          set (r.broken (fault.wording expression))
          return []
      | .parameter quoted name use => do
        let r ← get
        let asValue (fragments : List Fragment) : List Fragment :=
          if quoted then fragments
          else fragments.map fun | .plain letters => .split letters | other => other
        match use with
        | .value => valueOf quoted name
        | .length =>
          let text := whole (← valueOf true name)
          return [.plain (toString text.length).toList]
        | .alternative '+' countsEmpty word =>
          if isSet r name countsEmpty then return asValue (← nested quoted word)
          else return [if quoted then .quoted [] else .plain []]
        | .alternative operator countsEmpty word =>
          if isSet r name countsEmpty then valueOf quoted name
          else if operator = '-' then return asValue (← nested quoted word)
          else
            let text := whole (← nested quoted word)
            if operator = '=' then
              modify (·.assign name text)
              valueOf quoted name
            else if text ≠ "" then lacking name text
            else if countsEmpty then lacking name "parameter not set or null"
            else lacking name "parameter not set"
        | .trimmed front longest pattern =>
          let text := whole (← valueOf true name)
          let pattern := Pattern.ofLetters 0 ((← nested false pattern).flatMap Fragment.marked)
          let letters :=
            if front then pattern.trimFront longest text.toList
            else pattern.trimEnd longest text.toList
          return [if quoted then .quoted letters else .split letters]
        | .unknown =>
          modify (·.broken "Bad substitution")
          return []
    return fragments.flatten

def expandFields (run : String → Action Unit) (words : List Word) : Action (List String) := do
  let found ← words.mapM fun word => do
    let fragments ← expand run deepestWord word
    return fields (← get).separators fragments
  return found.flatten

def expandWhole (run : String → Action Unit) (word : Word) : Action String := do
  return whole (← expand run deepestWord word)

def expandPattern (run : String → Action Unit) (word : Word) : Action Pattern := do
  return Pattern.ofLetters 0 ((← expand run deepestWord word).flatMap Fragment.marked)

end SolverAudit.Shell
