import SolverAudit.Answer.Token
import SolverAudit.Failure
import SolverAudit.Ordered.Set

/-!
# Reading answers

Extensions are bracketed lists of argument names. Extension sets are lists of extensions: flat, with
commas between them, or one extension a line. A fault tells what was expected and before which
token.
-/

namespace SolverAudit.Answer

/-- An extension as the set of its labels. -/
abbrev Extension := OrderedSet String

abbrev Extensions := OrderedSet Extension

inductive Expectation where
  | opening
  | closing
  | comma
  | argumentName
  | lineAfterBracket
  | lineAfterExtension
  | status
  | yesOrNo
  | theEnd
deriving DecidableEq, Repr

def Expectation.wording : Expectation → String
  | .opening => "expected '['"
  | .closing => "expected ']'"
  | .comma => "expected ','"
  | .argumentName => "expected an argument name"
  | .lineAfterBracket => "expected a newline after the opening bracket of an extension set"
  | .lineAfterExtension => "expected a newline after an extension"
  | .status => "expected an acceptance status"
  | .yesOrNo => "expected an acceptance status (YES or NO)"
  | .theEnd => "unexpected content after the answer"

/-- What was expected where the layout continues otherwise. -/
structure Fault where
  expected : Expectation
  found : Layout

/-- A reader takes a value from the front of a layout and leaves the rest. -/
abbrev Reader (α : Type) := Layout → Except Fault (α × Layout)

def expect (token : Token) (expected : Expectation) : Layout → Except Fault Layout
  | .token blanks t rest => if t = token then .ok rest else .error ⟨expected, .token blanks t rest⟩
  | layout => .error ⟨expected, layout⟩

/-! ### Extensions -/

/-- The words of a list after its opening bracket or a comma, up to the closing bracket. -/
def members : Reader (List String)
  | .token _ (.word letters) (.token _ .closing rest) => .ok ([String.ofList letters], rest)
  | .token _ (.word letters) (.token _ .comma rest) =>
    (members rest).map fun (words, rest) => (String.ofList letters :: words, rest)
  | .token _ (.word _) rest => .error ⟨.comma, rest⟩
  | layout => .error ⟨.argumentName, layout⟩

def extension : Reader Extension
  | .token _ .opening (.token _ .closing rest) => .ok (∅, rest)
  | .token _ .opening rest => (members rest).map fun (words, rest) => (.ofList words, rest)
  | layout => .error ⟨.opening, layout⟩

theorem size_lt_of_members {layout rest : Layout} {words : List String}
    (h : members layout = .ok (words, rest)) : rest.size < layout.size := by
  fun_induction members layout generalizing words rest with
  | case1 => cases h; simp only [Layout.size]; omega
  | case2 _ letters _ tail ih =>
    cases hm : members tail with
    | error => rw [hm] at h; cases h
    | ok read =>
      rw [hm] at h
      cases h
      have := ih hm
      simp only [Layout.size]
      omega
  | case3 => cases h
  | case4 => cases h

theorem size_lt_of_extension {layout rest : Layout} {e : Extension}
    (h : extension layout = .ok (e, rest)) : rest.size < layout.size := by
  unfold extension at h
  split at h
  · cases h; simp only [Layout.size]; omega
  · next tail _ =>
    cases hm : members tail with
    | error => rw [hm] at h; cases h
    | ok read =>
      rw [hm] at h
      cases h
      have := size_lt_of_members hm
      simp only [Layout.size]
      omega
  · cases h

/-! ### Sets of extensions -/

/-- The extensions of a flat set after its opening bracket or a comma, up to its closing bracket. -/
def flatMembers (layout : Layout) : Except Fault (List Extension × Layout) :=
  match h : extension layout with
  | .error fault => .error fault
  | .ok (e, .token _ .closing rest) => .ok ([e], rest)
  | .ok (e, .token blanks .comma rest) =>
    have : rest.size < layout.size := by
      have := size_lt_of_extension h
      simp only [Layout.size] at this
      omega
    (flatMembers rest).map fun (others, rest) => (e :: others, rest)
  | .ok (_, rest) => .error ⟨.comma, rest⟩
termination_by layout.size

def flatSet : Reader Extensions
  | .token _ .opening (.token _ .closing rest) => .ok (∅, rest)
  | .token _ .opening rest => (flatMembers rest).map fun (es, rest) => (.ofList es, rest)
  | layout => .error ⟨.opening, layout⟩

/-- The extensions of a set with one extension a line, from a line start on. -/
def lineMembers (layout : Layout) : Except Fault (List Extension × Layout) :=
  match layout with
  | .token _ .closing rest => .ok ([], rest)
  | layout =>
    match h : extension layout with
    | .error fault => .error fault
    | .ok (e, rest) =>
      if rest.onNewLine then
        have := size_lt_of_extension h
        (lineMembers rest).map fun (others, rest) => (e :: others, rest)
      else
        .error ⟨.lineAfterExtension, rest⟩
termination_by layout.size

/-- A set with one extension a line. The empty set may stand on one line. -/
def lineSet : Reader Extensions
  | .token _ .opening rest =>
    if rest.onNewLine then
      (lineMembers rest).map fun (es, rest) => (.ofList es, rest)
    else
      match rest with
      | .token _ .closing rest => .ok (∅, rest)
      | rest => .error ⟨.lineAfterBracket, rest⟩
  | layout => .error ⟨.opening, layout⟩

/-! ### Triples and statuses -/

def triple (set : Reader Extensions) : Reader (Extensions × Extensions × Extensions) :=
  fun layout => do
    let rest ← expect .opening .opening layout
    let (first, rest) ← set rest
    let rest ← expect .comma .comma rest
    let (second, rest) ← set rest
    let rest ← expect .comma .comma rest
    let (third, rest) ← set rest
    let rest ← expect .closing .closing rest
    return ((first, second, third), rest)

def status? (letters : List Char) : Option Bool :=
  if letters = ['Y', 'E', 'S'] then some true
  else if letters = ['N', 'O'] then some false
  else none

def statuses : Reader (List Bool)
  | .token blanks (.word letters) rest =>
    match status? letters with
    | none => .error ⟨.yesOrNo, .token blanks (.word letters) rest⟩
    | some s =>
      match rest with
      | .token _ .comma rest => (statuses rest).map fun (others, rest) => (s :: others, rest)
      | rest => .ok ([s], rest)
  | layout => .error ⟨.status, layout⟩

/-! ### Whole texts -/

/-- A fault seen in a whole text: what was expected, and what stands before and at the fault. -/
structure Misreading where
  expected : Expectation
  before : List Char
  found : Option Char
deriving DecidableEq, Repr

namespace Misreading

/-- Lines are counted from one. -/
def line (m : Misreading) : Nat :=
  1 + m.before.count '\n'

def column (m : Misreading) : Nat :=
  1 + (m.before.reverse.takeWhile (· != '\n')).length

def foundWording (m : Misreading) : String :=
  match m.found with
  | some c => "'" ++ String.singleton c ++ "'"
  | none => "the end of the output"

end Misreading

instance : Cause Misreading where
  kind _ := .malformed
  wording m :=
    let expected := m.expected.wording
    let line := m.line
    let column := m.column
    let found := m.foundWording
    s!"{expected} at line {line}, column {column} (found {found})"

def Fault.within (text : List Char) (fault : Fault) : Misreading :=
  let body := fault.found.body
  ⟨fault.expected, text.take (text.length - body.length), body.head?⟩

def whole {α : Type} (reader : Reader α) (layout : Layout) : Except Fault α := do
  let (value, rest) ← reader layout
  match rest with
  | .stop _ => return value
  | rest => throw ⟨.theEnd, rest⟩

def readText {α : Type} (reader : Reader α) (text : List Char) : Except Misreading α :=
  (whole reader (Layout.ofText text)).mapError (Fault.within text)

end SolverAudit.Answer
