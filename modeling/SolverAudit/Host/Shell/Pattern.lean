/-!
# Patterns

A pattern describes texts: a star fits anything, a question mark any character, and brackets one of
the characters in them. Quoted characters fit themselves only.
-/

namespace SolverAudit.Shell

inductive Pattern.Part where
  | anything
  | anyone
  | letter (c : Char)
  | oneOf (others : Bool) (ranges : List (Char × Char))
deriving DecidableEq, Repr

abbrev Pattern := List Pattern.Part

namespace Pattern

def ranges : List Char → List (Char × Char)
  | first :: '-' :: last :: rest => (first, last) :: ranges rest
  | c :: rest => (c, c) :: ranges rest
  | [] => []

/-- The part that brackets are whose inside begins the text, and how many characters they take after
the opening one. The first character inside may be a closing bracket. -/
def inBrackets? (text : List Char) : Option (Part × Nat) :=
  let others := text.head? = some '!'
  let inside := if others then text.drop 1 else text
  let letters := inside.take 1 ++ (inside.drop 1).takeWhile (· != ']')
  if letters.length < inside.length then
    some (.oneOf others (ranges letters), letters.length + if others then 2 else 1)
  else none

/-- The pattern that characters make up, each with whether it is quoted. The first `skipped` ones
belong to a part already read. -/
def ofLetters (skipped : Nat) : List (Char × Bool) → Pattern
  | [] => []
  | (c, quoted) :: rest =>
    match skipped with
    | skipped + 1 => ofLetters skipped rest
    | 0 =>
      if quoted then .letter c :: ofLetters 0 rest
      else if c = '*' then .anything :: ofLetters 0 rest
      else if c = '?' then .anyone :: ofLetters 0 rest
      else
        match if c = '[' then inBrackets? (rest.map Prod.fst) else none with
        | some (part, length) => part :: ofLetters length rest
        | none => .letter c :: ofLetters 0 rest

def fits : Pattern → List Char → Bool
  | [], text => text.isEmpty
  | .anything :: parts, text => (List.range (text.length + 1)).any fun n => fits parts (text.drop n)
  | .anyone :: parts, text => !text.isEmpty && fits parts text.tail
  | .letter c :: parts, text => text.head? == some c && fits parts text.tail
  | .oneOf others ranges :: parts, text =>
    text.head?.any (fun c => ranges.any (fun (a, b) => a ≤ c && c ≤ b) != others) &&
      fits parts text.tail

/-- The text without what fits the pattern at its front, as much or as little of it as possible. -/
def trimFront (p : Pattern) (longest : Bool) (text : List Char) : List Char :=
  let lengths := List.range (text.length + 1)
  let lengths := if longest then lengths.reverse else lengths
  match lengths.find? fun n => p.fits (text.take n) with
  | some n => text.drop n
  | none => text

def trimEnd (p : Pattern) (longest : Bool) (text : List Char) : List Char :=
  let lengths := List.range (text.length + 1)
  let lengths := if longest then lengths else lengths.reverse
  match lengths.find? fun n => p.fits (text.drop n) with
  | some n => text.take n
  | none => text

end Pattern

end SolverAudit.Shell
