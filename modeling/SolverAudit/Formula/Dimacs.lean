import SolverAudit.Formula.Basic
import SolverAudit.Text.Basic
import SolverAudit.Tree.Generator

/-!
# The DIMACS format

A formula is written as a header with its numbers of variables and clauses, then one clause a line.
Clauses and models list their literals and end with a zero.
-/

namespace SolverAudit

namespace Dimacs

/-- Literals, each followed by a space, and the zero that ends them. -/
def zeroTerminated (ls : List Literal) : List Char :=
  ls.flatMap (fun l => l.text ++ [' ']) ++ ['0']

def header (varCount clauseCount : Nat) : List Char :=
  ['p', ' ', 'c', 'n', 'f', ' '] ++ Numeral.digits varCount ++ [' '] ++ Numeral.digits clauseCount

def formula (varCount : Nat) (clauses : List Clause) : String :=
  String.ofList (unlines (header varCount clauses.length :: clauses.map zeroTerminated))

def models (ms : List Assignment) : String :=
  String.ofList (unlines (ms.map fun m => zeroTerminated m.toList))

def weightLine : Literal × Nat → List Char
  | (l, weight) => l.text ++ [' '] ++ Numeral.digits weight

def weights (table : List (Literal × Nat)) : String :=
  String.ofList (unlines (table.map weightLine))

def count (n : Nat) : String :=
  String.ofList (unlines [Numeral.digits n])

end Dimacs

instance : Payloads Formula where
  kinds := ["cnf", "models"]
  text? f
    | "cnf" => some (Dimacs.formula f.varCount f.clauses)
    | "models" => some (Dimacs.models f.models.toList)
    | _ => none

end SolverAudit
