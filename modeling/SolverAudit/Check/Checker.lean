import SolverAudit.Check.Formula
import SolverAudit.Check.Framework
import SolverAudit.Problem

/-!
# Checkers

A checker tests solvers on one kind of problem: it says which payloads a solver gets, how the solver
is called, and whether its answer is right.
-/

namespace SolverAudit

inductive Checker where
  | framework (query : Query)
  | satisfiability
  | counting
  | weightedCounting
deriving DecidableEq, Repr

namespace Checker

def all : List Checker :=
  [.framework .enumeration, .framework .single, .framework .credulous, .framework .skeptical,
    .satisfiability, .counting, .weightedCounting]

def name : Checker → String
  | .framework .enumeration => "EE-CO"
  | .framework .single => "SE-CO"
  | .framework .credulous => "DC-CO"
  | .framework .skeptical => "DS-CO"
  | .satisfiability => "SAT"
  | .counting => "MC"
  | .weightedCounting => "WMC"

def description : Checker → String
  | .framework .enumeration => "enumeration of the extensions"
  | .framework .single => "computation of a single extension"
  | .framework .credulous => "credulous acceptance of the last argument"
  | .framework .skeptical =>
    "skeptical acceptance of the last argument (grounded extension membership)"
  | .satisfiability => "satisfiability of CNF formulas"
  | .counting => "model counting of CNF formulas"
  | .weightedCounting => "weighted model counting of CNF formulas"

structure Unknown where
  name : String

instance : Cause Unknown where
  kind _ := .invalidArgument
  wording u :=
    let name := u.name
    let known := String.intercalate ", " (all.map Checker.name)
    s!"unknown checker \"{name}\" (expected one of {known})"

def ofName (name : String) : Except Unknown Checker :=
  match all.find? fun checker => checker.name = name with
  | some checker => .ok checker
  | none => .error ⟨name⟩

abbrev problem : Checker → Problem
  | .framework _ => .frameworks
  | .satisfiability => .formulas
  | .counting => .counting
  | .weightedCounting => .weightedCounting

def required : Checker → List String
  | .framework _ => ["apx"]
  | .satisfiability => ["cnf"]
  | .counting => ["cnf"]
  | .weightedCounting => ["cnf", "weights"]

/-- Whether there is nothing to ask about the instance. -/
def ignores : (checker : Checker) → checker.problem.Instance → Bool
  | .framework query, af => query.isAboutArgument && af.arguments.isEmpty
  | .satisfiability, _ => false
  | .counting, _ => false
  | .weightedCounting, _ => false

def frameworkCall (question : String) (argument : Option String) (files : List String) :
    List String :=
  ["-p", question, "-f"] ++ files.take 1 ++ ["-fo", "apx"] ++
    match argument with
    | some label => ["-a", label]
    | none => []

def formulaCall (files : List String) : List String := files

def call : (checker : Checker) → checker.problem.Instance → (files : List String) → List String
  | .framework query, af, files =>
    frameworkCall (name (.framework query)) (if query.isAboutArgument then af.lastLabel? else none)
      files
  | .satisfiability, _, files => formulaCall files
  | .counting, _, files => formulaCall files
  | .weightedCounting, _, files => formulaCall files

/-- Reads the output of a solver on an instance and judges it. Solvers of frameworks answer in a
dialect. -/
def check : (checker : Checker) → checker.problem.Instance → Dialect → (output : String) →
    Except Failure Verdict
  | .framework query, af, dialect, output => af.check query dialect output
  | .satisfiability, f, _, output => f.check output
  | .counting, p, _, output => p.check output
  | .weightedCounting, p, _, output => p.check output

end Checker

end SolverAudit
