import SolverAudit.Argument.Registry
import SolverAudit.Ordered.Map

/-!
# Indexed registries

A registry is kept as two tables: its arguments in a list, and the number of each label. A label is
looked up by its number, so a number that the list does not have would give no argument at all. Each
request changes one table after the other.
-/

namespace SolverAudit.Registry

/-- What a registry is asked to do. -/
inductive Request where
  | intern (label : String)
  | get (label : String)
  | reset
deriving DecidableEq, Repr

inductive Reply where
  | argument (a : Argument)
  | unknown (u : Unknown)
  | forgotten

/-- The reply to a request and the registry after it. -/
def answer (r : Registry) : Request → Reply × Registry
  | .intern label => (.argument (r.intern label).1, (r.intern label).2)
  | .get label =>
    match r.get label with
    | .ok a => (.argument a, r)
    | .error u => (.unknown u, r)
  | .reset => (.forgotten, ∅)

def afterRequests (history : List Request) : Registry :=
  history.foldl (fun r request => (r.answer request).2) ∅

structure Indexed where
  arguments : List Argument
  numbers : OrderedMap String Nat
deriving DecidableEq

namespace Indexed

def empty : Indexed := ⟨[], ∅⟩

instance : EmptyCollection Indexed := ⟨empty⟩

/-! ### Requests

There is no result if a number is looked up that the list does not have. -/

def intern? (t : Indexed) (label : String) : Option (Argument × Indexed) :=
  match t.numbers.get? label with
  | some number => t.arguments[number]?.map fun a => (a, t)
  | none =>
    let a : Argument := ⟨t.arguments.length, label⟩
    let t := { t with numbers := t.numbers.insert a.label a.id }
    some (a, { t with arguments := t.arguments ++ [a] })

def get? (t : Indexed) (label : String) : Option (Except Unknown Argument) :=
  match t.numbers.get? label with
  | some number => t.arguments[number]?.map .ok
  | none => some (.error ⟨label⟩)

def reset (t : Indexed) : Indexed :=
  let t := { t with arguments := [] }
  { t with numbers := ∅ }

def answer? (t : Indexed) : Request → Option (Reply × Indexed)
  | .intern label => do
    let (a, t) ← t.intern? label
    return (.argument a, t)
  | .get label => do
    match ← t.get? label with
    | .ok a => return (.argument a, t)
    | .error u => return (.unknown u, t)
  | .reset => some (.forgotten, t.reset)

def afterRequests? (history : List Request) : Option Indexed :=
  history.foldlM (fun t request => (t.answer? request).map Prod.snd) ∅

end Indexed

/-- The two tables of the registry. -/
def indexed (r : Registry) : Indexed where
  arguments := r.arguments
  numbers := .ofList r.labels.zipIdx

end SolverAudit.Registry
