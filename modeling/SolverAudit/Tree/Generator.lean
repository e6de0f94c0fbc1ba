import SolverAudit.Argument.Registry
import SolverAudit.Failure
import SolverAudit.Random
import SolverAudit.Text.Quoted

/-!
# Generators

A growth turns an instance into a larger one by random choices, when it applies. A generator has a
root instance and growths. What the branches of a tree share is their context: the source of random
choices and the registry of arguments.

An instance is given to the outside as texts of several kinds, its payloads.

Richer instances that embed base instances grow as these do: the base instance grows and the richer
one is rebuilt over the result. Growths of the richer instances alone may come on top.
-/

namespace SolverAudit

structure Context (σ : Type) where
  source : σ
  registry : Registry

namespace Context

variable {σ : Type}

def fresh (source : σ) : Context σ := ⟨source, ∅⟩

def reset (context : Context σ) : Context σ := { context with registry := ∅ }

def choose {α : Type} (choice : σ → α × σ) : Attempt (Context σ) α :=
  .change fun context =>
    let (value, source) := choice context.source
    (value, { context with source })

def intern (label : String) : Attempt (Context σ) Argument :=
  .change fun context =>
    let (argument, registry) := context.registry.intern label
    (argument, { context with registry })

end Context

structure Growth (σ ι : Type) where
  name : String
  applies : ι → Bool
  grow : ι → Attempt (Context σ) ι

structure Generator (σ ι : Type) where
  root : Attempt (Context σ) ι
  growths : List (Growth σ ι)
  /-- The growths that are tried on each instance, in order and with repetitions. -/
  effective : List (Growth σ ι) := growths

/-! ### Payloads -/

class Payloads (ι : Type) where
  kinds : List String
  text? : ι → String → Option String

structure UnknownPayload where
  kind : String
  known : List String

instance : Cause UnknownPayload where
  kind _ := .invalidArgument
  wording u :=
    let kind := u.kind
    let known := bracketed (u.known.map quoted)
    s!"unknown payload kind \"{kind}\" (expected one of {known})"

def payload {ι : Type} [Payloads ι] (x : ι) (kind : String) : Except Failure String :=
  match Payloads.text? x kind with
  | some text => .ok text
  | none => .error (.of (⟨kind, Payloads.kinds ι⟩ : UnknownPayload))

/-! ### Adapted generators -/

variable {σ β ι : Type}

structure Adaptation (β ι : Type) where
  base : ι → β
  ofBase : β → Except Failure ι
  rebuild : ι → β → Except Failure ι := fun _ => ofBase

def Growth.adapt (a : Adaptation β ι) (growth : Growth σ β) : Growth σ ι where
  name := growth.name
  applies x := growth.applies (a.base x)
  grow x := do
    let base ← growth.grow (a.base x)
    Attempt.lift (a.rebuild x base)

def Generator.adapt (a : Adaptation β ι) (g : Generator σ β) (additional : List (Growth σ ι)) :
    Generator σ ι where
  root := do
    let base ← g.root
    Attempt.lift (a.ofBase base)
  growths := g.growths.map (Growth.adapt a) ++ additional

end SolverAudit
