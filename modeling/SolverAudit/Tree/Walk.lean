import SolverAudit.Tree.Generator

/-!
# Walks

The tree of a generator is visited depth first: an instance, then for each effective growth that
applies to it, in order, the whole subtree below the grown instance. The walk stops at the first
failure, of a visit or of a growth, and leaves the context as it is at that moment.
-/

namespace SolverAudit

variable {σ ι κ : Type}

/-- Visits an instance and the subtrees below it, down to the given number of levels. -/
def expand (growths : List (Growth σ ι)) (visit : ι → Attempt κ Unit) :
    (levels : Nat) → ι → Attempt (Context σ × κ) Unit
  | 0, node => (visit node).onSecond
  | levels + 1, node => do
    (visit node).onSecond
    growths.forM fun growth => do
      if growth.applies node then
        let child ← (Attempt.during s!"while applying translator {growth.name}"
          (growth.grow node)).onFirst
        expand growths visit levels child

inductive DepthZero where
  | depthZero

instance : Cause DepthZero where
  kind _ := .invalidArgument
  wording _ := "the maximal depth must be at least 1"

namespace Generator

/-- Visits the tree of a generator down to a depth, its root being at depth one. -/
def walk (g : Generator σ ι) (visit : ι → Attempt κ Unit) :
    (depth : Nat) → Attempt (Context σ × κ) Unit
  | 0 => throw (.of DepthZero.depthZero)
  | levels + 1 => do
    let root ← (Attempt.during "while building the root instance" g.root).onFirst
    expand g.effective visit levels root

def remember (node : ι) : Attempt (List ι) Unit :=
  .change fun nodes => ((), nodes ++ [node])

/-- The instances of the tree in the order of the walk, if nothing fails. -/
def instances (g : Generator σ ι) (depth : Nat) (context : Context σ) :
    Except Failure (List ι) × Context σ :=
  let (result, context, nodes) := (g.walk remember depth).run (context, [])
  (result.map fun _ => nodes, context)

end Generator

end SolverAudit
