import SolverAudit.Proofs.Formula.Range
import SolverAudit.Proofs.Problem.Size

/-!
# Ranges of the weighted instances

Every node with a weighted formula has weights from one to nine and the models of its clauses, and
fewer variables than its depth. So the ranges of weights and counts hold on the whole tree, and down
to a depth of thirty-one nothing on the way to a count takes more than 128 bits.
-/

namespace SolverAudit

namespace Problem

/-- The weighted formula that an instance is about, if it is about one. -/
def weightedFormula? : (problem : Problem) → problem.Instance → Option WeightedFormula
  | .weighted, w => some w
  | .weightedCounting, p => some p.weighted
  | _, _ => none

variable {problem : Problem} {x : problem.Instance} {w : WeightedFormula}

theorem formula?_of_weightedFormula? (h : problem.weightedFormula? x = some w) :
    problem.formula? x = some w.formula := by
  cases problem with
  | frameworks | formulas | counting => cases h
  | weighted | weightedCounting =>
      obtain rfl := Option.some.inj h
      rfl

variable {σ : Type}

theorem Sane.weighed {context : Context σ} {depth : Nat} (hsane : problem.Sane context depth x)
    (h : problem.weightedFormula? x = some w) : w.Weighed := by
  cases problem with
  | frameworks | formulas | counting => cases h
  | weighted | weightedCounting =>
      obtain rfl := Option.some.inj h
      exact hsane.1

variable [Source σ]

/-- The models that an instance stores are those of its clauses. -/
def Coherent (problem : Problem) (_ : Nat) (x : problem.Instance) : Prop :=
  ∀ f, problem.formula? x = some f → f.Coherent

theorem coherent_root {source : σ} {x : problem.Instance} {context : Context σ}
    (hroot : problem.generator.root.run (.fresh source) = (.ok x, context)) :
    problem.Coherent 1 x := by
  intro f hf
  cases problem with
  | frameworks => cases hf
  | formulas | counting | weighted | weightedCounting =>
      cases hroot
      obtain rfl := Option.some.inj hf
      exact Formula.coherent_root

theorem Coherent.step {growth : Growth σ problem.Instance}
    (hgrowth : growth ∈ problem.generator.effective) {depth : Nat} {x y : problem.Instance}
    (hx : problem.Coherent depth x) (h : growth.Takes x y) : problem.Coherent (depth + 1) y := by
  intro g hg
  obtain ⟨f, hf, ⟨henlarged, -⟩ | ⟨rfl, -⟩⟩ := takes_cases hgrowth h hg
  · exact (hx f hf).enlarge henlarged
  · exact hx g hf

theorem eighteen_pow_lt {n : Nat} (hn : n ≤ 30) : 18 ^ n < 2 ^ 128 := by
  calc
    18 ^ n ≤ 18 ^ 30 := Nat.pow_le_pow_right (by decide) hn
    _ < 2 ^ 128 := by decide

end Problem

end SolverAudit
