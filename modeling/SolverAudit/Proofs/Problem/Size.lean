import Mathlib
import SolverAudit.Proofs.Formula.Counting
import SolverAudit.Proofs.Formula.Size
import SolverAudit.Proofs.Problem.Generation

/-!
# Depths and sizes of formulas

The depth of a node tells the size of its formula: the variables, the literals in the clauses and
the weights given to literals are as many as the growths that lead to the node.
-/

namespace SolverAudit

namespace Problem

/-- The number of literals that an instance gives a weight of their own. -/
def weightCount : (problem : Problem) → problem.Instance → Nat
  | .weighted, w => w.weights.size
  | .weightedCounting, p => p.weighted.weights.size
  | _, _ => 0

/-- The formula of an instance is clean, and its size and the number of weights make up the number
of growths that lead to its depth. -/
def Sized (problem : Problem) (depth : Nat) (x : problem.Instance) : Prop :=
  ∀ f, problem.formula? x = some f →
    f.Clean ∧ f.varCount + f.literalCount + problem.weightCount x + 1 = depth

variable {problem : Problem} {σ : Type} [Source σ]

/-- A growth enlarges the formula and keeps the weights, or adds a weight and keeps the formula. -/
theorem takes_cases {growth : Growth σ problem.Instance}
    (hgrowth : growth ∈ problem.generator.effective) {x y : problem.Instance}
    (h : growth.Takes x y) {g : Formula} (hg : problem.formula? y = some g) :
    ∃ f, problem.formula? x = some f
      ∧ (f.Enlarged g ∧ problem.weightCount y = problem.weightCount x
        ∨ g = f ∧ problem.weightCount y = problem.weightCount x + 1) := by
  cases problem with
  | frameworks => cases hg
  | formulas =>
      obtain rfl := Option.some.inj hg
      have hgrows : Formula.Grows x y :=
        ⟨σ, inferInstance, growth, Generator.mem_growths_of_mem_repeated hgrowth, h⟩
      exact ⟨x, rfl, .inl ⟨hgrows.enlarged, rfl⟩⟩
  | counting =>
      obtain rfl := Option.some.inj hg
      have hgrows : CountingProblem.Grows x y :=
        ⟨σ, inferInstance, growth, Generator.mem_growths_of_mem_repeated hgrowth, h⟩
      exact ⟨x.formula, rfl, .inl ⟨hgrows.formula.enlarged, rfl⟩⟩
  | weighted =>
      obtain rfl := Option.some.inj hg
      have hgrows : WeightedFormula.Grows x y :=
        ⟨σ, inferInstance, growth, Generator.mem_growths_of_mem_repeated hgrowth, h⟩
      exact ⟨x.formula, rfl, hgrows.enlarged.formula_or_weight⟩
  | weightedCounting =>
      obtain rfl := Option.some.inj hg
      have hgrows : WeightedFormula.Grows x.weighted y.weighted :=
        ⟨σ, inferInstance, Generator.Grows.of_adapt WeightedCountingProblem.embeds_adaptation
          ⟨growth, Generator.mem_growths_of_mem_repeated hgrowth, h⟩⟩
      exact ⟨x.weighted.formula, rfl, hgrows.enlarged.formula_or_weight⟩

theorem sized_root {source : σ} {x : problem.Instance} {context : Context σ}
    (hroot : problem.generator.root.run (.fresh source) = (.ok x, context)) :
    problem.Sized 1 x := by
  intro f hf
  cases problem with
  | frameworks => cases hf
  | formulas | counting | weighted | weightedCounting =>
      cases hroot
      obtain rfl := Option.some.inj hf
      exact ⟨Formula.clean_root, rfl⟩

theorem Sized.step {growth : Growth σ problem.Instance}
    (hgrowth : growth ∈ problem.generator.effective) {depth : Nat} {x y : problem.Instance}
    (hx : problem.Sized depth x) (h : growth.Takes x y) : problem.Sized (depth + 1) y := by
  intro g hg
  obtain ⟨f, hf, hcases⟩ := takes_cases hgrowth h hg
  obtain ⟨hclean, hsize⟩ := hx f hf
  rcases hcases with ⟨henlarged, hweights⟩ | ⟨rfl, hweights⟩
  · have hlarger := henlarged.size_eq
    exact ⟨hclean.enlarge henlarged, by omega⟩
  · exact ⟨hclean, by omega⟩

end Problem

end SolverAudit
