import SolverAudit.Formula.Counting
import SolverAudit.Proofs.Formula.Models
import SolverAudit.Proofs.Ordered.Set
import SolverAudit.Proofs.Tree.Projection

/-!
# Counted models

A counting problem grows as its formula does, so its count is the number of total assignments that
satisfy every clause, of which there are no more than choices of true variables.
-/

namespace SolverAudit

namespace Formula

/-- The number of total assignments that satisfy every clause. -/
noncomputable def modelCount (f : Formula) : Nat := {m | f.IsModel m}.ncard

variable {f : Formula}

theorem Coherent.size_models (hf : f.Coherent) : f.models.size = f.modelCount := by
  have hmodels : {m | m ∈ f.models} = {m | f.IsModel m} := Set.ext hf.sound
  rw [OrderedSet.size_eq_ncard, hmodels, modelCount]

theorem Coherent.modelCount_le (hf : f.Coherent) : f.modelCount ≤ 2 ^ f.varCount := by
  have hlisted : f.models.toList ⊆ assignments f.varCount := fun m hm =>
    mem_assignments.mpr ((hf.sound m).mp hm).1
  calc
    f.modelCount = f.models.toList.length := hf.size_models.symm
    _ ≤ (assignments f.varCount).length := (f.models.nodup_toList.subperm hlisted).length_le
    _ = 2 ^ f.varCount := length_assignments f.varCount

end Formula

namespace CountingProblem

/-- One of the growths of counting problems, with some random choices, takes one to the other. -/
def Grows (p q : CountingProblem) : Prop :=
  ∃ (σ : Type) (_ : Source σ), (generator : Generator σ CountingProblem).Grows p q

def root : CountingProblem := ⟨.root⟩

variable {p q : CountingProblem}

theorem Grows.formula (h : Grows p q) : Formula.Grows p.formula q.formula := by
  obtain ⟨σ, _, hgrows⟩ := h
  exact ⟨σ, inferInstance, Generator.Grows.of_adapt embeds_adaptation hgrows⟩

theorem coherent_of_grown (h : Relation.ReflTransGen Grows root p) : p.formula.Coherent :=
  Formula.coherent_root.grown (h.lift formula fun _ _ hgrows => hgrows.formula)

theorem count_eq_modelCount (h : Relation.ReflTransGen Grows root p) :
    p.count = p.formula.modelCount :=
  (coherent_of_grown h).size_models

end CountingProblem

end SolverAudit
