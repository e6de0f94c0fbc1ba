import SolverAudit.Proofs.Formula.Progress
import SolverAudit.Proofs.Ordered.Map
import SolverAudit.Proofs.Result
import SolverAudit.Proofs.Tree.Exhaustion
import SolverAudit.Proofs.Tree.Script

/-!
# Weights of a growing formula

A weighted formula grows with its formula, keeping its weights, or by the weight of a literal that
has none of its own. Its formula has two literals for each variable, so the number of literals
without a weight tells how often the latter is possible.
-/

namespace SolverAudit

theorem length_literals (varCount : Nat) : (literals varCount).length = 2 * varCount := by
  simp [literals, List.length_flatMap, Nat.mul_comm]

theorem nodup_literals (varCount : Nat) : (literals varCount).Nodup := by
  rw [literals, List.nodup_flatMap]
  refine ⟨fun i _ => by simp, List.nodup_range.imp fun {i j} hne => ?_⟩
  simp [Function.onFun, hne.symm]

namespace WeightedFormula

/-- One of the growths of weighted formulas, with some random choices, takes one to the other. -/
def Grows (w w' : WeightedFormula) : Prop :=
  ∃ (σ : Type) (_ : Source σ), (generator : Generator σ WeightedFormula).Grows w w'

def root : WeightedFormula := ⟨.root, ∅⟩

inductive Enlarged (w : WeightedFormula) : WeightedFormula → Prop where
  | formula {f : Formula} (hf : w.formula.Enlarged f) : Enlarged w ⟨f, w.weights⟩
  | weight {l : Literal} {weight : Nat} (hl : l ∈ w.unweighted)
      (hweight : 1 ≤ weight ∧ weight ≤ 9) : Enlarged w (w.setWeight l weight)

/-- The literal had no weight of its own and gets this one; all else stays as it is. -/
structure AddsWeight (w w' : WeightedFormula) (l : Literal) (weight : Nat) : Prop where
  formula_eq : w'.formula = w.formula
  new : w.weights.get? l = none
  get?_eq : ∀ other,
    w'.weights.get? other = if other = l then some weight else w.weights.get? other
  size_eq : w'.weights.size = w.weights.size + 1

variable {w w' : WeightedFormula}

theorem eq_of_rebuild_eq_ok {f : Formula} (h : adaptation.rebuild w f = .ok w') :
    w' = ⟨f, w.weights⟩ :=
  (weigh_eq_ok.mp (mapError_eq_ok.mp h)).1

theorem get?_of_mem_unweighted {l : Literal} (hl : l ∈ w.unweighted) :
    w.weights.get? l = none := by
  simpa [isExplicit, OrderedMap.contains] using (mem_unweighted.mp hl).2

theorem addsWeight_setWeight {l : Literal} (hl : l ∈ w.unweighted) (weight : Nat) :
    AddsWeight w (w.setWeight l weight) l weight where
  formula_eq := rfl
  new := get?_of_mem_unweighted hl
  get?_eq _ := OrderedMap.get?_insert ..
  size_eq := OrderedMap.size_insert (get?_of_mem_unweighted hl) weight

theorem Enlarged.formula_or_weight (h : Enlarged w w') :
    w.formula.Enlarged w'.formula ∧ w'.weights.size = w.weights.size
      ∨ w'.formula = w.formula ∧ w'.weights.size = w.weights.size + 1 := by
  cases h with
  | formula hf => exact .inl ⟨hf, rfl⟩
  | @weight l weight hl hweight =>
      have hadds := addsWeight_setWeight hl weight
      exact .inr ⟨hadds.formula_eq, hadds.size_eq⟩

/-! ### What growing can do -/

section

variable {σ : Type}

theorem enlarged_of_adapt [Source σ] {growth : Growth σ Formula}
    (hgrowth : growth ∈ Formula.generator.growths) (h : (growth.adapt adaptation).Takes w w') :
    Enlarged w w' := by
  obtain ⟨before, after, hrun⟩ := h
  obtain ⟨f, between, hgrow, hrebuild⟩ := Attempt.run_bind_eq_ok.mp hrun
  rw [Attempt.run_lift] at hrebuild
  obtain rfl := eq_of_rebuild_eq_ok (Prod.mk.inj hrebuild).1
  have hgrows : w.formula.Grows f := ⟨σ, inferInstance, growth, hgrowth, before, between, hgrow⟩
  exact .formula hgrows.enlarged

theorem exists_of_newWeight [Source σ] (h : (newWeight : Growth σ WeightedFormula).Takes w w') :
    ∃ l weight, l ∈ w.unweighted ∧ (1 ≤ weight ∧ weight ≤ 9) ∧ w' = w.setWeight l weight := by
  obtain ⟨before, after, hrun⟩ := h
  simp only [newWeight] at hrun
  split at hrun
  · exact absurd hrun Attempt.run_throw_eq_ok
  · rename_i first others hcandidates
    obtain ⟨l, between, hchoice, hrest⟩ := Attempt.run_bind_eq_ok.mp hrun
    obtain ⟨weight, _, -, hrest⟩ := Attempt.run_bind_eq_ok.mp hrest
    obtain ⟨rfl, -⟩ := Attempt.run_pure_eq_ok.mp hrest
    have hpicked := Source.mem_pick first others before.source
    rw [(Context.run_choose_eq_ok.mp hchoice).1, ← hcandidates] at hpicked
    exact ⟨l, _, hpicked, ⟨Nat.le_add_left _ _, Nat.succ_le_of_lt weight.isLt⟩, rfl⟩

end

theorem Grows.enlarged (h : Grows w w') : Enlarged w w' := by
  obtain ⟨σ, _, growth, hgrowth, htakes⟩ := h
  rcases List.mem_append.mp hgrowth with hgrowth | hgrowth
  · obtain ⟨base, hbase, rfl⟩ := List.mem_map.mp hgrowth
    exact enlarged_of_adapt hbase htakes
  · rw [List.mem_singleton.mp hgrowth] at htakes
    obtain ⟨l, weight, hl, hweight, rfl⟩ := exists_of_newWeight htakes
    exact .weight hl hweight

theorem Weighed.enlarge (h : w.Weighed) (henlarged : Enlarged w w') : w'.Weighed := by
  cases henlarged with
  | formula hf => exact h.mono hf.varCount_bounds.1
  | weight hl hweight => exact h.setWeight (mem_unweighted.mp hl).1 hweight

theorem weighed_of_grown (h : Relation.ReflTransGen Grows root w) : w.Weighed := by
  induction h with
  | refl =>
      have hroot : Sane (Context.fresh ()) 1 root := sane_root
      exact hroot.1
  | tail _ hgrows ih => exact ih.enlarge hgrows.enlarged

/-! ### Counting the literals with a weight -/

theorem Weighed.size_weights (h : w.Weighed) :
    w.weights.size = (w.formula.literals.filter w.isExplicit).length := by
  have hmembers : ∀ l, l ∈ w.weights.keys ↔ l ∈ w.formula.literals.filter w.isExplicit := by
    intro l
    rw [List.mem_filter, isExplicit, OrderedMap.contains_iff_mem_keys, Formula.literals,
      mem_literals]
    refine ⟨fun hl => ⟨?_, hl⟩, And.right⟩
    obtain ⟨binding, hbinding, rfl⟩ := List.mem_map.mp hl
    exact (h binding hbinding).1
  have hperm := (List.perm_ext_iff_of_nodup w.weights.nodup_keys
    ((nodup_literals _).filter w.isExplicit)).mpr hmembers
  exact (List.length_map _).symm.trans hperm.length_eq

/-- A formula has two literals for each variable, each with or without a weight of its own. -/
theorem Weighed.length_unweighted (h : w.Weighed) :
    w.unweighted.length + w.weights.size = 2 * w.formula.varCount := by
  rw [h.size_weights, unweighted, ← length_literals, Nat.add_comm]
  exact (List.length_eq_length_filter_add w.isExplicit).symm

section

variable {σ : Type} [Source σ]

theorem countsDown_newWeight :
    (newWeight : Growth σ WeightedFormula).CountsDown Weighed fun w => w.unweighted.length where
  applies_iff w _ := by
    rw [List.length_pos_iff]
    exact unweighted_ne_nil_iff.symm
  succeeds w before hw happlies := by
    obtain ⟨l, weight, after, -, -, hrun⟩ := exists_run_newWeight happlies before
    exact ⟨_, after, hrun⟩
  takes w w' hw htakes := by
    obtain ⟨l, weight, hl, hweight, rfl⟩ := exists_of_newWeight htakes
    have hw' := hw.setWeight (mem_unweighted.mp hl).1 hweight
    have hbefore := hw.length_unweighted
    have hafter := hw'.length_unweighted
    have hadds := addsWeight_setWeight hl weight
    rw [hadds.formula_eq, hadds.size_eq] at hafter
    exact ⟨hw', by omega⟩

theorem run_newWeight_of_unweighted (h : w.unweighted = []) (context : Context σ) :
    (newWeight.grow w).run context = (.error (.of Saturated.everyLiteralWeighted), context) := by
  simp only [newWeight, h]
  rfl

end

end WeightedFormula

end SolverAudit
