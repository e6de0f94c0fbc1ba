import SolverAudit.Proofs.Argument.Growth
import SolverAudit.Proofs.Formula.Progress
import SolverAudit.Proofs.Tree.Script
import SolverAudit.Proofs.Tree.Size

/-!
# Generation does not fail

From a fresh context, none of the generators ever fails, whatever the source chooses: the arguments
of frameworks stay in step with the shared registry, and the weights of a formula stay within its
variables. A formula has fewer variables than its depth, so the masks of its assignments only
overflow below a depth of one hundred and twenty-eight.
-/

namespace SolverAudit.Problem

variable {σ : Type}

/-- The formula that an instance is about, if it is about one. -/
def formula? : (problem : Problem) → problem.Instance → Option Formula
  | .frameworks, _ => none
  | .formulas, f => some f
  | .counting, p => some p.formula
  | .weighted, w => some w.formula
  | .weightedCounting, p => some p.weighted.formula

/-- What holds of the instances of a tree at their depth, in each context that its walk leaves. -/
def Sane : (problem : Problem) → Context σ → Nat → problem.Instance → Prop
  | .frameworks, context, _, af => Framework.Numbered context.registry af
  | .formulas, _, depth, f => f.varCount < depth
  | .counting, _, depth, p => p.formula.varCount < depth
  | .weighted, context, depth, w => WeightedFormula.Sane context depth w
  | .weightedCounting, context, depth, p => WeightedFormula.Sane context depth p.weighted

theorem Sane.varCount_lt {problem : Problem} {context : Context σ} {depth : Nat}
    {x : problem.Instance} (h : problem.Sane context depth x) {f : Formula}
    (hf : problem.formula? x = some f) : f.varCount < depth := by
  cases problem with
  | frameworks => cases hf
  | formulas | counting =>
      obtain rfl := Option.some.inj hf
      exact h
  | weighted | weightedCounting =>
      obtain rfl := Option.some.inj hf
      exact h.2

variable [Source σ]

theorem maintains_sane (problem : Problem) (source : σ) :
    (problem.generator : Generator σ _).Maintains (.fresh source) 128 problem.Sane := by
  cases problem with
  | frameworks => exact Framework.maintains_numbered true source 128
  | formulas =>
      exact Generator.maintains_repeated rfl Nat.zero_lt_one
        (fun _ => Formula.keeps_varCount_lt) _
  | counting =>
      exact Generator.maintains_repeated (x := ⟨.root⟩) rfl Nat.zero_lt_one
        (Generator.keeps_of_mem_adapt CountingProblem.embeds_adaptation
          fun _ => Formula.keeps_varCount_lt) _
  | weighted =>
      exact Generator.maintains_repeated (x := ⟨.root, ∅⟩) rfl WeightedFormula.sane_root
        (fun _ => WeightedFormula.keeps_of_mem_growths) _
  | weightedCounting =>
      exact Generator.maintains_repeated (x := ⟨⟨.root, ∅⟩⟩) rfl WeightedFormula.sane_root
        (Generator.keeps_of_mem_adapt WeightedCountingProblem.embeds_adaptation
          fun _ => WeightedFormula.keeps_of_mem_growths) _

/-! ### How many nodes there are -/

/-- No problem tries more than five growths on an instance. -/
theorem length_effective_le (problem : Problem) :
    (problem.generator : Generator σ _).effective.length ≤ 5 := by
  cases problem <;> exact Nat.le_of_ble_eq_true rfl

/-- From a fresh context, the tree of every problem has its nodes settled by the generator alone,
and not more of them than a fixed base to the power of the levels. The walk over it gets through if
the visits to its nodes do. -/
theorem exists_nodes (problem : Problem) (source : σ) {levels : Nat} (hlevels : levels ≤ 128) :
    ∃ nodes finish,
      problem.generator.instances (levels + 1) (.fresh source) = (.ok nodes, finish)
      ∧ nodes.length ≤ 6 ^ levels
      ∧ ∀ {κ : Type} (visit : problem.Instance → Attempt κ Unit) (k k' : κ),
        (nodes.forM visit).run k = (.ok (), k') →
        (problem.generator.walk visit (levels + 1)).run (Context.fresh source, k) =
          (.ok (), finish, k') := by
  have hending := (problem.maintains_sane source).unfailing.ending_course hlevels
  have hinstances := Generator.instances_eq problem.generator levels (.fresh source)
  rw [hending] at hinstances
  refine ⟨_, _, hinstances, ?_, fun visit k k' hvisits => ?_⟩
  · rw [List.length_map]
    exact Nat.le_trans (Generator.length_course_le _ _ _)
      (Nat.pow_le_pow_left (Nat.succ_le_succ problem.length_effective_le) levels)
  · rw [Generator.run_walk]
    exact Course.replay_eq_ok.mpr ⟨hending, rfl, hvisits⟩

/-! ### Main statement -/

/-- **Generation from a fresh context does not fail**, down to the depth at which formulas still
have fewer variables than a mask has bits. Whenever a growth applies to a node that a walk has come
to, it succeeds, so no choice is made among nothing; in particular no framework meets the argument
of its next place again, and no weights are rejected for a larger formula. -/
theorem generation_unfailing (source : σ) :
    (∀ (problem : Problem) (depth : Nat), 1 ≤ depth → depth ≤ 128 →
      let g : Generator σ problem.Instance := problem.generator
      g.Unfailing (.fresh source) depth
        ∧ ∃ visits finish, g.DepthFirst (.fresh source) depth finish visits
          ∧ g.instances depth (.fresh source) = (.ok (visits.map Visit.node), finish)
          ∧ (∀ v ∈ visits, ∀ f, problem.formula? v.node = some f → f.varCount < 128)
          ∧ ∀ {κ : Type} (visit : problem.Instance → Attempt κ Unit),
            (∀ x before, ∃ after, (visit x).run before = (.ok (), after)) →
            ∀ k, ∃ k', (g.walk visit depth).run (.fresh source, k) = (.ok (), finish, k'))
      ∧ (∀ visits before,
        (frameworks.generator : Generator σ _).Grown (.fresh source) visits before →
        ∀ u ∈ visits, (before.registry.intern u.node.newLabel).1 ∉ u.node.arguments)
      ∧ ∀ visits before, (weighted.generator : Generator σ _).Grown (.fresh source) visits before →
        ∀ u ∈ visits, ∀ f, u.node.formula.Enlarged f →
          WeightedFormula.weigh f u.node.weights = .ok ⟨f, u.node.weights⟩ := by
  refine ⟨fun problem depth hdepth hmax => ?_, fun visits before hgrown u hu => ?_,
    fun visits before hgrown u hu f henlarged => ?_⟩
  · have hsane := maintains_sane problem source
    have hunfailing := hsane.unfailing.mono hmax
    obtain ⟨visits, finish, hfirst, hinstances, hwalk⟩ :=
      hunfailing.exists_visits hdepth (Nat.le_succ depth)
    refine ⟨hunfailing, visits, finish, hfirst, hinstances, fun v hv f hf => ?_, hwalk⟩
    calc
      f.varCount < v.depth := (hsane.of_grown hfirst.grown v hv).varCount_lt hf
      _ ≤ depth := hfirst.depth_le hdepth hv
      _ ≤ 128 := hmax
  · have hnumbered : Framework.Numbered before.registry u.node :=
      (maintains_sane frameworks source).of_grown hgrown u hu
    rw [Framework.newLabel_eq, (hnumbered.known.intern hnumbered.size_le).1]
    exact hnumbered.argument_not_mem
  · have hsane : WeightedFormula.Sane before u.depth u.node :=
      (maintains_sane weighted source).of_grown hgrown u hu
    exact WeightedFormula.weigh_eq_ok.mpr ⟨rfl, (hsane.1.mono henlarged.varCount_bounds.1).valid⟩

theorem generation_unfailing_frameworks :
    let g : Generator Script Framework := frameworks.generator
    (1 ≤ 4 ∧ 4 ≤ 128)
      ∧ ∃ visits finish, g.DepthFirst (.fresh ⟨[0, 0, 1]⟩) 4 finish visits
        ∧ visits.length = 1 + 1 + 2 + 3
        ∧ ∀ k : List Framework, ∃ k',
          (g.walk Generator.remember 4).run (.fresh ⟨[0, 0, 1]⟩, k) = (.ok (), finish, k') := by
  intro g
  obtain ⟨-, visits, finish, hfirst, hinstances, -, hwalk⟩ :=
    (generation_unfailing (Script.mk [0, 0, 1])).1 frameworks 4 (by decide) (by decide)
  have hcount : ((g.instances 4 (.fresh ⟨[0, 0, 1]⟩)).1.map List.length).toOption = some 7 := by
    decide +kernel
  rw [hinstances] at hcount
  refine ⟨⟨by decide, by decide⟩, visits, finish, hfirst, ?_, ?_⟩
  · exact (List.length_map _).symm.trans (Option.some.inj hcount)
  · exact hwalk Generator.remember fun nodes before => ⟨before ++ [nodes], rfl⟩

end SolverAudit.Problem
