import Mathlib
import SolverAudit.Problem
import SolverAudit.Proofs.Tree.Course
import SolverAudit.Proofs.Tree.Script

/-!
# Projections of generators

A generator projects onto another one when its walks are, instance by instance, those of the other
one: the same choices are made, the same failures come up, and each instance projects onto the
instance in its place. An adapted generator projects so onto its base generator, as long as richer
instances can always be made and embed what they are made from, and the base tries each growth once.
-/

namespace SolverAudit

variable {σ β ι κ : Type}

/-! ### Projected courses -/

def Visit.map (p : ι → β) (v : Visit σ ι) : Visit σ β := { v with node := p v.node }

@[simp]
theorem Visit.node_map (p : ι → β) (v : Visit σ ι) : (v.map p).node = p v.node := rfl

namespace Course

def map (p : ι → β) (course : Course σ ι) : Course σ β :=
  { course with visits := course.visits.map (Visit.map p) }

variable {p : ι → β}

theorem map_andThen (first : Course σ ι) (rest : Context σ → Course σ ι) :
    (first.andThen rest).map p = (first.map p).andThen fun context => (rest context).map p := by
  obtain ⟨visits, ending, context⟩ := first
  cases ending with
  | error failure => rfl
  | ok _ => exact congrArg (Course.mk · _ _) List.map_append

theorem replay_map (visit : β → Attempt κ Unit) (course : Course σ ι) (k : κ) :
    (course.map p).replay visit k = course.replay (fun x => visit (p x)) k := by
  obtain ⟨visits, ending, context⟩ := course
  induction visits generalizing k with
  | nil => rfl
  | cons v visits ih =>
      change (after (v.map p) (map p ⟨visits, ending, context⟩)).replay visit k =
        (after v ⟨visits, ending, context⟩).replay (fun x => visit (p x)) k
      rw [replay_after, replay_after, Visit.node_map]
      rcases (visit (p v.node)).run k with ⟨failure | _, k⟩
      · rfl
      · exact ih k

end Course

/-! ### Projections -/

namespace Generator

/-- The walks of the first generator are those of the second one, seen through the projection. -/
structure ProjectsOnto (p : ι → β) (g' : Generator σ ι) (g : Generator σ β) : Prop where
  walk_eq : ∀ {κ : Type} (visit : β → Attempt κ Unit) (depth : Nat),
    g'.walk (fun x => visit (p x)) depth = g.walk visit depth
  instances_eq : ∀ (depth : Nat) (start : Context σ),
    g.instances depth start =
      ((g'.instances depth start).1.map (List.map p), (g'.instances depth start).2)

theorem ProjectsOnto.of_course {p : ι → β} {g' : Generator σ ι} {g : Generator σ β}
    (hcourse : ∀ levels start, (g'.course levels start).map p = g.course levels start) :
    ProjectsOnto p g' g where
  walk_eq visit depth := by
    cases depth with
    | zero => rfl
    | succ levels =>
        refine ExceptT.ext (funext fun (start, k) => ?_)
        rw [run_walk, run_walk, ← Course.replay_map, hcourse]
  instances_eq depth start := by
    cases depth with
    | zero => rfl
    | succ levels =>
        rw [g'.instances_eq, g.instances_eq, ← hcourse]
        obtain ⟨visits, ending, context⟩ := g'.course levels start
        cases ending with
        | error failure => rfl
        | ok _ => simp [Course.map, Visit.map, Except.map]

end Generator

/-! ### Adaptations that embed -/

/-- Richer instances can always be made and embed the instance that they are made from. -/
structure Adaptation.Embeds (a : Adaptation β ι) : Prop where
  ofBase : ∀ b, ∃ x, a.ofBase b = .ok x ∧ a.base x = b
  rebuild : ∀ x b, ∃ y, a.rebuild x b = .ok y ∧ a.base y = b

theorem Attempt.run_of_bind_lift {s : Type} {p : ι → β} {make : β → Except Failure ι}
    (hmake : ∀ b, ∃ x, make b = .ok x ∧ p x = b) (attempt : Attempt s β) (before : s) :
    let made := (attempt >>= fun b => lift (make b)).run before
    attempt.run before = (made.1.map p, made.2) := by
  dsimp only
  rw [run_bind]
  rcases attempt.run before with ⟨failure | b, after⟩
  · rfl
  · obtain ⟨x, hx, rfl⟩ := hmake b
    dsimp only
    rw [run_lift, hx]
    rfl

section

variable {a : Adaptation β ι}

theorem Growth.run_adapt (hembeds : a.Embeds) (growth : Growth σ β) (x : ι) (before : Context σ) :
    (growth.grow (a.base x)).run before =
      ((((growth.adapt a).grow x).run before).1.map a.base,
        (((growth.adapt a).grow x).run before).2) :=
  Attempt.run_of_bind_lift (hembeds.rebuild x) (growth.grow (a.base x)) before

theorem Growth.Takes.of_adapt (hembeds : a.Embeds) {growth : Growth σ β} {x y : ι}
    (h : (growth.adapt a).Takes x y) : growth.Takes (a.base x) (a.base y) := by
  obtain ⟨before, after, hrun⟩ := h
  refine ⟨before, after, ?_⟩
  rw [growth.run_adapt hembeds, hrun]
  rfl

theorem Growth.Takes.adapt {growth : Growth σ β} {x y : ι} {b : β}
    (h : growth.Takes (a.base x) b) (hrebuild : a.rebuild x b = .ok y) :
    (growth.adapt a).Takes x y := by
  obtain ⟨before, after, hrun⟩ := h
  refine ⟨before, after, Attempt.run_bind_eq_ok.mpr ⟨b, after, hrun, ?_⟩⟩
  rw [Attempt.run_lift, hrebuild]

theorem Generator.Grows.of_adapt (hembeds : a.Embeds) {g : Generator σ β} {x y : ι}
    (h : (g.adapt a []).Grows x y) : g.Grows (a.base x) (a.base y) := by
  obtain ⟨growth, hgrowth, htakes⟩ := h
  rcases List.mem_append.mp hgrowth with hgrowth | hgrowth
  · obtain ⟨base, hbase, rfl⟩ := List.mem_map.mp hgrowth
    exact ⟨base, hbase, htakes.of_adapt hembeds⟩
  · cases hgrowth

namespace Course

theorem map_below (hembeds : a.Embeds) {descend' : Visit σ ι → Course σ ι}
    {descend : Visit σ β → Course σ β}
    (hdescend : ∀ v, (descend' v).map a.base = descend (v.map a.base)) (v : Visit σ ι)
    (growths : List (Growth σ β × Nat)) (context : Context σ) :
    (below descend' v (growths.map (Prod.map (Growth.adapt a) id)) context).map a.base =
      below descend (v.map a.base) growths context := by
  induction growths generalizing context with
  | nil => rfl
  | cons entry rest ih =>
      obtain ⟨growth, place⟩ := entry
      change (below descend' v ((growth.adapt a, place) :: rest.map _) context).map a.base = _
      have happlies_eq : (growth.adapt a).applies v.node = growth.applies (a.base v.node) := rfl
      rw [below, below, happlies_eq, Visit.node_map]
      by_cases happlies : growth.applies (a.base v.node) = true
      · rw [if_pos happlies, if_pos happlies, growth.run_adapt hembeds]
        rcases ((growth.adapt a).grow v.node).run context with ⟨cause | child, after⟩
        · rfl
        · change map a.base (andThen _ _) = andThen _ _
          rw [map_andThen, hdescend, funext ih]
          rfl
      · rw [if_neg happlies, if_neg happlies]
        exact ih context

theorem map_ofNode (hembeds : a.Embeds) (growths : List (Growth σ β)) (levels : Nat)
    (v : Visit σ ι) :
    (ofNode (growths.map (Growth.adapt a)) levels v).map a.base =
      ofNode growths levels (v.map a.base) := by
  induction levels generalizing v with
  | zero => rfl
  | succ levels ih =>
      have hbelow := map_below hembeds ih v growths.zipIdx v.context
      rw [ofNode, ofNode, List.zipIdx_map]
      exact congrArg (after (v.map a.base)) hbelow

end Course

namespace Generator

theorem projectsOnto_of_adapted (hembeds : a.Embeds) {g' : Generator σ ι} {g : Generator σ β}
    (hroot : g'.root = g.root >>= fun b => Attempt.lift (a.ofBase b))
    (heffective : g'.effective = g.effective.map (Growth.adapt a)) :
    ProjectsOnto a.base g' g := by
  refine .of_course fun levels start => ?_
  rw [course, course, Attempt.run_of_bind_lift hembeds.ofBase g.root start, ← hroot, heffective]
  rcases g'.root.run start with ⟨cause | root, context⟩
  · rfl
  · exact Course.map_ofNode hembeds g.effective levels ⟨[], root, context⟩

/-- The generator with each of its growths tried once on each instance. -/
def plain (g : Generator σ ι) : Generator σ ι := { g with effective := g.growths }

theorem plain_eq_self {g : Generator σ ι} (h : g.effective = g.growths) : g.plain = g := by
  obtain ⟨root, growths, effective⟩ := g
  obtain rfl : effective = growths := h
  rfl

theorem projectsOnto_plain (hembeds : a.Embeds) (g : Generator σ β) :
    (g.adapt a []).ProjectsOnto a.base g.plain :=
  projectsOnto_of_adapted hembeds rfl (List.append_nil _)

/-! ### Repeated growths -/

theorem firstOfName_map_adapt (growths : List (Growth σ β)) :
    firstOfName (growths.map (Growth.adapt a)) = (firstOfName growths).map (Growth.adapt a) := by
  induction growths with
  | nil => rfl
  | cons growth rest ih =>
      rw [List.map_cons, firstOfName, firstOfName, ih, List.filter_map]
      rfl

theorem firstOfName_adapt (g : Generator σ β) :
    firstOfName (g.adapt a []).growths = (firstOfName g.growths).map (Growth.adapt a) := by
  rw [← firstOfName_map_adapt]
  exact congrArg firstOfName (List.append_nil _)

theorem projectsOnto_repeated (hembeds : a.Embeds) (g : Generator σ β) (times : String → Nat) :
    ((g.adapt a []).repeated times).ProjectsOnto a.base (g.repeated times) := by
  refine projectsOnto_of_adapted hembeds rfl ?_
  rw [repeated, firstOfName_adapt, List.flatMap_map, repeated, List.map_flatMap]
  simp only [List.map_replicate]
  rfl

end Generator

end

theorem CountingProblem.embeds_adaptation : adaptation.Embeds where
  ofBase b := ⟨⟨b⟩, rfl, rfl⟩
  rebuild _ b := ⟨⟨b⟩, rfl, rfl⟩

theorem WeightedCountingProblem.embeds_adaptation : adaptation.Embeds where
  ofBase b := ⟨⟨b⟩, rfl, rfl⟩
  rebuild _ b := ⟨⟨b⟩, rfl, rfl⟩

/-- **Adapted generators project onto their base generators**, which try each of their growths once:
an adapted generator without growths of its own does not know how often its base tries them. Wrapped
in the same weights, the two try them alike; unless the weights are at fault, and then they are for
both. In particular the generators of counting problems project onto those of the formulas that they
count. -/
theorem Generator.adapt_projectsOnto_base :
    (∀ {σ β ι : Type} (a : Adaptation β ι), a.Embeds → ∀ g : Generator σ β,
      (g.adapt a []).ProjectsOnto a.base g.plain
        ∧ (g.effective = g.growths → (g.adapt a []).ProjectsOnto a.base g)
        ∧ ∀ weights,
          (∃ fault, g.weighted weights = .error fault
            ∧ (g.adapt a []).weighted weights = .error fault)
          ∨ ∃ base adapted, g.weighted weights = .ok base
            ∧ (g.adapt a []).weighted weights = .ok adapted
            ∧ adapted.ProjectsOnto a.base base)
      ∧ ∀ {σ : Type} [Source σ],
        (Problem.counting.generator : Generator σ _).ProjectsOnto CountingProblem.formula
          Problem.formulas.generator
        ∧ (Problem.weightedCounting.generator : Generator σ _).ProjectsOnto
          WeightedCountingProblem.weighted Problem.weighted.generator := by
  refine ⟨fun a hembeds g => ⟨projectsOnto_plain hembeds g, fun hplain => ?_, fun weights => ?_⟩,
    fun {σ} _ => ⟨?_, ?_⟩⟩
  · exact plain_eq_self hplain ▸ projectsOnto_plain hembeds g
  · have hnames : (firstOfName (g.adapt a []).growths).map Growth.name =
        (firstOfName g.growths).map Growth.name := by
      rw [firstOfName_adapt, List.map_map]
      rfl
    rw [weighted, weighted, hnames]
    cases weightFault? ((firstOfName g.growths).map Growth.name) weights with
    | some fault => exact .inl ⟨fault, rfl, rfl⟩
    | none => exact .inr ⟨_, _, rfl, rfl, projectsOnto_repeated hembeds g _⟩
  · exact projectsOnto_repeated CountingProblem.embeds_adaptation Formula.generator _
  · exact projectsOnto_repeated WeightedCountingProblem.embeds_adaptation
      WeightedFormula.generator _

theorem CountingProblem.instances_project :
    let plain : Generator Script Formula := Formula.generator
    (adaptation.Embeds ∧ plain.effective = plain.growths)
      ∧ plain.instances 3 (.fresh ⟨[1, 0]⟩) =
        (let (result, context) := (plain.adapt adaptation []).instances 3 (.fresh ⟨[1, 0]⟩)
        (result.map (List.map formula), context))
      ∧ ∃ base, ∃ adapted : Generator Script CountingProblem,
        plain.weighted [("new_variable", 1), ("new_clause", 2), ("new_literal_in_clause", 0)]
            = .ok base
          ∧ adapted.ProjectsOnto formula base := by
  intro plain
  have hplain : plain.effective = plain.growths := rfl
  obtain ⟨-, hproject, hweighted⟩ :=
    Generator.adapt_projectsOnto_base.1 adaptation embeds_adaptation plain
  refine ⟨⟨embeds_adaptation, hplain⟩, (hproject hplain).instances_eq 3 _, ?_⟩
  rcases hweighted [("new_variable", 1), ("new_clause", 2), ("new_literal_in_clause", 0)] with
    ⟨fault, hfault, -⟩ | ⟨base, adapted, hbase, -, hprojects⟩
  · cases hfault
  · exact ⟨base, adapted, hbase, hprojects⟩

/-- Over the weighted generator of formulas, the adapted generator does not project onto its base:
it tries unit clauses once and makes four instances down to a depth of three, the base one makes
five. -/
theorem CountingProblem.not_projectsOnto_weighted :
    ∃ base : Generator Script Formula,
      Formula.generator.weighted Problem.formulaWeights = .ok base ∧ adaptation.Embeds
        ∧ ¬ (base.adapt adaptation []).ProjectsOnto formula base := by
  refine ⟨Problem.formulas.generator, Problem.weighted_plain .formulas rfl, embeds_adaptation,
    fun hprojects => ?_⟩
  have hbase : (((Problem.formulas.generator : Generator Script Formula).instances 3
      (.fresh ⟨[]⟩)).1.map List.length).toOption = some 5 := by cbv
  have hadapted : ((((Problem.formulas.generator : Generator Script Formula).adapt adaptation
      []).instances 3 (.fresh ⟨[]⟩)).1.map List.length).toOption = some 4 := by cbv
  have hinstances := congrArg Prod.fst (hprojects.instances_eq 3 (.fresh ⟨[]⟩))
  dsimp only at hinstances
  rw [hinstances] at hbase
  generalize (((Problem.formulas.generator : Generator Script Formula).adapt adaptation
    []).instances 3 (.fresh ⟨[]⟩)).1 = result at hbase hadapted
  rcases result with failure | nodes
  · cases hadapted
  · have hfour : nodes.length = 4 := Option.some.inj hadapted
    have hfive : (nodes.map formula).length = 5 := Option.some.inj hbase
    rw [List.length_map, hfour] at hfive
    cases hfive

end SolverAudit
