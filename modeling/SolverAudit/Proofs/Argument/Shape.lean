import SolverAudit.Proofs.Argument.Growth
import SolverAudit.Proofs.Result
import SolverAudit.Proofs.Tree.Lockstep
import SolverAudit.Proofs.Tree.Script

/-!
# The shapes of frameworks

The random choices decide which attacks a framework has, but not how many: a growth adds one
argument or one attack, and whether an attack may be added is a matter of the two numbers alone, as
long as there are no attacks of arguments on themselves unless these are allowed. So the trees of
two sources have the same shape.
-/

namespace SolverAudit

namespace Framework

/-- The number of arguments and the number of attacks. -/
def shape (af : Framework) : Nat × Nat := (af.size, af.attacks.length)

/-- No argument attacks itself unless this is allowed. -/
def Permitted (selfAttacks : Bool) (af : Framework) : Prop :=
  selfAttacks = false → ∀ place, af.hasAttack place place = false

variable {selfAttacks : Bool} {af af' : Framework}

theorem permitted_empty : Permitted selfAttacks ∅ :=
  fun _ _ => rfl

theorem Permitted.of_attacks_eq (h : af.Permitted selfAttacks) (hsame : af'.attacks = af.attacks) :
    af'.Permitted selfAttacks := by
  intro hfalse place
  rw [hasAttack, hsame]
  exact h hfalse place

theorem Permitted.of_missing (h : af.Permitted selfAttacks) {source target : Nat}
    (hmissing : Missing selfAttacks af source target)
    (hattacks : af'.attacks = af.attacks ++ [⟨source, target⟩]) : af'.Permitted selfAttacks := by
  intro hfalse place
  have hends : target ≠ source := hmissing.allowed.resolve_left (by simp [hfalse])
  have hbefore : (⟨place, place⟩ : Attack) ∉ af.attacks := by simpa [hasAttack] using h hfalse place
  have hnew : (⟨place, place⟩ : Attack) ≠ ⟨source, target⟩ := by
    intro hsame
    obtain ⟨rfl, rfl⟩ := (Attack.mk.injEq ..).mp hsame
    exact hends rfl
  simpa [hasAttack, hattacks, hbefore] using hnew

/-- Whether an attack is missing is told by the shape. -/
theorem Permitted.lacksAttack_eq (h : af.Permitted selfAttacks) :
    af.lacksAttack selfAttacks =
      decide (af.shape.2 < if selfAttacks then af.shape.1 * af.shape.1
        else af.shape.1 * (af.shape.1 - 1)) := by
  cases selfAttacks with
  | true => rfl
  | false =>
      have hnone : (List.range af.size).filter (fun i => af.hasAttack i i) = [] :=
        List.filter_eq_nil_iff.mpr fun i _ => by simp [h rfl i]
      simp [lacksAttack, shape, hnone]

/-! ### What a growth does to the shape -/

section

variable {σ : Type}

theorem arguments_of_newArgument (h : (newArgument : Growth σ Framework).Takes af af') :
    (∃ a, af'.arguments = af.arguments ++ [a]) ∧ af'.attacks = af.attacks := by
  obtain ⟨before, after, hrun⟩ := h
  obtain ⟨-, harguments, hattacks⟩ := addArgument_eq_ok (run_newArgument_eq_ok.mp hrun).1
  exact ⟨⟨_, harguments⟩, hattacks⟩

theorem missing_of_newAttack [Source σ]
    (h : (newAttack selfAttacks : Growth σ Framework).Takes af af') :
    ∃ source target, Missing selfAttacks af source target ∧ af'.arguments = af.arguments
      ∧ af'.attacks = af.attacks ++ [⟨source, target⟩] := by
  obtain ⟨before, after, hrun⟩ := h
  have happlies : af.lacksAttack selfAttacks = true := by
    by_contra hsaturated
    rw [run_newAttack_saturated hsaturated before] at hrun
    cases hrun
  obtain ⟨source, target, _, _, hmissing, hadd, hrun', -⟩ := exists_run_newAttack happlies before
  obtain ⟨bf, hadd', harguments, hattacks⟩ := hmissing.addAttack
  have hsame : bf = af' := by
    rw [hadd'] at hadd
    rw [hrun, ← Except.ok.inj hadd] at hrun'
    exact (Except.ok.inj (Prod.mk.inj hrun').1).symm
  rw [← hsame]
  exact ⟨source, target, hmissing, harguments, hattacks⟩

theorem shape_of_newArgument (h : (newArgument : Growth σ Framework).Takes af af') :
    af'.shape = (af.shape.1 + 1, af.shape.2) := by
  obtain ⟨⟨a, harguments⟩, hattacks⟩ := arguments_of_newArgument h
  simp [shape, size, harguments, hattacks]

theorem shape_of_newAttack [Source σ]
    (h : (newAttack selfAttacks : Growth σ Framework).Takes af af') :
    af'.shape = (af.shape.1, af.shape.2 + 1) := by
  obtain ⟨source, target, -, harguments, hattacks⟩ := missing_of_newAttack h
  simp [shape, size, harguments, hattacks]

end

/-! ### Frameworks of the same shape -/

structure SameShape (selfAttacks : Bool) (af bf : Framework) : Prop where
  shape_eq : af.shape = bf.shape
  left : af.Permitted selfAttacks
  right : bf.Permitted selfAttacks

section

variable {σ τ : Type}

theorem alike_newArgument : (newArgument : Growth σ Framework).Alike (SameShape selfAttacks)
    (newArgument : Growth τ Framework) where
  applies_eq _ _ _ := rfl
  takes af bf af' bf' h htakes htakes' :=
    { shape_eq := by rw [shape_of_newArgument htakes, shape_of_newArgument htakes', h.shape_eq]
      left := h.left.of_attacks_eq (arguments_of_newArgument htakes).2
      right := h.right.of_attacks_eq (arguments_of_newArgument htakes').2 }

variable [Source σ] [Source τ]

theorem alike_newAttack : (newAttack selfAttacks : Growth σ Framework).Alike (SameShape selfAttacks)
    (newAttack selfAttacks : Growth τ Framework) where
  applies_eq af bf h := by
    change af.lacksAttack selfAttacks = bf.lacksAttack selfAttacks
    rw [h.left.lacksAttack_eq, h.right.lacksAttack_eq, h.shape_eq]
  takes af bf af' bf' h htakes htakes' := by
    obtain ⟨_, _, hmissing, -, hattacks⟩ := missing_of_newAttack htakes
    obtain ⟨_, _, hmissing', -, hattacks'⟩ := missing_of_newAttack htakes'
    refine ⟨?_, h.left.of_missing hmissing hattacks, h.right.of_missing hmissing' hattacks'⟩
    rw [shape_of_newAttack htakes, shape_of_newAttack htakes', h.shape_eq]

theorem alike_growths : List.Forall₂ (Growth.Alike (SameShape selfAttacks))
    (generator selfAttacks : Generator σ Framework).effective
    (generator selfAttacks : Generator τ Framework).effective :=
  .cons alike_newArgument (.cons alike_newAttack .nil)

/-- A framework has one argument or attack for each growth that leads to its depth. -/
def Sized (selfAttacks : Bool) (depth : Nat) (af : Framework) : Prop :=
  af.shape.1 + af.shape.2 + 1 = depth ∧ af.Permitted selfAttacks

theorem Sized.step {growth : Growth σ Framework}
    (hgrowth : growth ∈ (generator selfAttacks).growths) {depth : Nat}
    (haf : Sized selfAttacks depth af) (h : growth.Takes af af') :
    Sized selfAttacks (depth + 1) af' := by
  obtain ⟨hsize, hpermitted⟩ := haf
  simp only [generator, List.mem_cons, List.not_mem_nil, or_false] at hgrowth
  rcases hgrowth with rfl | rfl
  · refine ⟨?_, hpermitted.of_attacks_eq (arguments_of_newArgument h).2⟩
    rw [shape_of_newArgument h]
    dsimp only
    omega
  · obtain ⟨_, _, hmissing, -, hattacks⟩ := missing_of_newAttack h
    refine ⟨?_, hpermitted.of_missing hmissing hattacks⟩
    rw [shape_of_newAttack h]
    dsimp only
    omega

section

variable {source : σ} {source' : τ} {depth : Nat} {finish : Context σ} {finish' : Context τ}
  {visits : List (Visit σ Framework)} {visits' : List (Visit τ Framework)}

theorem sized_of_mem_visits
    (h : (generator selfAttacks).DepthFirst (.fresh source) depth finish visits) :
    ∀ v ∈ visits, Sized selfAttacks v.depth v.node := by
  refine h.grown.holds (fun x context hrun => ?_)
    fun growth hgrowth depth x y hx _ htakes => hx.step hgrowth htakes
  cases hrun
  exact ⟨rfl, permitted_empty⟩

theorem sameShape_of_visits
    (h : (generator selfAttacks).DepthFirst (.fresh source) depth finish visits)
    (h' : (generator selfAttacks).DepthFirst (.fresh source') depth finish' visits') :
    List.Forall₂ (fun v v' => v.path = v'.path ∧ SameShape selfAttacks v.node v'.node)
      visits visits' := by
  refine h.lockstep h' (fun x x' context context' hrun hrun' => ?_) alike_growths
  cases hrun
  cases hrun'
  exact ⟨rfl, permitted_empty, permitted_empty⟩

end

/-- **Random choices do not show in the shapes.** The walks with any two sources come to as many
arguments and attacks, node by node. They get through, and visit the same paths in the same order.
The arguments and attacks of a node together are one less than its depth, and if attacks of
arguments on themselves are not allowed, there are none. -/
theorem shapes_ignore_choices (selfAttacks : Bool) (source : σ) (source' : τ) :
    let g : Generator σ Framework := generator selfAttacks
    let g' : Generator τ Framework := generator selfAttacks
    (∀ depth, (g.instances depth (.fresh source)).1.map (List.map shape) =
      (g'.instances depth (.fresh source')).1.map (List.map shape))
    ∧ ∀ depth, 1 ≤ depth → ∃ visits finish visits' finish',
      g.DepthFirst (.fresh source) depth finish visits
      ∧ g.instances depth (.fresh source) = (.ok (visits.map Visit.node), finish)
      ∧ g'.DepthFirst (.fresh source') depth finish' visits'
      ∧ g'.instances depth (.fresh source') = (.ok (visits'.map Visit.node), finish')
      ∧ visits.map Visit.path = visits'.map Visit.path
      ∧ ∀ v ∈ visits, v.node.size + v.node.attacks.length = v.depth - 1
        ∧ (selfAttacks = false → ∀ place, v.node.hasAttack place place = false) := by
  refine ⟨fun depth => ?_, fun depth hdepth => ?_⟩
  · cases depth with
    | zero => rfl
    | succ levels =>
        have hdepth : 1 ≤ levels + 1 := Nat.le_add_left 1 levels
        obtain ⟨visits, finish, hfirst, hinstances, -⟩ :=
          (maintains_numbered selfAttacks source _).unfailing.exists_visits hdepth (Nat.le_succ _)
        obtain ⟨visits', finish', hfirst', hinstances', -⟩ :=
          (maintains_numbered selfAttacks source' _).unfailing.exists_visits hdepth (Nat.le_succ _)
        have hshapes : visits.map (shape ∘ Visit.node) = visits'.map (shape ∘ Visit.node) :=
          forall₂_iff_map_eq.mp
            ((sameShape_of_visits hfirst hfirst').imp fun _ _ h => h.2.shape_eq)
        rw [hinstances, hinstances']
        simpa [Except.map] using hshapes
  · obtain ⟨visits, finish, hfirst, hinstances, -⟩ :=
      (maintains_numbered selfAttacks source _).unfailing.exists_visits hdepth (Nat.le_succ _)
    obtain ⟨visits', finish', hfirst', hinstances', -⟩ :=
      (maintains_numbered selfAttacks source' _).unfailing.exists_visits hdepth (Nat.le_succ _)
    have hpaths : visits.map Visit.path = visits'.map Visit.path :=
      forall₂_iff_map_eq.mp ((sameShape_of_visits hfirst hfirst').imp fun _ _ h => h.1)
    refine ⟨visits, finish, visits', finish', hfirst, hinstances, hfirst', hinstances', hpaths, ?_⟩
    intro v hv
    obtain ⟨hsize, hpermitted⟩ := sized_of_mem_visits hfirst v hv
    exact ⟨Nat.eq_sub_of_add_eq hsize, hpermitted⟩

end

theorem shapes_ignore_choices_forbidden :
    let g : Generator Script Framework := generator false
    (g.instances 4 (.fresh ⟨[0, 0]⟩)).1.map (List.map shape) =
        (g.instances 4 (.fresh ⟨[1, 0]⟩)).1.map (List.map shape)
      ∧ 1 ≤ 4 ∧ ∃ visits finish, g.DepthFirst (.fresh ⟨[0, 0]⟩) 4 finish visits
        ∧ visits.length = 1 + 1 + 1 + 2
        ∧ ∀ v ∈ visits, v.depth = 4 → v.node.size + v.node.attacks.length = 3
          ∧ ∀ place, v.node.hasAttack place place = false := by
  intro g
  obtain ⟨hshapes, hwalks⟩ :=
    shapes_ignore_choices false (Script.mk [0, 0]) (Script.mk [1, 0])
  obtain ⟨visits, finish, _, _, hfirst, hinstances, -, -, -, hsized⟩ := hwalks 4 (by decide)
  have hcount : ((g.instances 4 (.fresh ⟨[0, 0]⟩)).1.map List.length).toOption = some 5 := by
    decide +kernel
  rw [hinstances] at hcount
  refine ⟨hshapes 4, by decide, visits, finish, hfirst, ?_, fun v hv hdepth => ?_⟩
  · exact (List.length_map _).symm.trans (Option.some.inj hcount)
  · obtain ⟨hsize, hself⟩ := hsized v hv
    rw [hdepth] at hsize
    exact ⟨hsize, hself rfl⟩

end Framework

end SolverAudit
