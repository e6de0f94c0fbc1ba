import SolverAudit.Proofs.Argument.FixedPoint
import SolverAudit.Proofs.Argument.Search
import SolverAudit.Proofs.Argument.Shape

/-!
# The order of attacks

Two frameworks count as equal if they have the same arguments and the same set of attacks. The order
in which attacks were added still shows in the lists of attackers and attacked arguments, and so in
the order in which the search prunes and acceptance spreads. It does not show in what these come to:
the search only asks whether all or some of the listed arguments are members, and acceptance ends at
a least fixed point.
-/

namespace SolverAudit

namespace Framework

/-- The second framework has the arguments of the first one, and its attacks in some order. -/
structure Reordered (af bf : Framework) : Prop where
  arguments_eq : bf.arguments = af.arguments
  perm : bf.attacks.Perm af.attacks

/-- Frameworks count as equal if they differ in the order of attacks at most. -/
theorem beq_iff_reordered {af bf : Framework} : (af == bf) = true ↔ Reordered af bf := by
  have hbeq : (af == bf) = (af.arguments == bf.arguments && af.attackSet == bf.attackSet) := rfl
  rw [hbeq, Bool.and_eq_true, beq_iff_eq, beq_iff_eq]
  constructor
  · rintro ⟨harguments, hattacks⟩
    refine ⟨harguments.symm, ?_⟩
    apply (List.perm_ext_iff_of_nodup bf.attacks_distinct af.attacks_distinct).mpr
    intro a
    calc
      a ∈ bf.attacks ↔ a ∈ bf.attackSet := OrderedSet.mem_ofList.symm
      _ ↔ a ∈ af.attackSet := by rw [hattacks]
      _ ↔ a ∈ af.attacks := OrderedSet.mem_ofList
  · intro h
    refine ⟨h.arguments_eq.symm, OrderedSet.ext fun a => ?_⟩
    simp only [attackSet, OrderedSet.mem_ofList, h.perm.mem_iff]

namespace Reordered

variable {af bf : Framework} {members places : List Nat} {selfAttacks : Bool}

/-! ### What the order shows in -/

theorem size_eq (h : Reordered af bf) : bf.size = af.size :=
  congrArg List.length h.arguments_eq

theorem hasAttack_eq (h : Reordered af bf) (source target : Nat) :
    bf.hasAttack source target = af.hasAttack source target :=
  decide_eq_decide.mpr h.perm.mem_iff

theorem perm_attackedBy (h : Reordered af bf) (source : Nat) :
    (bf.attackedBy source).Perm (af.attackedBy source) :=
  (h.perm.filter _).map _

theorem perm_attackersOf (h : Reordered af bf) (target : Nat) :
    (bf.attackersOf target).Perm (af.attackersOf target) :=
  (h.perm.filter _).map _

theorem argument?_eq (h : Reordered af bf) : bf.argument? = af.argument? := by
  funext place
  rw [argument?, argument?, h.arguments_eq]

theorem argumentSet_eq (h : Reordered af bf) : bf.argumentSet = af.argumentSet := by
  funext places
  rw [argumentSet, argumentSet, h.argument?_eq]

/-! ### The search -/

theorem mayJoin_eq (h : Reordered af bf) (members : List Nat) (place : Nat) :
    bf.mayJoin members place = af.mayJoin members place := by
  rw [mayJoin, mayJoin, h.hasAttack_eq, (h.perm_attackedBy place).all_eq,
    (h.perm_attackersOf place).all_eq]

theorem areSafe_eq (h : Reordered af bf) (members : List Nat) :
    bf.areSafe members = af.areSafe members := by
  rw [areSafe, areSafe]
  congr 1
  funext m
  rw [(h.perm_attackersOf m).all_eq]
  congr 1
  funext attacker
  exact (h.perm_attackersOf attacker).any_eq

/-- The search takes the same way: it decides each place alike. -/
theorem admissibleFrom_eq (h : Reordered af bf) :
    bf.admissibleFrom members places = af.admissibleFrom members places := by
  induction places generalizing members with
  | nil => rw [admissibleFrom, admissibleFrom, h.areSafe_eq]
  | cons place rest ih =>
      rw [admissibleFrom, admissibleFrom, h.mayJoin_eq, ih, ih]

theorem extensions_eq (h : Reordered af bf) : bf.extensions = af.extensions := by
  rw [extensions_eq_ofList, extensions_eq_ofList, admissiblePlaces, admissiblePlaces, h.size_eq,
    h.admissibleFrom_eq, h.argumentSet_eq]

theorem extensionLabels_eq (h : Reordered af bf) : bf.extensionLabels = af.extensionLabels := by
  rw [extensionLabels, extensionLabels, h.extensions_eq]

theorem grounded_eq (h : Reordered af bf) : bf.grounded = af.grounded :=
  grounded_congr h.arguments_eq h.hasAttack_eq

/-! ### Listings -/

theorem attackArguments_eq (h : Reordered af bf) : bf.attackArguments = af.attackArguments := by
  have hset : bf.attackSet = af.attackSet :=
    OrderedSet.ext fun a => by simp only [attackSet, OrderedSet.mem_ofList, h.perm.mem_iff]
  rw [attackArguments, attackArguments, hset, h.argument?_eq]

theorem facts_eq (h : Reordered af bf) : bf.facts = af.facts := by
  rw [facts, facts, h.arguments_eq, h.attackArguments_eq]

theorem graph_eq (h : Reordered af bf) : bf.graph = af.graph := by
  rw [graph, graph, h.arguments_eq, h.attackArguments_eq]

theorem payload_eq (h : Reordered af bf) (kind : String) : payload bf kind = payload af kind := by
  have htext : Payloads.text? bf kind = Payloads.text? af kind := by
    simp only [Payloads.text?, h.facts_eq, h.graph_eq, h.extensionLabels_eq]
  rw [payload, payload, htext]

/-! ### Adding attacks -/

theorem lacksAttack_eq (h : Reordered af bf) :
    bf.lacksAttack selfAttacks = af.lacksAttack selfAttacks := by
  simp only [lacksAttack, h.size_eq, h.hasAttack_eq, h.perm.length_eq]

theorem missingAttacks_eq (h : Reordered af bf) :
    bf.missingAttacks selfAttacks = af.missingAttacks selfAttacks := by
  simp only [missingAttacks, missingTargets, h.size_eq, h.hasAttack_eq]

theorem missing_iff (h : Reordered af bf) {source target : Nat} :
    Missing selfAttacks bf source target ↔ Missing selfAttacks af source target := by
  constructor
  · rintro ⟨hsource, htarget, hallowed, habsent⟩
    rw [h.size_eq] at hsource htarget
    exact ⟨hsource, htarget, hallowed, h.hasAttack_eq source target ▸ habsent⟩
  · rintro ⟨hsource, htarget, hallowed, habsent⟩
    rw [← h.size_eq] at hsource htarget
    exact ⟨hsource, htarget, hallowed, (h.hasAttack_eq source target).trans habsent⟩

end Reordered

/-- Two runs end in the same context, with the same failure or with frameworks that count as equal
and have the same extensions. -/
inductive SameEnd {σ : Type} :
    Except Failure Framework × Context σ → Except Failure Framework × Context σ → Prop where
  | ok {x y : Framework} {after : Context σ} (hbeq : (x == y) = true)
      (hextensions : x.extensions = y.extensions) : SameEnd (.ok x, after) (.ok y, after)
  | error {failure : Failure} {after : Context σ} :
      SameEnd (.error failure, after) (.error failure, after)

/-- The same choices add the same attack. -/
theorem Reordered.sameEnd_newAttack {σ : Type} [Source σ] {af bf : Framework}
    (h : Reordered af bf) (selfAttacks : Bool) (before : Context σ) :
    SameEnd (((newAttack selfAttacks).grow af).run before)
      (((newAttack selfAttacks).grow bf).run before) := by
  by_cases happlies : af.lacksAttack selfAttacks = true
  · obtain ⟨source, target, after, hmissing, -, hruns⟩ := exists_choice happlies before
    obtain ⟨af', hadd, harguments, hattacks⟩ := hmissing.addAttack
    obtain ⟨bf', hadd', harguments', hattacks'⟩ := (h.missing_iff.mpr hmissing).addAttack
    have hgrown : Reordered af' bf' := by
      constructor
      · rw [harguments, harguments', h.arguments_eq]
      · rw [hattacks, hattacks']
        exact h.perm.append_right _
    rw [hruns af af' rfl hadd, hruns bf bf' h.missingAttacks_eq hadd']
    exact .ok (beq_iff_reordered.mpr hgrown) hgrown.extensions_eq.symm
  · have hsaturated : ¬ bf.lacksAttack selfAttacks = true := by rwa [h.lacksAttack_eq]
    rw [run_newAttack_saturated happlies before, run_newAttack_saturated hsaturated before]
    exact .error

/-! ### Main statement -/

/-- **The order of attacks does not show.** Frameworks that count as equal have the same extensions
and the same grounded extension, by arguments and by labels, and the same listings and other
payloads. A growth by an attack applies to both or to neither, and the same choices make of them
frameworks that count as equal again. -/
theorem order_of_attacks_unseen {af bf : Framework} (h : (af == bf) = true) :
    (af.extensions = bf.extensions ∧ af.extensionLabels = bf.extensionLabels)
      ∧ af.grounded = bf.grounded
      ∧ (af.facts = bf.facts ∧ af.graph = bf.graph
        ∧ ∀ kind, payload af kind = payload bf kind)
      ∧ ∀ (σ : Type) [Source σ] (selfAttacks : Bool),
        let growth : Growth σ Framework := newAttack selfAttacks
        growth.applies af = growth.applies bf
          ∧ ∀ before, SameEnd ((growth.grow af).run before) ((growth.grow bf).run before) := by
  have h := beq_iff_reordered.mp h
  refine ⟨⟨h.extensions_eq.symm, h.extensionLabels_eq.symm⟩, h.grounded_eq.symm,
    ⟨h.facts_eq.symm, h.graph_eq.symm, fun kind => (h.payload_eq kind).symm⟩, ?_⟩
  intro σ _ selfAttacks growth
  exact ⟨h.lacksAttack_eq.symm, h.sameEnd_newAttack selfAttacks⟩

theorem order_of_attacks_unseen_swapped :
    let arguments : List Argument := [⟨0, "a0"⟩, ⟨1, "a1"⟩, ⟨2, "a2"⟩]
    let af : Framework := ⟨arguments, [⟨0, 1⟩, ⟨0, 2⟩], by decide, by decide, by decide⟩
    let bf : Framework := ⟨arguments, [⟨0, 2⟩, ⟨0, 1⟩], by decide, by decide, by decide⟩
    (af == bf) = true ∧ af.attackedBy 0 ≠ bf.attackedBy 0 ∧ af.extensions = bf.extensions
      ∧ SameEnd (((newAttack true).grow af).run (.fresh (Script.mk [1, 2])))
        (((newAttack true).grow bf).run (.fresh (Script.mk [1, 2]))) := by
  intro arguments af bf
  have hsame : (af == bf) = true := beq_iff_reordered.mpr ⟨rfl, by decide⟩
  obtain ⟨⟨hextensions, -⟩, -, -, hgrowths⟩ := order_of_attacks_unseen hsame
  exact ⟨hsame, by decide, hextensions, (hgrowths Script true).2 _⟩

end Framework

end SolverAudit
