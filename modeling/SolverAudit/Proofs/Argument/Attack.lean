import SolverAudit.Proofs.Argument.Shape

/-!
# Which attacks are added

Whether the growth by an attack applies is decided by counting, and what it adds is chosen from the
attacks that are missing, argument by argument. The two agree on every framework, also if arguments
attack themselves: the growth applies when an attack is missing, then it succeeds, and what it can
add is any missing attack and nothing else. Otherwise it fails for want of a missing attack.
-/

namespace SolverAudit

namespace Framework

variable {σ : Type} [Source σ] {selfAttacks : Bool} {af af' : Framework}

theorem length_selfAttacks_le (af : Framework) :
    ((List.range af.size).filter fun i => af.hasAttack i i).length ≤ af.attacks.length := by
  calc
    ((List.range af.size).filter fun i => af.hasAttack i i).length =
        (af.pairs.filter fun p => p.1 = p.2).card := (card_selfPairs af).symm
    _ ≤ af.pairs.card := Finset.card_filter_le _ _
    _ = af.attacks.length := card_pairs af

/-! ### When no attack is missing -/

/-- The growth applies when it does not fail for want of a missing attack, whatever the source. -/
theorem lacksAttack_iff_not_invalidState (before : Context σ) :
    af.lacksAttack selfAttacks = true ↔
      ¬ ∃ failure, (((newAttack selfAttacks).grow af).run before).1 = .error failure
        ∧ failure.kind = .invalidState := by
  constructor
  · intro happlies
    obtain ⟨-, -, af', after, -, -, hrun, -⟩ := exists_run_newAttack happlies before
    rintro ⟨failure, hfails, -⟩
    rw [hrun] at hfails
    cases hfails
  · intro hnone
    by_contra hsaturated
    apply hnone
    rw [run_newAttack_saturated hsaturated before]
    exact ⟨_, rfl, rfl⟩

/-! ### When an attack is missing -/

theorem Missing.offers (hfull : Source.Full σ) {source target : Nat}
    (h : Missing selfAttacks af source target) (registry : Registry)
    (hadd : af.addAttack source target = .ok af') :
    (newAttack selfAttacks : Growth σ Framework).Offers registry af af' := by
  have htarget : target ∈ af.missingTargets selfAttacks source :=
    (mem_missingTargets h.source_lt).mpr h
  have hsource : (source, af.missingTargets selfAttacks source) ∈ af.missingAttacks selfAttacks :=
    mem_missingAttacks.mpr ⟨h.source_lt, rfl, List.ne_nil_of_mem htarget⟩
  obtain ⟨target₁, targets, htargets⟩ := List.exists_cons_of_ne_nil (List.ne_nil_of_mem htarget)
  obtain ⟨first, others, hcandidates⟩ := List.exists_cons_of_ne_nil (List.ne_nil_of_mem hsource)
  -- The last choice is settled first, as a full source goes on to any other one.
  obtain ⟨later⟩ := hfull.inhabited
  rw [htargets] at htarget
  obtain ⟨between, hpick⟩ := hfull.exists_pick htarget later
  rw [hcandidates, htargets] at hsource
  obtain ⟨early, hpick'⟩ := hfull.exists_pick hsource between
  exact ⟨early, _, run_newAttack_of_picks hcandidates hpick' hpick hadd registry⟩

theorem offers_newAttack_iff (hfull : Source.Full σ) (registry : Registry) :
    (newAttack selfAttacks : Growth σ Framework).Offers registry af af' ↔
      ∃ source target, Missing selfAttacks af source target ∧ af'.arguments = af.arguments
        ∧ af'.attacks = af.attacks ++ [⟨source, target⟩] := by
  constructor
  · intro h
    exact missing_of_newAttack h.takes
  · rintro ⟨source, target, hmissing, harguments, hattacks⟩
    obtain ⟨bf, hadd, harguments', hattacks'⟩ := hmissing.addAttack
    have hsame : bf = af' := by
      cases bf
      cases af'
      congr
      · exact harguments'.trans harguments.symm
      · exact hattacks'.trans hattacks.symm
    exact hmissing.offers hfull registry (hsame ▸ hadd)

/-- **Any missing attack may be added, and nothing else.** The number of attacks, less those of
arguments on themselves where these are forbidden, tells whether one is missing. If so, the growth
succeeds, and with a full source it offers the framework with each missing attack; if not, it fails
in an invalid state. -/
theorem newAttack_adds_any_missing (selfAttacks : Bool) (af : Framework) :
    let growth : Growth σ Framework := newAttack selfAttacks
    (growth.applies af = true ↔ ∃ source target, Missing selfAttacks af source target)
      ∧ (∀ before, growth.applies af = true ↔
        ¬ ∃ failure, ((growth.grow af).run before).1 = .error failure
          ∧ failure.kind = .invalidState)
      ∧ ((List.range af.size).filter fun i => af.hasAttack i i).length ≤ af.attacks.length
      ∧ (∀ before, growth.applies af = true →
        ∃ af' after, (growth.grow af).run before = (.ok af', after))
      ∧ (Source.Full σ → ∀ registry af', growth.Offers registry af af' ↔
        ∃ source target, Missing selfAttacks af source target ∧ af'.arguments = af.arguments
          ∧ af'.attacks = af.attacks ++ [⟨source, target⟩]) := by
  intro growth
  refine ⟨lacksAttack_iff, lacksAttack_iff_not_invalidState, length_selfAttacks_le af, ?_, ?_⟩
  · intro before happlies
    obtain ⟨-, -, af', after, -, -, hrun, -⟩ := exists_run_newAttack happlies before
    exact ⟨af', after, hrun⟩
  · intro hfull registry af'
    exact offers_newAttack_iff hfull registry

theorem newAttack_adds_any_missing_self :
    let growth : Growth Script Framework := newAttack false
    let af : Framework :=
      ⟨[⟨0, "a0"⟩, ⟨1, "a1"⟩], [⟨0, 0⟩, ⟨0, 1⟩], by decide, by decide, by decide⟩
    let saturated : Framework :=
      ⟨[⟨0, "a0"⟩, ⟨1, "a1"⟩], [⟨0, 0⟩, ⟨0, 1⟩, ⟨1, 0⟩], by decide, by decide, by decide⟩
    Source.Full Script ∧ growth.applies af = true ∧ Missing false af 1 0
      ∧ growth.Offers ∅ af saturated
      ∧ (∃ af' after, (growth.grow af).run (.fresh ⟨[7, 3]⟩) = (.ok af', after))
      ∧ growth.applies saturated = false
      ∧ ¬ ∃ source target, Missing false saturated source target := by
  intro growth af saturated
  have hmissing : Missing false af 1 0 := ⟨by decide, by decide, .inr (by decide), by decide⟩
  obtain ⟨hcount, -, -, hruns, hoffers⟩ :=
    @newAttack_adds_any_missing Script _ false af
  obtain ⟨hcount', -⟩ := @newAttack_adds_any_missing Script _ false saturated
  have happlies : growth.applies af = true := hcount.mpr ⟨1, 0, hmissing⟩
  have hsaturated : growth.applies saturated = false := by decide
  refine ⟨Script.full, happlies, hmissing, ?_, hruns _ happlies, hsaturated, ?_⟩
  · exact (hoffers Script.full ∅ saturated).mpr ⟨1, 0, hmissing, rfl, rfl⟩
  · intro hsome
    rw [hcount'.mpr hsome] at hsaturated
    cases hsaturated

end Framework

end SolverAudit
