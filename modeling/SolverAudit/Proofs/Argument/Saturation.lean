import SolverAudit.Proofs.Argument.Complete
import SolverAudit.Proofs.Argument.Search
import SolverAudit.Proofs.Argument.Shape
import SolverAudit.Proofs.Tree.Exhaustion

/-!
# Adding attacks until none is missing

Each growth by an attack takes one pair from those that are missing, so the number of missing pairs
is the number of growths that are still possible, whatever is chosen. When none is missing all the
allowed pairs are attacks. If arguments may attack themselves, then each of them does, and no set
but the empty one is free of conflicts.
-/

namespace SolverAudit

namespace Framework

variable {selfAttacks : Bool} {af af' : Framework} {source target : Nat}

/-! ### Missing pairs -/

def missingPairs (selfAttacks : Bool) (af : Framework) : Finset (Nat × Nat) :=
  allowedPairs selfAttacks af.size \ af.pairs

theorem mem_missingPairs :
    (source, target) ∈ af.missingPairs selfAttacks ↔ Missing selfAttacks af source target := by
  rw [missingPairs, Finset.mem_sdiff, mem_allowedPairs, mem_pairs, Bool.not_eq_true]
  constructor
  · rintro ⟨⟨⟨hsource, htarget⟩, hallowed⟩, habsent⟩
    exact ⟨hsource, htarget, hallowed.imp_right Ne.symm, habsent⟩
  · rintro ⟨hsource, htarget, hallowed, habsent⟩
    exact ⟨⟨⟨hsource, htarget⟩, hallowed.imp_right Ne.symm⟩, habsent⟩

theorem length_filter_attacks (af : Framework) (p : Nat × Nat → Bool) :
    (af.attacks.filter fun a => p (a.source, a.target)).length =
      (af.pairs.filter fun pair => p pair = true).card := by
  let ends : Attack → Nat × Nat := fun a => (a.source, a.target)
  have hmap : (af.attacks.map ends).filter p = (af.attacks.filter (p ∘ ends)).map ends :=
    List.filter_map
  have hnodup : ((af.attacks.map ends).filter p).Nodup :=
    (af.attacks_distinct.map ends_injective).filter p
  calc
    (af.attacks.filter (p ∘ ends)).length = ((af.attacks.map ends).filter p).length := by
      rw [hmap, List.length_map]
    _ = ((af.attacks.map ends).filter p).toFinset.card :=
      (List.toFinset_card_of_nodup hnodup).symm
    _ = (af.pairs.filter fun pair => p pair = true).card := by
      rw [List.toFinset_filter, pairs]

/-- An allowed pair is missing or an attack, and the attacks that are not allowed do not count. -/
theorem card_missingPairs_add (selfAttacks : Bool) (af : Framework) :
    (af.missingPairs selfAttacks).card
        + (af.attacks.filter fun a => selfAttacks || a.source != a.target).length =
      if selfAttacks then af.size * af.size else af.size * (af.size - 1) := by
  have hpresent : allowedPairs selfAttacks af.size ∩ af.pairs =
      af.pairs.filter fun pair => (selfAttacks || pair.1 != pair.2) = true := by
    ext ⟨i, j⟩
    rw [Finset.mem_inter, Finset.mem_filter, mem_allowedPairs, mem_pairs]
    constructor
    · rintro ⟨⟨-, hallowed⟩, hattack⟩
      exact ⟨hattack, by simpa using hallowed⟩
    · rintro ⟨hattack, hallowed⟩
      exact ⟨⟨lt_size_of_hasAttack hattack, by simpa using hallowed⟩, hattack⟩
  have hlength := length_filter_attacks af fun pair => selfAttacks || pair.1 != pair.2
  calc
    (af.missingPairs selfAttacks).card
          + (af.attacks.filter fun a => selfAttacks || a.source != a.target).length =
        (allowedPairs selfAttacks af.size \ af.pairs).card
          + (allowedPairs selfAttacks af.size ∩ af.pairs).card := by
      rw [hlength, hpresent, missingPairs]
    _ = (allowedPairs selfAttacks af.size).card := Finset.card_sdiff_add_card_inter _ _
    _ = if selfAttacks then af.size * af.size else af.size * (af.size - 1) := card_allowedPairs _

/-- Another attack between the same arguments leaves one pair less. -/
theorem missingPairs_of_attack (harguments : af'.arguments = af.arguments)
    (hattacks : af'.attacks = af.attacks ++ [⟨source, target⟩]) :
    af'.missingPairs selfAttacks = (af.missingPairs selfAttacks).erase (source, target) := by
  have hsize : af'.size = af.size := congrArg List.length harguments
  have hpairs : af'.pairs = insert (source, target) af.pairs := by
    ext pair
    simp only [pairs, hattacks, List.map_append, List.mem_toFinset, List.mem_append,
      Finset.mem_insert, List.map_cons, List.map_nil, List.mem_singleton, or_comm]
  rw [missingPairs, missingPairs, hsize, hpairs, Finset.sdiff_insert]

/-! ### What a growth keeps -/

/-- The second framework has the same arguments as the first one and all its attacks. -/
structure Keeps (af af' : Framework) : Prop where
  arguments_eq : af'.arguments = af.arguments
  attacks_prefix : af.attacks <+: af'.attacks

/-- The second framework has one more attack than the first one, and differs in nothing else. -/
structure AddsAttack (af af' : Framework) : Prop extends Keeps af af' where
  attacks_eq : ∃ attack, attack ∉ af.attacks ∧ af'.attacks = af.attacks ++ [attack]

theorem Keeps.refl (af : Framework) : Keeps af af := ⟨rfl, List.prefix_refl _⟩

theorem Keeps.trans {bf : Framework} (h : Keeps af bf) (h' : Keeps bf af') : Keeps af af' :=
  ⟨h'.arguments_eq.trans h.arguments_eq, h.attacks_prefix.trans h'.attacks_prefix⟩

section

variable {σ : Type} [Source σ]

theorem addsAttack_of_newAttack (h : (newAttack selfAttacks : Growth σ Framework).Takes af af') :
    AddsAttack af af' := by
  obtain ⟨source, target, hmissing, harguments, hattacks⟩ := missing_of_newAttack h
  have hnew : (⟨source, target⟩ : Attack) ∉ af.attacks := by
    simpa [hasAttack] using hmissing.absent
  exact ⟨⟨harguments, hattacks ▸ List.prefix_append _ _⟩, _, hnew, hattacks⟩

theorem card_missingPairs_of_newAttack
    (h : (newAttack selfAttacks : Growth σ Framework).Takes af af') :
    (af'.missingPairs selfAttacks).card + 1 = (af.missingPairs selfAttacks).card := by
  obtain ⟨source, target, hmissing, harguments, hattacks⟩ := missing_of_newAttack h
  rw [missingPairs_of_attack harguments hattacks]
  exact Finset.card_erase_add_one (mem_missingPairs.mpr hmissing)

/-- The missing pairs are as many as the growths by an attack that are still possible. -/
theorem countsDown_newAttack (selfAttacks : Bool) (af : Framework) :
    (newAttack selfAttacks : Growth σ Framework).CountsDown (Keeps af)
      fun x => (x.missingPairs selfAttacks).card where
  applies_iff x _ := by
    rw [Finset.card_pos]
    refine lacksAttack_iff.trans ⟨?_, ?_⟩
    · rintro ⟨source, target, hmissing⟩
      exact ⟨(source, target), mem_missingPairs.mpr hmissing⟩
    · rintro ⟨⟨source, target⟩, hpair⟩
      exact ⟨source, target, mem_missingPairs.mp hpair⟩
  succeeds x before _ happlies := by
    obtain ⟨-, -, y, after, -, -, hrun, -⟩ := exists_run_newAttack happlies before
    exact ⟨y, after, hrun⟩
  takes x y hx htakes :=
    ⟨hx.trans (addsAttack_of_newAttack htakes).toKeeps, card_missingPairs_of_newAttack htakes⟩

end

/-! ### Frameworks without missing pairs -/

theorem hasAttack_of_missingPairs_eq_empty (hnone : af.missingPairs selfAttacks = ∅)
    (hsource : source < af.size) (htarget : target < af.size)
    (hallowed : selfAttacks = true ∨ target ≠ source) : af.hasAttack source target = true := by
  by_contra habsent
  have hpair : (source, target) ∈ af.missingPairs selfAttacks :=
    mem_missingPairs.mpr ⟨hsource, htarget, hallowed, Bool.eq_false_of_not_eq_true habsent⟩
  rw [hnone] at hpair
  exact Finset.notMem_empty _ hpair

/-- If all arguments attack themselves, no argument is in an extension. -/
theorem extensions_eq_of_selfAttacks (hself : ∀ place < af.size, af.hasAttack place place = true) :
    af.extensions = .ofList [∅] := by
  have hempty : ∀ s, af.Admissible s → ∀ place, ¬ s place := by
    intro s hs place hplace
    exact hs.conflictFree place place hplace hplace (hself place (hs.within place hplace))
  refine OrderedSet.ext fun e => ?_
  rw [mem_extensions_iff, OrderedSet.mem_ofList, List.mem_singleton]
  constructor
  · rintro ⟨s, hs, rfl⟩
    refine OrderedSet.ext fun a => iff_of_false ?_ (OrderedSet.not_mem_empty a)
    rw [mem_extensionOf]
    rintro ⟨place, hplace, -⟩
    exact hempty _ hs place hplace
  · rintro rfl
    obtain ⟨s, hs, hmem⟩ := (admissible_empty af).exists_finset
    refine ⟨s, hs, OrderedSet.ext fun a => iff_of_false ?_ (OrderedSet.not_mem_empty a)⟩
    rw [mem_extensionOf]
    rintro ⟨place, hplace, -⟩
    exact (hmem place).mp hplace

/-! ### Main statement -/

/-- What the growths by an attack end with: nothing is lost, every pair that may be an attack is
one, and if arguments may attack themselves there is only the empty extension. -/
structure Saturates (selfAttacks : Bool) (af af' : Framework) : Prop extends Keeps af af' where
  full : ∀ source target, source < af.size → target < af.size →
    (selfAttacks = true ∨ target ≠ source) → af'.hasAttack source target = true
  bare : selfAttacks = true → af'.extensions = .ofList [∅]

theorem Keeps.saturates (h : Keeps af af') (hnone : af'.missingPairs selfAttacks = ∅) :
    Saturates selfAttacks af af' := by
  have hsize : af'.size = af.size := congrArg List.length h.arguments_eq
  refine ⟨h, fun source target hsource htarget hallowed => ?_, fun hself => ?_⟩
  · rw [← hsize] at hsource htarget
    exact hasAttack_of_missingPairs_eq_empty hnone hsource htarget hallowed
  · refine extensions_eq_of_selfAttacks fun place hplace => ?_
    exact hasAttack_of_missingPairs_eq_empty hnone hplace hplace (.inl hself)

/-- **Attacks can be added until none is missing.** A growth by an attack adds a new one and
changes nothing else. Made as often as it applies, it comes to an end whatever the choices, after as
many times as pairs are missing: together with the attacks there are, or those of other arguments if
none may attack itself, these are all the pairs. In the end none is missing. -/
theorem newAttack_fills_up {σ : Type} [Source σ] (selfAttacks : Bool) (af : Framework)
    (before : Context σ) :
    let growth : Growth σ Framework := newAttack selfAttacks
    (∀ x y, growth.Takes x y → AddsAttack x y)
      ∧ (∃ times af' after, growth.Exhausts times af before af' after)
      ∧ ∀ times af' after, growth.Exhausts times af before af' after →
        (selfAttacks = true → times + af.attacks.length = af.size * af.size)
          ∧ (selfAttacks = false →
            times + (af.attacks.filter fun a => a.source != a.target).length =
              af.size * (af.size - 1))
          ∧ Saturates selfAttacks af af' := by
  intro growth
  have hcounts : growth.CountsDown (Keeps af) fun x => (x.missingPairs selfAttacks).card :=
    countsDown_newAttack selfAttacks af
  obtain ⟨af', after, hexhausts⟩ := hcounts.exists_exhausts (Keeps.refl af) before
  refine ⟨fun x y htakes => addsAttack_of_newAttack htakes, ⟨_, af', after, hexhausts⟩,
    fun times af' after hrun => ?_⟩
  obtain ⟨rfl, hkeeps, hnone⟩ := hcounts.of_exhausts (Keeps.refl af) hrun
  have hcard := card_missingPairs_add selfAttacks af
  refine ⟨?_, ?_, hkeeps.saturates (Finset.card_eq_zero.mp hnone)⟩
  · rintro rfl
    simpa using hcard
  · rintro rfl
    simpa using hcard

theorem newAttack_fills_up_self :
    let af : Framework := ⟨[⟨0, "a0"⟩, ⟨1, "a1"⟩], [⟨0, 0⟩], by decide, by decide, by decide⟩
    (∃ (af' : Framework) (after : Context Script),
      (newAttack true).Exhausts 3 af (.fresh ⟨[1, 0]⟩) af' after
        ∧ af'.extensions = .ofList [∅] ∧ af'.hasAttack 1 1 = true)
      ∧ ∃ (af' : Framework) (after : Context Script),
        (newAttack false).Exhausts 2 af (.fresh ⟨[1, 0]⟩) af' after
          ∧ af'.arguments = af.arguments ∧ af'.hasAttack 1 0 = true := by
  intro af
  have hsize : af.size = 2 := rfl
  constructor
  · obtain ⟨-, ⟨times, af', after, hrun⟩, hends⟩ :=
      newAttack_fills_up true af (.fresh (Script.mk [1, 0]))
    obtain ⟨htimes, -, hsaturates⟩ := hends times af' after hrun
    have htimes : times + 1 = 2 * 2 := htimes rfl
    obtain rfl : times = 3 := by omega
    exact ⟨af', after, hrun, hsaturates.bare rfl,
      hsaturates.full 1 1 (by omega) (by omega) (.inl rfl)⟩
  · obtain ⟨-, ⟨times, af', after, hrun⟩, hends⟩ :=
      newAttack_fills_up false af (.fresh (Script.mk [1, 0]))
    obtain ⟨-, htimes, hsaturates⟩ := hends times af' after hrun
    have htimes : times + 0 = 2 * 1 := htimes rfl
    obtain rfl : times = 2 := by omega
    exact ⟨af', after, hrun, hsaturates.arguments_eq,
      hsaturates.full 1 0 (by omega) (by omega) (.inr (by omega))⟩

end Framework

end SolverAudit
