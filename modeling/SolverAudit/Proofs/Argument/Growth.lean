import Mathlib.Data.Finset.Prod
import Mathlib.Data.List.Nodup
import SolverAudit.Argument.Growth
import SolverAudit.Proofs.Result
import SolverAudit.Proofs.Text.Numeral
import SolverAudit.Proofs.Tree.Progress

/-!
# What growing frameworks can do

The growth by an attack applies by count: it compares the number of attacks with the number of pairs
of arguments. As the attacks are distinct and within the framework, this tells whether a pair is
missing. The growth by an argument asks the registry for the label of the next place; as long as the
registry holds the labels of the first places in order, every framework gets there the argument
whose number is its place.
-/

namespace SolverAudit

namespace Framework

/-! ### Missing attacks -/

/-- An attack that the framework does not have yet and may get. -/
structure Missing (selfAttacks : Bool) (af : Framework) (source target : Nat) : Prop where
  source_lt : source < af.size
  target_lt : target < af.size
  allowed : selfAttacks = true ∨ target ≠ source
  absent : af.hasAttack source target = false

variable {selfAttacks : Bool} {af : Framework} {source target : Nat}

theorem mem_missingTargets (hsource : source < af.size) :
    target ∈ af.missingTargets selfAttacks source ↔ Missing selfAttacks af source target := by
  simp only [missingTargets, List.mem_filter, List.mem_range, Bool.and_eq_true, Bool.or_eq_true,
    bne_iff_ne, Bool.not_eq_true']
  exact ⟨fun ⟨htarget, hallowed, habsent⟩ => ⟨hsource, htarget, hallowed, habsent⟩,
    fun h => ⟨h.target_lt, h.allowed, h.absent⟩⟩

theorem mem_missingAttacks {targets : List Nat} :
    (source, targets) ∈ af.missingAttacks selfAttacks ↔
      source < af.size ∧ af.missingTargets selfAttacks source = targets ∧ targets ≠ [] := by
  simp only [missingAttacks, List.mem_filter, List.mem_map, List.mem_range, Prod.mk.injEq,
    Bool.not_eq_true', List.isEmpty_eq_false_iff]
  constructor
  · rintro ⟨⟨_, hsource, rfl, rfl⟩, hne⟩
    exact ⟨hsource, rfl, hne⟩
  · rintro ⟨hsource, rfl, hne⟩
    exact ⟨⟨source, hsource, rfl, rfl⟩, hne⟩

theorem missingAttacks_ne_nil :
    af.missingAttacks selfAttacks ≠ [] ↔ ∃ source target, Missing selfAttacks af source target := by
  constructor
  · intro hne
    obtain ⟨⟨source, targets⟩, hmem⟩ := List.exists_mem_of_ne_nil _ hne
    obtain ⟨hsource, rfl, htargets⟩ := mem_missingAttacks.mp hmem
    obtain ⟨target, htarget⟩ := List.exists_mem_of_ne_nil _ htargets
    exact ⟨source, target, (mem_missingTargets hsource).mp htarget⟩
  · rintro ⟨source, target, hmissing⟩
    have htargets := List.ne_nil_of_mem ((mem_missingTargets hmissing.source_lt).mpr hmissing)
    exact List.ne_nil_of_mem (mem_missingAttacks.mpr ⟨hmissing.source_lt, rfl, htargets⟩)

/-! ### Counting attacks -/

def pairs (af : Framework) : Finset (Nat × Nat) :=
  (af.attacks.map fun a => (a.source, a.target)).toFinset

/-- The pairs of places below a bound that may be attacks. -/
def allowedPairs (selfAttacks : Bool) (size : Nat) : Finset (Nat × Nat) :=
  (Finset.range size ×ˢ Finset.range size).filter fun p => selfAttacks = true ∨ p.1 ≠ p.2

theorem mem_pairs : (source, target) ∈ af.pairs ↔ af.hasAttack source target = true := by
  simp only [pairs, List.mem_toFinset, List.mem_map, Prod.mk.injEq, hasAttack, decide_eq_true_eq]
  constructor
  · rintro ⟨attack, hattack, rfl, rfl⟩
    exact hattack
  · exact fun hattack => ⟨_, hattack, rfl, rfl⟩

theorem mem_allowedPairs {size : Nat} :
    (source, target) ∈ allowedPairs selfAttacks size ↔
      (source < size ∧ target < size) ∧ (selfAttacks = true ∨ source ≠ target) := by
  simp [allowedPairs]

theorem ends_injective : Function.Injective fun a : Attack => (a.source, a.target) := by
  rintro ⟨_, _⟩ ⟨_, _⟩ hsame
  obtain ⟨hsource, htarget⟩ := Prod.mk.inj hsame
  exact (Attack.mk.injEq ..).mpr ⟨hsource, htarget⟩

theorem card_pairs (af : Framework) : af.pairs.card = af.attacks.length := by
  rw [pairs, List.toFinset_card_of_nodup (af.attacks_distinct.map ends_injective),
    List.length_map]

/-- The attacks of an argument on itself are counted by the places that have one. -/
theorem card_selfPairs (af : Framework) :
    (af.pairs.filter fun p => p.1 = p.2).card =
      ((List.range af.size).filter fun i => af.hasAttack i i).length := by
  rw [← List.toFinset_card_of_nodup (List.nodup_range.filter _)]
  refine (Finset.card_bij (fun i _ => (i, i)) ?_ ?_ ?_).symm
  · intro i hi
    have hattack := (List.mem_filter.mp (List.mem_toFinset.mp hi)).2
    exact Finset.mem_filter.mpr ⟨mem_pairs.mpr hattack, rfl⟩
  · intro i _ j _ hsame
    exact (Prod.mk.inj hsame).1
  · rintro ⟨i, j⟩ hp
    obtain ⟨hattack, hsame⟩ := Finset.mem_filter.mp hp
    obtain rfl : i = j := hsame
    have hattack := mem_pairs.mp hattack
    exact ⟨i, by simpa using ⟨(lt_size_of_hasAttack hattack).1, hattack⟩, rfl⟩

theorem card_relevantPairs (af : Framework) :
    (af.pairs.filter fun p => selfAttacks = true ∨ p.1 ≠ p.2).card =
      if selfAttacks then af.attacks.length
      else af.attacks.length - ((List.range af.size).filter fun i => af.hasAttack i i).length := by
  cases selfAttacks with
  | true => simp [card_pairs]
  | false =>
      have hsplit := Finset.card_filter_add_card_filter_not (s := af.pairs) fun p => p.1 = p.2
      rw [card_selfPairs, card_pairs] at hsplit
      simp only [Bool.false_eq_true, false_or, if_false, ne_eq]
      omega

theorem card_allowedPairs (size : Nat) :
    (allowedPairs selfAttacks size).card =
      if selfAttacks then size * size else size * (size - 1) := by
  cases selfAttacks with
  | true => simp [allowedPairs]
  | false =>
      have hoff : allowedPairs false size = (Finset.range size).offDiag := by
        ext p
        simp [allowedPairs, and_assoc]
      rw [hoff, Finset.offDiag_card, Finset.card_range, if_neg Bool.false_ne_true,
        Nat.mul_sub_one]

/-- **The growth by an attack applies when an attack is missing.** -/
theorem lacksAttack_iff :
    af.lacksAttack selfAttacks = true ↔
      ∃ source target, Missing selfAttacks af source target := by
  have hcount : af.lacksAttack selfAttacks = true ↔
      (af.pairs.filter fun p => selfAttacks = true ∨ p.1 ≠ p.2).card <
        (allowedPairs selfAttacks af.size).card := by
    rw [card_relevantPairs, card_allowedPairs, lacksAttack]
    cases selfAttacks <;> simp
  rw [hcount]
  constructor
  · intro hlt
    obtain ⟨⟨source, target⟩, hallowed, hnot⟩ := Finset.exists_mem_notMem_of_card_lt_card hlt
    obtain ⟨⟨hsource, htarget⟩, hallowed⟩ := mem_allowedPairs.mp hallowed
    refine ⟨source, target, hsource, htarget, hallowed.imp_right Ne.symm, ?_⟩
    by_contra hattack
    exact hnot (Finset.mem_filter.mpr ⟨mem_pairs.mpr (Bool.not_eq_false _ ▸ hattack), hallowed⟩)
  · rintro ⟨source, target, hmissing⟩
    refine Finset.card_lt_card ((Finset.ssubset_iff_of_subset ?_).mpr ⟨(source, target), ?_, ?_⟩)
    · rintro ⟨i, j⟩ hp
      obtain ⟨hattack, hallowed⟩ := Finset.mem_filter.mp hp
      exact mem_allowedPairs.mpr ⟨lt_size_of_hasAttack (mem_pairs.mp hattack), hallowed⟩
    · exact mem_allowedPairs.mpr
        ⟨⟨hmissing.source_lt, hmissing.target_lt⟩, hmissing.allowed.imp_right Ne.symm⟩
    · intro hp
      have hattack := mem_pairs.mp (Finset.mem_filter.mp hp).1
      rw [hmissing.absent] at hattack
      cases hattack

/-! ### Adding an attack -/

theorem Missing.addAttack (h : Missing selfAttacks af source target) :
    ∃ af', af.addAttack source target = .ok af' ∧ af'.arguments = af.arguments
      ∧ af'.attacks = af.attacks ++ [⟨source, target⟩] := by
  have habsent : (⟨source, target⟩ : Attack) ∉ af.attacks := by simpa [hasAttack] using h.absent
  rw [Framework.addAttack, dif_pos ⟨h.source_lt, h.target_lt⟩, dif_neg habsent]
  exact ⟨_, rfl, rfl, rfl⟩

section

variable {σ : Type} [Source σ] {af' : Framework}

theorem missingAttacks_eq_nil (hsaturated : ¬ af.lacksAttack selfAttacks = true) :
    af.missingAttacks selfAttacks = [] := by
  by_contra hne
  exact hsaturated (lacksAttack_iff.mpr (missingAttacks_ne_nil.mp hne))

theorem run_newAttack_saturated (hsaturated : ¬ af.lacksAttack selfAttacks = true)
    (before : Context σ) :
    ((newAttack selfAttacks).grow af).run before = (.error (.of Saturated.saturated), before) := by
  simp only [newAttack, missingAttacks_eq_nil hsaturated]
  rfl

/-- The argument is chosen among those that miss a target, then the target among those it misses. -/
theorem run_newAttack_of_picks {source target : Nat} {first : Nat × List Nat} {target₁ : Nat}
    {others : List (Nat × List Nat)} {targets : List Nat} {early between later : σ}
    (hcandidates : af.missingAttacks selfAttacks = first :: others)
    (hsource : Source.pick first others early = ((source, target₁ :: targets), between))
    (htarget : Source.pick target₁ targets between = (target, later))
    (hadd : af.addAttack source target = .ok af') (registry : Registry) :
    ((newAttack selfAttacks).grow af).run ⟨early, registry⟩ = (.ok af', ⟨later, registry⟩) := by
  simp only [newAttack, hcandidates, Attempt.run_bind, Context.run_choose, hsource, htarget, hadd]
  rfl

/-- The choices are made from the missing attacks alone, and come to one of them. -/
theorem exists_choice (happlies : af.lacksAttack selfAttacks = true) (before : Context σ) :
    ∃ source target after, Missing selfAttacks af source target
      ∧ after.registry = before.registry
      ∧ ∀ bf bf' : Framework, bf.missingAttacks selfAttacks = af.missingAttacks selfAttacks →
        bf.addAttack source target = .ok bf' →
          ((newAttack selfAttacks).grow bf).run before = (.ok bf', after) := by
  obtain ⟨first, others, hcandidates⟩ :=
    List.exists_cons_of_ne_nil (missingAttacks_ne_nil.mpr (lacksAttack_iff.mp happlies))
  have hcandidate := Source.mem_pick first others before.source
  rw [← hcandidates] at hcandidate
  obtain ⟨⟨⟨source, targets⟩, between⟩, hsource⟩ :
      ∃ picked, Source.pick first others before.source = picked := ⟨_, rfl⟩
  rw [hsource] at hcandidate
  obtain ⟨hlt, htargets, hne⟩ := mem_missingAttacks.mp hcandidate
  obtain ⟨target₁, targets, rfl⟩ := List.exists_cons_of_ne_nil hne
  obtain ⟨⟨target, later⟩, htarget⟩ :
      ∃ picked, Source.pick target₁ targets between = picked := ⟨_, rfl⟩
  have hmissing := Source.mem_pick target₁ targets between
  rw [htarget, ← htargets, mem_missingTargets hlt] at hmissing
  refine ⟨source, target, ⟨later, before.registry⟩, hmissing, rfl, fun bf bf' hsame hadd => ?_⟩
  exact run_newAttack_of_picks (hsame.trans hcandidates) hsource htarget hadd before.registry

/-- Whatever the choices, the growth by an attack adds one that is missing. -/
theorem exists_run_newAttack (happlies : af.lacksAttack selfAttacks = true)
    (before : Context σ) :
    ∃ source target af' after, Missing selfAttacks af source target
      ∧ af.addAttack source target = .ok af'
      ∧ ((newAttack selfAttacks).grow af).run before = (.ok af', after)
      ∧ after.registry = before.registry := by
  obtain ⟨source, target, after, hmissing, hregistry, hruns⟩ := exists_choice happlies before
  obtain ⟨af', hadd, -, -⟩ := hmissing.addAttack
  exact ⟨source, target, af', after, hmissing, hadd, hruns af af' rfl hadd, hregistry⟩

end

end Framework

/-! ### Labels of places -/

def placeLabel (place : Nat) : String := s!"a{place}"

theorem placeLabel_injective : Function.Injective placeLabel := by
  intro place place' hsame
  have hdigits : place.repr = place'.repr := by simpa [placeLabel] using hsame
  exact Numeral.digits_injective (String.ofList_injective hdigits)

/-- The registry holds the labels of the first places in order. -/
def Registry.Numbered (r : Registry) : Prop :=
  r.labels = (List.range r.size).map placeLabel

namespace Registry

variable {r : Registry} {place : Nat}

theorem numbered_empty : (∅ : Registry).Numbered := rfl

theorem Numbered.mem_labels (h : r.Numbered) : placeLabel place ∈ r.labels ↔ place < r.size := by
  rw [h, List.mem_map_of_injective placeLabel_injective, List.mem_range]

/-- A label that comes next or came before is known by its place, and the labels stay in order. -/
theorem Numbered.intern (h : r.Numbered) (hplace : place ≤ r.size) :
    (r.intern (placeLabel place)).1 = ⟨place, placeLabel place⟩
      ∧ (r.intern (placeLabel place)).2.Numbered
      ∧ (r.intern (placeLabel place)).2.size = max r.size (place + 1) := by
  rcases Nat.lt_or_eq_of_le hplace with hlt | rfl
  · have hbound : place < r.labels.length := hlt
    have hidx := r.distinct.idxOf_getElem place hbound
    rw [List.getElem_of_eq h hbound, List.getElem_map, List.getElem_range] at hidx
    rw [Registry.intern, dif_pos (h.mem_labels.mpr hlt), hidx]
    exact ⟨rfl, h, (Nat.max_eq_left hlt).symm⟩
  · have hnew : placeLabel r.size ∉ r.labels := fun hmem => (h.mem_labels.mp hmem).false
    rw [Registry.intern, dif_neg hnew]
    have hsize : (r.labels ++ [placeLabel r.size]).length = r.size + 1 := List.length_append
    refine ⟨rfl, ?_, hsize.trans (Nat.max_eq_right (Nat.le_succ _)).symm⟩
    change r.labels ++ [placeLabel r.size] = (List.range (r.labels ++ [_]).length).map placeLabel
    rw [hsize, List.range_succ, List.map_append, ← h]
    rfl

end Registry

/-! ### Numbered arguments -/

namespace Framework

/-- The registry holds the labels of the first places, and the framework the arguments of those
below its size. -/
structure Numbered (registry : Registry) (af : Framework) : Prop where
  known : registry.Numbered
  arguments_eq : af.arguments = (List.range af.size).map fun place => ⟨place, placeLabel place⟩
  size_le : af.size ≤ registry.size

variable {registry : Registry} {af af' : Framework}

theorem numbered_empty (h : registry.Numbered) : Numbered registry ∅ where
  known := h
  arguments_eq := rfl
  size_le := Nat.zero_le _

theorem Numbered.of_arguments_eq (h : Numbered registry af) (hsame : af'.arguments = af.arguments) :
    Numbered registry af' where
  known := h.known
  arguments_eq := by
    rw [size, hsame]
    exact h.arguments_eq
  size_le := by
    rw [size, hsame]
    exact h.size_le

theorem newLabel_eq (af : Framework) : af.newLabel = placeLabel af.size := rfl

theorem addArgument_of_not_mem {a : Argument} (ha : a ∉ af.arguments) :
    ∃ af', af.addArgument a = .ok af' ∧ af'.arguments = af.arguments ++ [a]
      ∧ af'.attacks = af.attacks := by
  rw [addArgument, dif_neg ha]
  exact ⟨_, rfl, rfl, rfl⟩

theorem addArgument_eq_ok {a : Argument} (h : af.addArgument a = .ok af') :
    a ∉ af.arguments ∧ af'.arguments = af.arguments ++ [a] ∧ af'.attacks = af.attacks := by
  unfold addArgument at h
  split at h
  · cases h
  · rename_i hnew
    cases h
    exact ⟨hnew, rfl, rfl⟩

theorem Numbered.argument_not_mem (h : Numbered registry af) :
    ⟨af.size, placeLabel af.size⟩ ∉ af.arguments := by
  rw [h.arguments_eq]
  intro hmem
  obtain ⟨place, hplace, hsame⟩ := List.mem_map.mp hmem
  have hid : place = af.size := congrArg Argument.id hsame
  exact absurd (List.mem_range.mp hplace) (by omega)

/-- The growth by an argument adds the one that the registry has for the label of the next place. -/
theorem run_grow_newArgument {σ : Type} (af : Framework) (before : Context σ) :
    (newArgument.grow af).run before =
      (orFail (af.addArgument (before.registry.intern (placeLabel af.size)).1),
        { before with registry := (before.registry.intern (placeLabel af.size)).2 }) :=
  Attempt.run_bind_of_ok (Context.run_intern (placeLabel af.size) before)

theorem run_newArgument_eq_ok {σ : Type} {before after : Context σ} :
    (newArgument.grow af).run before = (.ok af', after) ↔
      af.addArgument (before.registry.intern (placeLabel af.size)).1 = .ok af'
        ∧ { before with registry := (before.registry.intern (placeLabel af.size)).2 } = after := by
  rw [run_grow_newArgument]
  exact Prod.ext_iff.trans (and_congr_left' mapError_eq_ok)

/-- The growth by an argument succeeds with the one whose number is the next place. -/
theorem Numbered.run_newArgument {σ : Type} {before : Context σ}
    (h : Numbered before.registry af) :
    ∃ af' after, (newArgument.grow af).run before = (.ok af', after)
      ∧ af'.arguments = af.arguments ++ [⟨af.size, placeLabel af.size⟩]
      ∧ af'.attacks = af.attacks ∧ after.source = before.source
      ∧ Numbered after.registry af'
      ∧ ∀ other, Numbered before.registry other → Numbered after.registry other := by
  obtain ⟨hargument, hknown, hsize⟩ := h.known.intern h.size_le
  obtain ⟨af', hadd, harguments, hattacks⟩ := addArgument_of_not_mem h.argument_not_mem
  have hlength : af'.size = af.size + 1 := by simp [size, harguments]
  refine ⟨af', ⟨before.source, (before.registry.intern (placeLabel af.size)).2⟩, ?_, harguments,
    hattacks, rfl, ⟨hknown, ?_, ?_⟩, fun other hother => ⟨hknown, hother.arguments_eq, ?_⟩⟩
  · exact run_newArgument_eq_ok.mpr ⟨hargument.symm ▸ hadd, rfl⟩
  · rw [hlength, List.range_succ, List.map_append, ← h.arguments_eq]
    exact harguments
  · dsimp only
    omega
  · have hle := hother.size_le
    dsimp only
    omega

/-- The arguments of every framework stay in step with the registry. -/
theorem keeps_numbered {σ : Type} [Source σ] {selfAttacks : Bool} {growth : Growth σ Framework}
    {limit : Nat} (hgrowth : growth ∈ (generator selfAttacks).growths) :
    growth.Keeps limit fun context _ af => Numbered context.registry af := by
  intro before depth af h happlies
  left
  simp only [generator, List.mem_cons, List.not_mem_nil, or_false] at hgrowth
  rcases hgrowth with rfl | rfl
  · obtain ⟨af', after, hrun, -, -, -, hnumbered, hothers⟩ := h.run_newArgument
    exact ⟨af', after, hrun, hnumbered, fun _ other => hothers other⟩
  · obtain ⟨source, target, af', after, hmissing, hadd, hrun, hregistry⟩ :=
      exists_run_newAttack happlies before
    obtain ⟨_, hadd', harguments, -⟩ := hmissing.addAttack
    obtain rfl := Except.ok.inj (hadd.symm.trans hadd')
    refine ⟨af', after, hrun, ?_⟩
    dsimp only
    rw [hregistry]
    exact ⟨h.of_arguments_eq harguments, fun _ _ hother => hother⟩

theorem maintains_numbered {σ : Type} [Source σ] (selfAttacks : Bool) (source : σ) (limit : Nat) :
    (generator selfAttacks : Generator σ Framework).Maintains (.fresh source) limit
      fun context _ af => Numbered context.registry af where
  root := ⟨∅, _, rfl, numbered_empty Registry.numbered_empty⟩
  grow _ := keeps_numbered

end Framework

end SolverAudit
