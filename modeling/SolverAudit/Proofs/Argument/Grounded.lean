import Mathlib.Data.List.Nodup
import Mathlib.Tactic.Common
import SolverAudit.Argument.Grounded
import SolverAudit.Proofs.Argument.Complete

/-!
# The labelling reaches the grounded extension

The counters of a labelling are kept up to date one release at a time. While a place is being
defeated they still count it for the places whose release is due, so the invariant is stated up to
a list of due releases, which is empty between rounds. Between rounds a place is accepted or waiting
exactly when all its attackers are defeated, and defeated exactly when an accepted place attacks it;
so once nothing waits, the accepted places are those they defend, and no set that holds all it
defends can lack any of them.
-/

namespace SolverAudit.Framework

variable {af : Framework}

def liveAttackers (af : Framework) (defeated : List Nat) (place : Nat) : List Nat :=
  (af.attackersOf place).filter fun attacker => !(attacker ∈ defeated)

theorem liveAttackers_eq_nil_iff {defeated : List Nat} {place : Nat} :
    af.liveAttackers defeated place = [] ↔
      ∀ attacker, af.hasAttack attacker place = true → attacker ∈ defeated := by
  simp only [liveAttackers, List.filter_eq_nil_iff, mem_attackersOf, Bool.not_eq_true',
    decide_eq_false_iff_not, not_not]

/-- A place that is newly defeated is one live attacker less for each place that it attacks. -/
theorem length_liveAttackers_cons {defeated : List Nat} {target place : Nat}
    (hnew : target ∉ defeated) :
    (af.liveAttackers defeated place).length =
      (af.liveAttackers (target :: defeated) place).length
        + if place ∈ af.attackedBy target then 1 else 0 := by
  have herase : af.liveAttackers (target :: defeated) place =
      (af.liveAttackers defeated place).erase target := by
    rw [liveAttackers, liveAttackers, ((af.nodup_attackersOf place).filter _).erase_eq_filter,
      List.filter_filter]
    refine List.filter_congr fun attacker _ => ?_
    by_cases htarget : attacker = target <;> simp [htarget]
  rw [herase]
  by_cases hattack : af.hasAttack target place = true
  · have hmem : target ∈ af.liveAttackers defeated place := by
      simp [liveAttackers, hattack, hnew]
    rw [if_pos (mem_attackedBy.mpr hattack), List.length_erase_of_mem hmem]
    have := List.length_pos_of_mem hmem
    omega
  · have hmem : target ∉ af.liveAttackers defeated place := by
      simp [liveAttackers, hattack]
    rw [if_neg (mt mem_attackedBy.mp hattack), List.erase_of_not_mem hmem, Nat.add_zero]

namespace Labelling

variable {l : Labelling}

def liveAt (l : Labelling) (place : Nat) : Nat := l.live.getD place 0

theorem liveAt_release (place other : Nat) :
    (l.release place).liveAt other =
      if other = place then l.liveAt place - 1 else l.liveAt other := by
  by_cases hsame : other = place
  · subst hsame
    by_cases hlength : other < l.live.length <;>
      simp [release, liveAt, List.getD_eq_getElem?_getD, hlength]
  · simp [release, liveAt, List.getD_eq_getElem?_getD, hsame, Ne.symm hsame]

theorem pending_release {place : Nat} :
    (l.release place).pending =
      if l.liveAt place - 1 = 0 then place :: l.pending else l.pending := rfl

/-! ### The counters -/

/-- The counters of a labelling are right but for the releases that are due, and the places without
a live attacker are waiting or accepted, each of them once. -/
structure Accurate (af : Framework) (due : List Nat) (l : Labelling) : Prop where
  live : ∀ place, l.liveAt place =
    (af.liveAttackers l.defeated place).length + if place ∈ due then 1 else 0
  ready : ∀ place, place ∈ l.pending ++ l.accepted ↔ place < af.size ∧ l.liveAt place = 0
  once : (l.pending ++ l.accepted).Nodup

theorem Accurate.mem_ready_iff (hl : Accurate af [] l) {place : Nat} :
    place ∈ l.pending ++ l.accepted ↔
      place < af.size ∧ ∀ attacker, af.hasAttack attacker place = true → attacker ∈ l.defeated := by
  rw [hl.ready, hl.live, if_neg List.not_mem_nil, Nat.add_zero, List.length_eq_zero_iff,
    liveAttackers_eq_nil_iff]

theorem Accurate.length_le {due : List Nat} (hl : Accurate af due l) :
    (l.pending ++ l.accepted).length ≤ af.size := by
  have hsub : l.pending ++ l.accepted ⊆ List.range af.size := fun place hplace =>
    List.mem_range.mpr ((hl.ready place).mp hplace).1
  simpa using (hl.once.subperm hsub).length_le

theorem accurate_unlabelled (af : Framework) : Accurate af [] af.unlabelled := by
  have hlive : ∀ place, af.unlabelled.liveAt place = (af.attackersOf place).length := by
    intro place
    by_cases hplace : place < af.size
    · simp [unlabelled, liveAt, List.getD_eq_getElem?_getD, hplace]
    · have hnone : af.attackersOf place = [] :=
        List.eq_nil_iff_forall_not_mem.mpr fun attacker hattacker =>
          hplace (lt_size_of_hasAttack (mem_attackersOf.mp hattacker)).2
      simp [unlabelled, liveAt, List.getD_eq_getElem?_getD, hplace, hnone]
  constructor
  · intro place
    rw [hlive]
    simp [unlabelled, liveAttackers]
  · intro place
    rw [hlive]
    simp [unlabelled]
  · simpa [unlabelled] using List.nodup_range.filter _

/-- The counter of a place whose release is due is not zero yet, so nothing is lost by the
subtraction, and the place is not ready yet. -/
theorem Accurate.release {place : Nat} {due : List Nat} (hl : Accurate af (place :: due) l)
    (hdue : place ∉ due) (hsize : place < af.size) : Accurate af due (l.release place) := by
  have hlive : l.liveAt place = (af.liveAttackers l.defeated place).length + 1 := by
    rw [hl.live, if_pos List.mem_cons_self]
  have hunready : place ∉ l.pending ++ l.accepted := by
    rw [hl.ready]
    omega
  have hpending : (l.release place).pending ++ (l.release place).accepted =
      if (l.release place).liveAt place = 0 then place :: (l.pending ++ l.accepted)
      else l.pending ++ l.accepted := by
    rw [pending_release, liveAt_release, if_pos rfl]
    split <;> rfl
  constructor
  · intro other
    change (l.release place).liveAt other = (af.liveAttackers l.defeated other).length + _
    rw [liveAt_release]
    by_cases hsame : other = place
    · subst hsame
      rw [if_pos rfl, if_neg hdue, hlive]
      rfl
    · rw [if_neg hsame, hl.live]
      simp [hsame]
  · intro other
    rw [hpending]
    by_cases hsame : other = place
    · subst hsame
      split <;> simp_all
    · rw [liveAt_release place other, if_neg hsame, ← hl.ready]
      split <;> simp [hsame]
  · rw [hpending]
    split
    · exact List.nodup_cons.mpr ⟨hunready, hl.once⟩
    · exact hl.once

theorem Accurate.releaseAll {due : List Nat} (hl : Accurate af due l) (hdistinct : due.Nodup)
    (hsize : ∀ place ∈ due, place < af.size) : Accurate af [] (due.foldl Labelling.release l) := by
  induction due generalizing l with
  | nil => exact hl
  | cons place due ih =>
      obtain ⟨hdue, hdistinct⟩ := List.nodup_cons.mp hdistinct
      obtain ⟨hplace, hsize⟩ := List.forall_mem_cons.mp hsize
      exact ih (hl.release hdue hplace) hdistinct hsize

/-- When a place is defeated, the releases of the places that it attacks fall due. -/
theorem Accurate.mark (hl : Accurate af [] l) {target : Nat} (hnew : target ∉ l.defeated) :
    Accurate af (af.attackedBy target) { l with defeated := target :: l.defeated } :=
  ⟨fun place => (hl.live place).trans (length_liveAttackers_cons hnew), hl.ready, hl.once⟩

theorem lt_size_of_mem_attackedBy {target : Nat} :
    ∀ place ∈ af.attackedBy target, place < af.size :=
  fun _ hplace => (lt_size_of_hasAttack (mem_attackedBy.mp hplace)).2

theorem defeat_of_mem {target : Nat} (hdefeated : target ∈ l.defeated) : l.defeat af target = l :=
  if_pos hdefeated

theorem defeat_of_not_mem {target : Nat} (hnew : target ∉ l.defeated) :
    l.defeat af target =
      (af.attackedBy target).foldl Labelling.release { l with defeated := target :: l.defeated } :=
  if_neg hnew

theorem Accurate.defeat (hl : Accurate af [] l) (target : Nat) :
    Accurate af [] (l.defeat af target) := by
  by_cases hdefeated : target ∈ l.defeated
  · rwa [defeat_of_mem hdefeated]
  · rw [defeat_of_not_mem hdefeated]
    exact (hl.mark hdefeated).releaseAll (af.nodup_attackedBy target) lt_size_of_mem_attackedBy

theorem Accurate.defeatAll (hl : Accurate af [] l) (targets : List Nat) :
    Accurate af [] (targets.foldl (Labelling.defeat af) l) := by
  induction targets generalizing l with
  | nil => exact hl
  | cons target targets ih => exact ih (hl.defeat target)

/-- The place that waits next is accepted instead. -/
theorem Accurate.accept (hl : Accurate af [] l) {place : Nat} {pending : List Nat}
    (hpending : l.pending = place :: pending) :
    Accurate af [] { l with pending, accepted := place :: l.accepted } := by
  have hmoved : (pending ++ place :: l.accepted).Perm (l.pending ++ l.accepted) := by
    rw [hpending]
    exact List.perm_middle
  exact ⟨hl.live, fun other => hmoved.mem_iff.trans (hl.ready other), hmoved.nodup_iff.mpr hl.once⟩

theorem Accurate.advance (hl : Accurate af [] l) : Accurate af [] (l.advance af) := by
  unfold Labelling.advance
  split
  · exact hl
  · rename_i place pending hpending
    exact (hl.accept hpending).defeatAll (af.attackedBy place)

/-! ### The defeated places -/

theorem accepted_releaseAll (due : List Nat) (l : Labelling) :
    (due.foldl Labelling.release l).accepted = l.accepted := by
  induction due generalizing l with
  | nil => rfl
  | cons place due ih => exact ih (l.release place)

theorem defeated_releaseAll (due : List Nat) (l : Labelling) :
    (due.foldl Labelling.release l).defeated = l.defeated := by
  induction due generalizing l with
  | nil => rfl
  | cons place due ih => exact ih (l.release place)

theorem accepted_defeatAll (targets : List Nat) (l : Labelling) :
    (targets.foldl (defeat af) l).accepted = l.accepted := by
  induction targets generalizing l with
  | nil => rfl
  | cons target targets ih =>
      rw [List.foldl_cons, ih, defeat]
      split
      · rfl
      · exact accepted_releaseAll _ _

theorem mem_defeated_defeat {target other : Nat} :
    other ∈ (l.defeat af target).defeated ↔ other = target ∨ other ∈ l.defeated := by
  unfold Labelling.defeat
  split
  · rename_i hdefeated
    refine (or_iff_right_of_imp ?_).symm
    rintro rfl
    exact hdefeated
  · rw [defeated_releaseAll]
    exact List.mem_cons

theorem mem_defeated_defeatAll {targets : List Nat} {other : Nat} :
    other ∈ (targets.foldl (defeat af) l).defeated ↔ other ∈ targets ∨ other ∈ l.defeated := by
  induction targets generalizing l with
  | nil => simp
  | cons target targets ih =>
      rw [List.foldl_cons, ih, mem_defeated_defeat, List.mem_cons, or_left_comm, or_assoc]

/-! ### Rounds -/

theorem advance_of_nil (h : l.pending = []) : l.advance af = l := by
  rw [advance, h]

theorem accepted_advance {place : Nat} {pending : List Nat} (h : l.pending = place :: pending) :
    (l.advance af).accepted = place :: l.accepted := by
  rw [advance, h]
  exact accepted_defeatAll _ _

theorem mem_defeated_advance {place other : Nat} {pending : List Nat}
    (h : l.pending = place :: pending) :
    other ∈ (l.advance af).defeated ↔ af.hasAttack place other = true ∨ other ∈ l.defeated := by
  rw [advance, h]
  exact mem_defeated_defeatAll.trans (or_congr_left mem_attackedBy)

/-- Between rounds the counters are right and the accepted places have defeated what they attack. -/
structure Valid (af : Framework) (l : Labelling) : Prop extends Accurate af [] l where
  defeat_iff : ∀ target, target ∈ l.defeated ↔ ∃ a ∈ l.accepted, af.hasAttack a target = true

theorem Valid.advance (hl : Valid af l) : Valid af (l.advance af) := by
  refine ⟨hl.toAccurate.advance, fun target => ?_⟩
  cases hpending : l.pending with
  | nil =>
      rw [advance_of_nil hpending]
      exact hl.defeat_iff target
  | cons place pending =>
      rw [mem_defeated_advance hpending, accepted_advance hpending, hl.defeat_iff,
        List.exists_mem_cons_iff]

theorem valid_labelling (af : Framework) (rounds : Nat) : Valid af (af.labelling rounds) := by
  induction rounds with
  | zero => exact ⟨accurate_unlabelled af, by simp [labelling, unlabelled]⟩
  | succ rounds ih => exact ih.advance

theorem Valid.mem_ready_iff_characteristic (hl : Valid af l) {place : Nat} :
    place ∈ l.pending ++ l.accepted ↔ af.Characteristic (· ∈ l.accepted) place := by
  rw [hl.toAccurate.mem_ready_iff]
  refine and_congr_right fun _ => forall₂_congr fun attacker _ => ?_
  exact hl.defeat_iff attacker

end Labelling

open Labelling

theorem labelling_add_of_nil {rounds : Nat} (hnone : (af.labelling rounds).pending = [])
    (more : Nat) : af.labelling (rounds + more) = af.labelling rounds := by
  induction more with
  | zero => rfl
  | succ more ih => rw [← Nat.add_assoc, labelling, ih, advance_of_nil hnone]

/-- Every round accepts a place until none waits. -/
theorem length_accepted_labelling (af : Framework) (rounds : Nat) :
    (af.labelling rounds).pending = [] ∨ (af.labelling rounds).accepted.length = rounds := by
  induction rounds with
  | zero => exact .inr rfl
  | succ rounds ih =>
      rw [labelling]
      cases hpending : (af.labelling rounds).pending with
      | nil => exact .inl ((advance_of_nil hpending).symm ▸ hpending)
      | cons place pending =>
          rw [hpending] at ih
          right
          rw [accepted_advance hpending, List.length_cons, ih.resolve_left (List.cons_ne_nil _ _)]

theorem pending_labelling_size (af : Framework) : (af.labelling af.size).pending = [] := by
  rcases length_accepted_labelling af af.size with hnone | hall
  · exact hnone
  · have hbound := (valid_labelling af af.size).length_le
    rw [List.length_append, hall] at hbound
    exact List.eq_nil_of_length_eq_zero (by omega)

/-! ### The grounded extension -/

theorem mem_groundedPlaces_iff_characteristic {place : Nat} :
    place ∈ af.groundedPlaces ↔ af.Characteristic (· ∈ af.groundedPlaces) place := by
  have hready :
      place ∈ (af.labelling af.size).pending ++ (af.labelling af.size).accepted ↔
        af.Characteristic (· ∈ (af.labelling af.size).accepted) place :=
    (valid_labelling af af.size).mem_ready_iff_characteristic
  rwa [pending_labelling_size, List.nil_append] at hready

/-- What is accepted was defended by what was accepted before, so no set that holds all it defends
can lack it. -/
theorem accepted_labelling_subset {s : Nat → Prop} (hclosed : ∀ a, af.Characteristic s a → s a)
    (rounds : Nat) : ∀ place ∈ (af.labelling rounds).accepted, s place := by
  induction rounds with
  | zero => simp [labelling, unlabelled]
  | succ rounds ih =>
      rw [labelling]
      cases hpending : (af.labelling rounds).pending with
      | nil =>
          rw [advance_of_nil hpending]
          exact ih
      | cons place pending =>
          rw [accepted_advance hpending]
          refine List.forall_mem_cons.mpr ⟨hclosed place ?_, ih⟩
          have hwaits : place ∈ (af.labelling rounds).pending ++ (af.labelling rounds).accepted :=
            List.mem_append_left _ (hpending ▸ List.mem_cons_self)
          have hdefended := (valid_labelling af rounds).mem_ready_iff_characteristic.mp hwaits
          exact ⟨hdefended.1, hdefended.2.mono ih⟩

theorem groundedPlaces_subset {s : Nat → Prop} (hclosed : ∀ a, af.Characteristic s a → s a) :
    ∀ place ∈ af.groundedPlaces, s place :=
  accepted_labelling_subset hclosed af.size

theorem complete_groundedPlaces (af : Framework) : af.Complete (· ∈ af.groundedPlaces) := by
  obtain ⟨t, ht, -⟩ := (admissible_empty af).exists_complete
  have hsub : ∀ place ∈ af.groundedPlaces, t place :=
    groundedPlaces_subset fun a ha => ht.closed a ha.1 ha.2
  refine ⟨⟨fun a ha => ?_, fun a b ha hb => ?_, fun a ha => ?_⟩, fun a hsize ha => ?_⟩
  · exact (mem_groundedPlaces_iff_characteristic.mp ha).1
  · exact ht.conflictFree a b (hsub a ha) (hsub b hb)
  · exact (mem_groundedPlaces_iff_characteristic.mp ha).2
  · exact mem_groundedPlaces_iff_characteristic.mpr ⟨hsize, ha⟩

/-- **The grounded places are those that all complete extensions share.** -/
theorem mem_groundedPlaces_iff_complete {place : Nat} :
    place ∈ af.groundedPlaces ↔ ∀ s, af.Complete s → s place := by
  constructor
  · intro hplace s hs
    exact groundedPlaces_subset (fun a ha => hs.closed a ha.1 ha.2) place hplace
  · exact fun h => h _ (complete_groundedPlaces af)

end SolverAudit.Framework
