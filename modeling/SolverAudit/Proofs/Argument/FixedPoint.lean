import Mathlib
import SolverAudit.Proofs.Argument.Grounded

/-!
# The grounded extension as a least fixed point

The loop of acceptance goes on until nothing waits, and counts attackers down as it does. Since the
counters are right, none is counted below zero, and since every round accepts another place, the
loop ends. What it has accepted then is the least set that the characteristic function maps to
itself, which knows neither the order of the attacks nor that of the stack.
-/

namespace SolverAudit.Framework

variable {af bf : Framework}

namespace Labelling

variable {l l' : Labelling}

/-! ### Rounds that count nothing below zero -/

/-- A release, unless the counter of the place is at zero. -/
def release? (l : Labelling) (place : Nat) : Option Labelling :=
  if l.liveAt place = 0 then none else some (l.release place)

def defeat? (af : Framework) (l : Labelling) (place : Nat) : Option Labelling :=
  if place ∈ l.defeated then some l
  else (af.attackedBy place).foldlM release? { l with defeated := place :: l.defeated }

/-- A round of the loop; none if a counter would have to fall below zero. -/
def advance? (af : Framework) (l : Labelling) : Option Labelling :=
  match l.pending with
  | [] => some l
  | place :: pending =>
    (af.attackedBy place).foldlM (defeat? af) { l with pending, accepted := place :: l.accepted }

theorem Accurate.releaseAll?_eq_some {due : List Nat} (hl : Accurate af due l)
    (hdistinct : due.Nodup) (hsize : ∀ place ∈ due, place < af.size) :
    due.foldlM release? l = some (due.foldl Labelling.release l) := by
  induction due generalizing l with
  | nil => rfl
  | cons place due ih =>
      obtain ⟨hdue, hdistinct⟩ := List.nodup_cons.mp hdistinct
      obtain ⟨hplace, hsize⟩ := List.forall_mem_cons.mp hsize
      have hcounted : l.liveAt place ≠ 0 := by
        rw [hl.live, if_pos List.mem_cons_self]
        exact Nat.succ_ne_zero _
      rw [List.foldlM_cons, release?, if_neg hcounted]
      exact ih (hl.release hdue hplace) hdistinct hsize

theorem Accurate.defeat?_eq_some (hl : Accurate af [] l) (target : Nat) :
    l.defeat? af target = some (l.defeat af target) := by
  unfold Labelling.defeat? Labelling.defeat
  split
  · rfl
  · rename_i hnew
    exact (hl.mark hnew).releaseAll?_eq_some (af.nodup_attackedBy target) lt_size_of_mem_attackedBy

theorem Accurate.defeatAll?_eq_some (hl : Accurate af [] l) (targets : List Nat) :
    targets.foldlM (defeat? af) l = some (targets.foldl (Labelling.defeat af) l) := by
  induction targets generalizing l with
  | nil => rfl
  | cons target targets ih =>
      rw [List.foldlM_cons, hl.defeat?_eq_some]
      exact ih (hl.defeat target)

theorem Accurate.advance?_eq_some (hl : Accurate af [] l) :
    l.advance? af = some (l.advance af) := by
  cases hpending : l.pending with
  | nil => rw [advance?, hpending, advance_of_nil hpending]
  | cons place pending =>
      rw [advance?, Labelling.advance, hpending]
      exact (hl.accept hpending).defeatAll?_eq_some (af.attackedBy place)

/-! ### The loop -/

/-- The loop makes so many rounds until nothing waits, and counts nothing below zero in them. -/
inductive Settles (af : Framework) : Nat → Labelling → Labelling → Prop where
  | done {l : Labelling} (hnone : l.pending = []) : Settles af 0 l l
  | round {rounds : Nat} {l between l' : Labelling} (hwaits : l.pending ≠ [])
      (hround : l.advance? af = some between) (hrest : Settles af rounds between l') :
      Settles af (rounds + 1) l l'

theorem Settles.length_accepted {rounds : Nat} (h : Settles af rounds l l')
    (hl : Accurate af [] l) : l'.accepted.length = l.accepted.length + rounds := by
  induction h with
  | done => rfl
  | round hwaits hround _ ih =>
      obtain rfl := Option.some.inj (hl.advance?_eq_some.symm.trans hround)
      obtain ⟨place, pending, hpending⟩ := List.exists_cons_of_ne_nil hwaits
      rw [ih hl.advance, accepted_advance hpending, List.length_cons]
      omega

end Labelling

open Labelling

theorem exists_settles_labelling {start more : Nat}
    (hnone : (af.labelling (start + more)).pending = []) :
    ∃ rounds ≤ more, Settles af rounds (af.labelling start) (af.labelling (start + more)) := by
  induction more generalizing start with
  | zero => exact ⟨0, Nat.le_refl 0, .done hnone⟩
  | succ more ih =>
      by_cases hwaits : (af.labelling start).pending = []
      · rw [labelling_add_of_nil hwaits]
        exact ⟨0, Nat.zero_le _, .done hwaits⟩
      · have hshift : start + (more + 1) = start + 1 + more := Nat.add_right_comm start more 1
        rw [hshift] at hnone ⊢
        obtain ⟨rounds, hle, hrest⟩ := ih hnone
        have hround := (valid_labelling af start).toAccurate.advance?_eq_some
        exact ⟨rounds + 1, Nat.succ_le_succ hle, .round hwaits hround hrest⟩

/-- The loop ends, after a round for each place of the grounded extension. -/
theorem settles_groundedPlaces (af : Framework) :
    Settles af af.groundedPlaces.length af.unlabelled (af.labelling af.size) := by
  have hnone : (af.labelling (0 + af.size)).pending = [] := by
    rw [Nat.zero_add]
    exact pending_labelling_size af
  obtain ⟨rounds, -, hsettles⟩ := exists_settles_labelling hnone
  rw [Nat.zero_add] at hsettles
  have hlength := hsettles.length_accepted (accurate_unlabelled af)
  change af.groundedPlaces.length = 0 + rounds at hlength
  rw [Nat.zero_add] at hlength
  rw [hlength]
  exact hsettles

theorem length_groundedPlaces_le (af : Framework) : af.groundedPlaces.length ≤ af.size := by
  have hbound := (valid_labelling af af.size).length_le
  rw [List.length_append] at hbound
  exact (Nat.le_add_left _ _).trans hbound

/-! ### The characteristic function -/

theorem Characteristic.mono {s t : Nat → Prop} {a : Nat} (h : af.Characteristic s a)
    (hsub : ∀ x, s x → t x) : af.Characteristic t a :=
  ⟨h.1, h.2.mono hsub⟩

/-- A set is mapped to the arguments all of whose attackers it attacks. -/
def characteristic (af : Framework) : Set Nat →o Set Nat where
  toFun s := {a | af.Characteristic (· ∈ s) a}
  monotone' _ _ hsub _ ha := ha.mono hsub

theorem isLeast_groundedPlaces (af : Framework) :
    IsLeast (Function.fixedPoints af.characteristic) {a | a ∈ af.groundedPlaces} := by
  constructor
  · ext a
    exact mem_groundedPlaces_iff_characteristic.symm
  · intro s hs
    exact groundedPlaces_subset fun a ha => hs ▸ (ha : a ∈ af.characteristic s)

/-- The order in which attacks were added does not matter to the characteristic function. -/
theorem characteristic_congr (hsize : bf.size = af.size)
    (hattacks : ∀ i j, bf.hasAttack i j = af.hasAttack i j) :
    bf.characteristic = af.characteristic := by
  ext s a
  simp only [characteristic, Characteristic, Defends, hsize, hattacks]

theorem grounded_congr (harguments : bf.arguments = af.arguments)
    (hattacks : ∀ i j, bf.hasAttack i j = af.hasAttack i j) : bf.grounded = af.grounded := by
  have hsize : bf.size = af.size := congrArg List.length harguments
  have hplaces : {a | a ∈ bf.groundedPlaces} = {a | a ∈ af.groundedPlaces} := by
    have hleast := bf.isLeast_groundedPlaces
    rw [characteristic_congr hsize hattacks] at hleast
    exact hleast.unique af.isLeast_groundedPlaces
  have hargument? : bf.argument? = af.argument? := by
    funext place
    rw [argument?, argument?, harguments]
  rw [grounded, grounded, argumentSet_congr fun place => Set.ext_iff.mp hplaces place, argumentSet,
    argumentSet, hargument?]

/-! ### Main statement -/

/-- **The grounded extension is the least fixed point of the characteristic function.** The loop
ends after a round for each argument at most and counts nothing below zero, and its result has the
arguments at the places of the least fixed point. This set is complete and part of every complete
one. Frameworks that differ only in the order of their attacks have the same result. -/
theorem grounded_is_least_fixed_point (af : Framework) :
    (∃ rounds ≤ af.size, ∃ l, Settles af rounds af.unlabelled l
        ∧ af.argumentSet l.accepted = af.grounded)
      ∧ (∀ a, a ∈ af.grounded ↔ ∃ place ∈ af.characteristic.lfp, af.argument? place = some a)
      ∧ af.Complete (· ∈ af.characteristic.lfp)
      ∧ (∀ s, af.Complete s → ∀ place ∈ af.characteristic.lfp, s place)
      ∧ ∀ bf : Framework, bf.arguments = af.arguments →
        (∀ i j, bf.hasAttack i j = af.hasAttack i j) → bf.grounded = af.grounded := by
  have hleast : af.characteristic.lfp = {a | a ∈ af.groundedPlaces} :=
    af.characteristic.isLeast_lfp.unique af.isLeast_groundedPlaces
  rw [hleast]
  exact ⟨⟨_, length_groundedPlaces_le af, _, settles_groundedPlaces af, rfl⟩,
    fun _ => mem_argumentSet, complete_groundedPlaces af,
    fun _ hs _ hplace => mem_groundedPlaces_iff_complete.mp hplace _ hs,
    fun _ harguments hattacks => grounded_congr harguments hattacks⟩

theorem grounded_is_least_fixed_point_cycle :
    let arguments : List Argument := [⟨0, "a0"⟩, ⟨1, "a1"⟩, ⟨2, "a2"⟩, ⟨3, "a3"⟩, ⟨4, "a4"⟩]
    let af : Framework :=
      ⟨arguments, [⟨3, 4⟩, ⟨1, 2⟩, ⟨3, 3⟩, ⟨0, 1⟩, ⟨4, 3⟩], by decide, by decide, by decide⟩
    let bf : Framework :=
      ⟨arguments, [⟨0, 1⟩, ⟨1, 2⟩, ⟨3, 3⟩, ⟨3, 4⟩, ⟨4, 3⟩], by decide, by decide, by decide⟩
    (bf.arguments = af.arguments ∧ ∀ i j, bf.hasAttack i j = af.hasAttack i j)
      ∧ bf.grounded = af.grounded ∧ af.groundedPlaces = [2, 0]
      ∧ ∃ s, af.Complete s ∧ s 4 ∧ ∀ place ∈ af.characteristic.lfp, s place := by
  intro arguments af bf
  have hattacks : ∀ i j, bf.hasAttack i j = af.hasAttack i j := by
    have hperm : bf.attacks.Perm af.attacks := by decide
    exact fun i j => decide_eq_decide.mpr hperm.mem_iff
  have hadmissible : af.Admissible (· = 4) := by
    refine ⟨by rintro _ rfl; decide, by rintro _ _ rfl rfl; decide, ?_⟩
    rintro _ rfl attacker hattack
    have hmutual : ∀ i < 5, af.hasAttack i 4 = true → af.hasAttack 4 i = true := by decide
    exact ⟨4, rfl, hmutual attacker (lt_size_of_hasAttack hattack).1 hattack⟩
  obtain ⟨s, hs, hsub⟩ := hadmissible.exists_complete
  obtain ⟨-, -, -, hcomplete, hsame⟩ := grounded_is_least_fixed_point af
  exact ⟨⟨rfl, hattacks⟩, hsame bf rfl hattacks, by decide, s, hs, hsub 4 rfl, hcomplete s hs⟩

end SolverAudit.Framework
