import SolverAudit.Proofs.Argument.Grounded
import SolverAudit.Proofs.Argument.Reset

/-!
# Isolated arguments

A fresh argument neither attacks nor is attacked, so it is in conflict with nothing and needs no
defense: it can join every admissible set or stay away from it, and it is accepted at once. The
search and the acceptance both start afresh on the larger framework, with one place more to decide
and one place more that waits, and still find the former sets with and without it.
-/

namespace SolverAudit.Framework

/-- The second framework has the arguments and attacks of the first one, and after them a fresh
argument that no attack is about. -/
structure Isolates (af : Framework) (a : Argument) (af' : Framework) : Prop where
  fresh : a ∉ af.arguments
  arguments_eq : af'.arguments = af.arguments ++ [a]
  attacks_eq : af'.attacks = af.attacks

theorem isolates_of_addArgument {af af' : Framework} {a : Argument}
    (h : af.addArgument a = .ok af') : Isolates af a af' := by
  obtain ⟨hfresh, harguments, hattacks⟩ := addArgument_eq_ok h
  exact ⟨hfresh, harguments, hattacks⟩

namespace Isolates

variable {af af' : Framework} {a b : Argument} {i j place : Nat} {s : Nat → Prop}

/-! ### The place of the argument -/

theorem size_eq (h : Isolates af a af') : af'.size = af.size + 1 := by
  simp [size, h.arguments_eq]

theorem hasAttack_eq (h : Isolates af a af') : af'.hasAttack i j = af.hasAttack i j := by
  rw [hasAttack, hasAttack, h.attacks_eq]

theorem argument?_eq_some (h : Isolates af a af') :
    af'.argument? place = some b ↔ af.argument? place = some b ∨ place = af.size ∧ b = a := by
  simp only [argument?, h.arguments_eq]
  rcases Nat.lt_trichotomy place af.size with hlt | rfl | hgt
  · have hne : place ≠ af.size := by omega
    rw [List.getElem?_append_left hlt]
    simp [hne]
  · simp [size, eq_comm]
  · have hne : place ≠ af.size := by omega
    have hnone : af.arguments[place]? = none := List.getElem?_eq_none (by rw [size] at hgt; omega)
    have hnone' : (af.arguments ++ [a])[place]? = none := by
      apply List.getElem?_eq_none
      rw [size] at hgt
      simpa using hgt
    simp [hnone, hnone', hne]

/-! ### Admissible sets -/

/-- The argument counters no attack, so a set defends the same with and without it. -/
theorem defends_iff (h : Isolates af a af') :
    af'.Defends s i ↔ af.Defends (fun x => s x ∧ x ≠ af.size) i := by
  simp only [Defends, h.hasAttack_eq]
  refine forall₂_congr fun attacker _ => exists_congr fun defender => ?_
  constructor
  · rintro ⟨hdefender, hcounter⟩
    exact ⟨⟨hdefender, (lt_size_of_hasAttack hcounter).1.ne⟩, hcounter⟩
  · rintro ⟨⟨hdefender, -⟩, hcounter⟩
    exact ⟨hdefender, hcounter⟩

theorem conflictFree_iff (h : Isolates af a af') :
    af'.ConflictFree s ↔ af.ConflictFree fun x => s x ∧ x ≠ af.size := by
  simp only [ConflictFree, h.hasAttack_eq]
  constructor
  · rintro hfree i j ⟨hi, -⟩ ⟨hj, -⟩
    exact hfree i j hi hj
  · intro hfree i j hi hj hattack
    obtain ⟨hi', hj'⟩ := lt_size_of_hasAttack hattack
    exact hfree i j ⟨hi, hi'.ne⟩ ⟨hj, hj'.ne⟩ hattack

/-- Whether a set is admissible does not depend on the argument being in it. -/
theorem admissible_iff (h : Isolates af a af') :
    af'.Admissible s ↔ af.Admissible fun x => s x ∧ x ≠ af.size := by
  constructor
  · rintro ⟨hwithin, hfree, hdefended⟩
    refine ⟨fun x hx => ?_, h.conflictFree_iff.mp hfree, fun x hx => ?_⟩
    · have hlt := hwithin x hx.1
      rw [h.size_eq] at hlt
      exact Nat.lt_of_le_of_ne (Nat.le_of_lt_succ hlt) hx.2
    · exact h.defends_iff.mp (hdefended x hx.1)
  · rintro ⟨hwithin, hfree, hdefended⟩
    refine ⟨fun x hx => ?_, h.conflictFree_iff.mpr hfree, fun x hx => ?_⟩
    · rw [h.size_eq]
      by_cases hsame : x = af.size
      · omega
      · exact Nat.lt_succ_of_lt (hwithin x ⟨hx, hsame⟩)
    · apply h.defends_iff.mpr
      by_cases hsame : x = af.size
      · intro attacker hattack
        exact absurd (lt_size_of_hasAttack hattack).2 (by omega)
      · exact hdefended x ⟨hx, hsame⟩

theorem admissible_erase_iff (h : Isolates af a af') {s : Finset Nat} :
    af'.Admissible (· ∈ s) ↔ af.Admissible (· ∈ s.erase af.size) := by
  have hsame : (fun x => x ∈ s ∧ x ≠ af.size) = (· ∈ s.erase af.size) := by
    funext x
    rw [Finset.mem_erase, and_comm]
  rw [h.admissible_iff, hsame]

/-! ### Extensions -/

theorem mem_extensionOf_iff (h : Isolates af a af') {s : Finset Nat} :
    b ∈ af'.extensionOf s ↔ b ∈ af.extensionOf (s.erase af.size) ∨ af.size ∈ s ∧ b = a := by
  simp only [mem_extensionOf, h.argument?_eq_some, Finset.mem_erase]
  constructor
  · rintro ⟨place, hplace, hb | ⟨rfl, rfl⟩⟩
    · have hlt : place < af.size := (List.getElem?_eq_some_iff.mp hb).1
      exact .inl ⟨place, ⟨hlt.ne, hplace⟩, hb⟩
    · exact .inr ⟨hplace, rfl⟩
  · rintro (⟨place, ⟨-, hplace⟩, hb⟩ | ⟨hsize, rfl⟩)
    · exact ⟨place, hplace, .inl hb⟩
    · exact ⟨af.size, hsize, .inr ⟨rfl, rfl⟩⟩

theorem extensionOf_of_mem (h : Isolates af a af') {s : Finset Nat} (hs : af.size ∈ s) :
    af'.extensionOf s = (af.extensionOf (s.erase af.size)).insert a := by
  refine OrderedSet.ext fun b => ?_
  simp only [h.mem_extensionOf_iff, OrderedSet.mem_insert, hs, true_and, or_comm]

theorem extensionOf_of_not_mem (h : Isolates af a af') {s : Finset Nat} (hs : af.size ∉ s) :
    af'.extensionOf s = af.extensionOf (s.erase af.size) := by
  refine OrderedSet.ext fun b => ?_
  simp only [h.mem_extensionOf_iff, hs, false_and, or_false]

/-- Each extension is a former one, or a former one that the argument has joined. -/
theorem extensions_eq (h : Isolates af a af') :
    af'.extensions = af.extensions.union (af.extensions.image fun e => e.insert a) := by
  refine OrderedSet.ext fun e => ?_
  simp only [OrderedSet.mem_union, OrderedSet.mem_image, mem_extensions_iff]
  constructor
  · rintro ⟨s, hs, rfl⟩
    have hformer := h.admissible_erase_iff.mp hs
    by_cases hsize : af.size ∈ s
    · exact .inr ⟨_, ⟨_, hformer, rfl⟩, (h.extensionOf_of_mem hsize).symm⟩
    · exact .inl ⟨_, hformer, (h.extensionOf_of_not_mem hsize).symm⟩
  · rintro (⟨s, hs, rfl⟩ | ⟨_, ⟨s, hs, rfl⟩, rfl⟩)
    · have hsize : af.size ∉ s := fun hmem => (hs.within _ hmem).false
      have herase : s.erase af.size = s := Finset.erase_eq_of_notMem hsize
      refine ⟨s, ?_, ?_⟩
      · rwa [h.admissible_erase_iff, herase]
      · rw [h.extensionOf_of_not_mem hsize, herase]
    · have hsize : af.size ∉ s := fun hmem => (hs.within _ hmem).false
      have herase : (insert af.size s).erase af.size = s := Finset.erase_insert hsize
      refine ⟨insert af.size s, ?_, ?_⟩
      · rwa [h.admissible_erase_iff, herase]
      · rw [h.extensionOf_of_mem (Finset.mem_insert_self _ _), herase]

theorem not_mem_of_mem_extensions (h : Isolates af a af') {e : OrderedSet Argument}
    (he : e ∈ af.extensions) : a ∉ e :=
  fun ha => h.fresh (mem_arguments_of_mem_extensions he ha)

/-- The argument tells the new extensions from the former ones, and these from each other. -/
theorem size_extensions (h : Isolates af a af') :
    af'.extensions.size = 2 * af.extensions.size := by
  have hapart : ∀ e ∈ af.extensions, e ∉ af.extensions.image fun e => e.insert a := by
    intro e he hjoined
    obtain ⟨d, -, rfl⟩ := OrderedSet.mem_image.mp hjoined
    exact h.not_mem_of_mem_extensions he (OrderedSet.mem_insert.mpr (.inl rfl))
  have hinj : ∀ d ∈ af.extensions, ∀ e ∈ af.extensions, d.insert a = e.insert a → d = e := by
    intro d hd e he hsame
    refine OrderedSet.ext fun b => ?_
    by_cases hb : b = a
    · subst hb
      exact iff_of_false (h.not_mem_of_mem_extensions hd) (h.not_mem_of_mem_extensions he)
    · have hmem : b ∈ d.insert a ↔ b ∈ e.insert a := by rw [hsame]
      simpa [hb] using hmem
  calc
    af'.extensions.size =
        af.extensions.size + (af.extensions.image fun e => e.insert a).size := by
      rw [h.extensions_eq, OrderedSet.size_union hapart]
    _ = af.extensions.size + af.extensions.size := by rw [OrderedSet.size_image hinj]
    _ = 2 * af.extensions.size := by omega

/-! ### The grounded extension -/

theorem characteristic_iff (h : Isolates af a af') :
    af'.Characteristic s place ↔
      af.Characteristic (fun x => s x ∧ x ≠ af.size) place ∨ place = af.size := by
  rw [Characteristic, Characteristic, h.size_eq, h.defends_iff]
  constructor
  · rintro ⟨hlt, hdefends⟩
    by_cases hsame : place = af.size
    · exact .inr hsame
    · exact .inl ⟨by omega, hdefends⟩
  · rintro (⟨hlt, hdefends⟩ | rfl)
    · exact ⟨by omega, hdefends⟩
    · refine ⟨by omega, fun attacker hattack => ?_⟩
      exact absurd (lt_size_of_hasAttack hattack).2 (by omega)

/-- The grounded places of both frameworks lie in whatever holds what it defends, so each framework
is compared with the grounded places of the other one. -/
theorem mem_groundedPlaces_iff (h : Isolates af a af') :
    place ∈ af'.groundedPlaces ↔ place ∈ af.groundedPlaces ∨ place = af.size := by
  constructor
  · have hclosed : ∀ x, af'.Characteristic (fun x => x ∈ af.groundedPlaces ∨ x = af.size) x →
        x ∈ af.groundedPlaces ∨ x = af.size := by
      intro x hx
      refine (h.characteristic_iff.mp hx).imp_left fun hdefended => ?_
      apply mem_groundedPlaces_iff_characteristic.mpr
      exact ⟨hdefended.1, hdefended.2.mono fun y hy => hy.1.resolve_right hy.2⟩
    exact groundedPlaces_subset hclosed place
  · rintro (hplace | rfl)
    · have hclosed : ∀ x,
          af.Characteristic (· ∈ af'.groundedPlaces) x → x ∈ af'.groundedPlaces := by
        intro x hx
        apply mem_groundedPlaces_iff_characteristic.mpr
        refine h.characteristic_iff.mpr (.inl ⟨hx.1, fun attacker hattack => ?_⟩)
        obtain ⟨defender, hdefender, hcounter⟩ := hx.2 attacker hattack
        exact ⟨defender, ⟨hdefender, (lt_size_of_hasAttack hcounter).1.ne⟩, hcounter⟩
      exact groundedPlaces_subset hclosed place hplace
    · apply mem_groundedPlaces_iff_characteristic.mpr
      exact h.characteristic_iff.mpr (.inr rfl)

theorem grounded_eq (h : Isolates af a af') : af'.grounded = af.grounded.insert a := by
  refine OrderedSet.ext fun b => ?_
  simp only [grounded, mem_argumentSet, OrderedSet.mem_insert, h.mem_groundedPlaces_iff,
    h.argument?_eq_some]
  constructor
  · rintro ⟨place, hplace, hb | ⟨-, rfl⟩⟩
    · have hlt : place < af.size := (List.getElem?_eq_some_iff.mp hb).1
      exact .inr ⟨place, hplace.resolve_right hlt.ne, hb⟩
    · exact .inl rfl
  · rintro (rfl | ⟨place, hplace, hb⟩)
    · exact ⟨af.size, .inr rfl, .inr ⟨rfl, rfl⟩⟩
    · exact ⟨place, .inl hplace, .inl hb⟩

end Isolates

/-! ### Main statement -/

/-- The argument has joined the grounded extension, and a copy of each extension. -/
structure Doubles (af : Framework) (a : Argument) (af' : Framework) : Prop where
  extensions_eq : af'.extensions = af.extensions.union (af.extensions.image fun e => e.insert a)
  size_eq : af'.extensions.size = 2 * af.extensions.size
  grounded_eq : af'.grounded = af.grounded.insert a

theorem Isolates.doubles {af af' : Framework} {a : Argument} (h : Isolates af a af') :
    Doubles af a af' :=
  ⟨h.extensions_eq, h.size_extensions, h.grounded_eq⟩

/-- **An isolated argument joins or stays away.** Any fresh argument can be added without attacks.
The extensions then are the former ones, with and without it, twice as many as before, and it joins
the grounded extension. So does the argument that a growth adds. -/
theorem fresh_argument_doubles (af : Framework) :
    (∀ a, a ∉ af.arguments → ∃ af', af.addArgument a = .ok af' ∧ Isolates af a af'
        ∧ Doubles af a af')
      ∧ ∀ (σ : Type) (before after : Context σ) (af' : Framework),
        (newArgument.grow af).run before = (.ok af', after) →
          Isolates af (before.registry.intern (placeLabel af.size)).1 af'
            ∧ Doubles af (before.registry.intern (placeLabel af.size)).1 af' := by
  constructor
  · intro a hfresh
    obtain ⟨af', hadd, -⟩ := addArgument_of_not_mem hfresh
    have hisolates := isolates_of_addArgument hadd
    exact ⟨af', hadd, hisolates, hisolates.doubles⟩
  · intro σ before after af' hrun
    have hisolates := isolates_of_addArgument (run_newArgument_eq_ok.mp hrun).1
    exact ⟨hisolates, hisolates.doubles⟩

theorem fresh_argument_doubles_self :
    let af : Framework :=
      ⟨[⟨0, "a0"⟩, ⟨1, "a1"⟩], [⟨0, 0⟩, ⟨0, 1⟩], by decide, by decide, by decide⟩
    let a : Argument := ⟨7, "b"⟩
    a ∉ af.arguments ∧ af.extensions.size = 1
      ∧ ∃ af', af.addArgument a = .ok af' ∧ af'.extensions.size = 2
        ∧ ∀ b, b ∈ af'.grounded ↔ b = a := by
  intro af a
  have hfresh : a ∉ af.arguments := by decide
  have hadmissible : af.admissiblePlaces = [[]] := by decide
  have hsize : af.extensions.size = 1 := by
    rw [extensions_eq_ofList, hadmissible]
    exact OrderedSet.size_ofList_singleton _
  have hnone : af.groundedPlaces = [] := by decide
  obtain ⟨af', hadd, -, hdoubles⟩ := (fresh_argument_doubles af).1 a hfresh
  refine ⟨hfresh, hsize, af', hadd, ?_, fun b => ?_⟩
  · rw [hdoubles.size_eq, hsize]
  · rw [hdoubles.grounded_eq, OrderedSet.mem_insert, grounded, hnone, mem_argumentSet]
    simp

end SolverAudit.Framework
