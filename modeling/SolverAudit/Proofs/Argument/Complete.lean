import Mathlib.Data.Set.Finite.Lattice
import Mathlib.Order.Interval.Set.Nat
import SolverAudit.Argument.Admissible

/-!
# Complete extensions

What an admissible set defends can join it: the larger set is admissible too. As there are only
finitely many places, an admissible set lies in one that is as large as can be, which holds all that
it defends. So every admissible set is part of a complete extension.
-/

namespace SolverAudit.Framework

variable {af : Framework} {s t : Nat → Prop}

theorem Defends.mono {a : Nat} (h : af.Defends s a) (hsub : ∀ x, s x → t x) : af.Defends t a := by
  intro attacker hattack
  obtain ⟨defender, hdefender, hcounter⟩ := h attacker hattack
  exact ⟨defender, hsub defender hdefender, hcounter⟩

theorem admissible_empty (af : Framework) : af.Admissible fun _ => False where
  within _ h := h.elim
  conflictFree _ _ h := h.elim
  defended _ h := h.elim

/-- No member of an admissible set attacks what the set defends, or the other way round: the set
would have to attack its own member. -/
theorem Admissible.not_attack_defended (hs : af.Admissible s) {a b : Nat} (hb : s b)
    (ha : af.Defends s a) : ¬ af.hasAttack a b ∧ ¬ af.hasAttack b a := by
  have hout : ¬ af.hasAttack b a := by
    intro hattack
    obtain ⟨c, hc, hcounter⟩ := ha b hattack
    exact hs.conflictFree c b hc hb hcounter
  refine ⟨fun hattack => ?_, hout⟩
  obtain ⟨c, hc, hcounter⟩ := hs.defended b hb a hattack
  obtain ⟨d, hd, hcounter'⟩ := ha c hcounter
  exact hs.conflictFree d c hd hc hcounter'

theorem Admissible.exists_finset (hs : af.Admissible s) :
    ∃ t : Finset Nat, af.Admissible (· ∈ t) ∧ ∀ a, a ∈ t ↔ s a := by
  have hfinite : {a | s a}.Finite := (Set.finite_Iio af.size).subset hs.within
  have hmem : ∀ a, a ∈ hfinite.toFinset ↔ s a := fun a => hfinite.mem_toFinset
  refine ⟨hfinite.toFinset, ?_, hmem⟩
  simpa only [hmem] using hs

/-- **What an admissible set defends can join it.** -/
theorem Admissible.join (hs : af.Admissible s) {a : Nat} (hsize : a < af.size)
    (ha : af.Defends s a) : af.Admissible fun x => s x ∨ x = a where
  within x hx := by
    rcases hx with hx | rfl
    · exact hs.within x hx
    · exact hsize
  conflictFree x y hx hy hattack := by
    rcases hx with hx | rfl
    · rcases hy with hy | rfl
      · exact hs.conflictFree x y hx hy hattack
      · exact (hs.not_attack_defended hx ha).2 hattack
    · rcases hy with hy | rfl
      · exact (hs.not_attack_defended hy ha).1 hattack
      · obtain ⟨c, hc, hcounter⟩ := ha y hattack
        exact (hs.not_attack_defended hc ha).2 hcounter
  defended x hx := by
    have hdefends : af.Defends s x := by
      rcases hx with hx | rfl
      · exact hs.defended x hx
      · exact ha
    exact hdefends.mono fun _ => .inl

/-- **Every admissible set is part of a complete extension.** -/
theorem Admissible.exists_complete (hs : af.Admissible s) :
    ∃ t, af.Complete t ∧ ∀ a, s a → t a := by
  have hfinite : {t : Set Nat | af.Admissible t}.Finite :=
    (Set.finite_Iio af.size).finite_subsets.subset fun t ht a ha => ht.within a ha
  obtain ⟨t, hsub, ht, hmax⟩ := hfinite.exists_le_maximal (a := s) hs
  refine ⟨t, ⟨ht, fun a hsize ha => ?_⟩, hsub⟩
  have hlarger := hmax (ht.join hsize ha) fun x hx => Or.inl hx
  exact hlarger a (Or.inr rfl)

end SolverAudit.Framework
