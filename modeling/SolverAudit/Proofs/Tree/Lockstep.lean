import Mathlib.Data.List.Forall2
import SolverAudit.Proofs.Tree.DepthFirst

/-!
# Walks in lockstep

Two generators may be run side by side with different random choices. When related instances allow
the same growths, and whatever these make of related instances is related again, the choices never
show in the shape of the tree: both walks visit the same paths in the same order, and the nodes at
each of them are related.
-/

namespace SolverAudit

variable {σ τ ι κ : Type}

theorem forall₂_iff_map_eq {α β γ : Type} {f : α → γ} {f' : β → γ} {xs : List α} {ys : List β} :
    List.Forall₂ (fun x y => f x = f' y) xs ys ↔ xs.map f = ys.map f' := by
  rw [← List.forall₂_eq_eq_eq, List.forall₂_map_left_iff, List.forall₂_map_right_iff]

/-- Both growths apply to related instances or neither does, and what the one and the other may make
of related instances is related. -/
structure Growth.Alike (R : ι → κ → Prop) (growth : Growth σ ι) (growth' : Growth τ κ) : Prop where
  applies_eq : ∀ x x', R x x' → growth.applies x = growth'.applies x'
  takes : ∀ x x' y y', R x x' → growth.Takes x y → growth'.Takes x' y' → R y y'

theorem Growth.Alike.flip {R : ι → κ → Prop} {growth : Growth σ ι} {growth' : Growth τ κ}
    (h : growth.Alike R growth') : growth'.Alike (fun x' x => R x x') growth where
  applies_eq x' x hR := (h.applies_eq x x' hR).symm
  takes x' x y' y hR htakes' htakes := h.takes x x' y y' hR htakes htakes'

namespace Generator

variable {g : Generator σ ι} {g' : Generator τ κ} {R : ι → κ → Prop} {start finish : Context σ}
  {start' finish' : Context τ} {visits : List (Visit σ ι)} {visits' : List (Visit τ κ)}
  {depth : Nat}

/-- Each visit of the one walk has a related visit of the other one at its path. -/
theorem DepthFirst.exists_related (h : g.DepthFirst start depth finish visits)
    (h' : g'.DepthFirst start' depth finish' visits')
    (hroot : ∀ x x' context context', g.root.run start = (.ok x, context) →
      g'.root.run start' = (.ok x', context') → R x x')
    (hgrowths : List.Forall₂ (Growth.Alike R) g.effective g'.effective) :
    ∀ v ∈ visits, ∃ v' ∈ visits', v.path = v'.path ∧ R v.node v'.node := by
  refine h.grown.induction (fun v hv hpath hrun => ?_)
    fun u hu hrelated v hv place growth hpath hgrowth happlies htakes => ?_
  · obtain ⟨v', hv', hpath', hrun'⟩ := h'.grown.exists_root
    exact ⟨v', hv', hpath.trans hpath'.symm, hroot _ _ _ _ hrun hrun'⟩
  · obtain ⟨u', hu', hsame, hR⟩ := hrelated
    have hdepth : u.depth < depth := ((h.child_iff u hu place).mp ⟨v, hv, hpath⟩).1
    have hdepth' : u'.depth < depth := by rwa [Visit.depth, ← hsame]
    obtain ⟨hplace, hget⟩ := List.getElem?_eq_some_iff.mp hgrowth
    have hplace' : place < g'.effective.length := hgrowths.length_eq ▸ hplace
    have halike : growth.Alike R g'.effective[place] := by
      rw [← hget]
      exact hgrowths.get hplace hplace'
    have hgrowth' : g'.effective[place]? = some g'.effective[place] := List.getElem?_eq_getElem _
    obtain ⟨v', hv', hpath'⟩ := (h'.child_iff u' hu' place).mpr
      ⟨hdepth', _, hgrowth', halike.applies_eq _ _ hR ▸ happlies⟩
    obtain ⟨other, hother, -, htakes'⟩ := h'.grown.takes_of_path h'.ordered hu' hv' hpath'
    obtain rfl := Option.some.inj (hgrowth'.symm.trans hother)
    exact ⟨v', hv', by rw [hpath, hpath', hsame], halike.takes _ _ _ _ hR htakes htakes'⟩

/-- Depth-first sequences with the same paths have them in the same order. -/
theorem map_path_eq (hordered : visits.Pairwise fun v w => v.path < w.path)
    (hordered' : visits'.Pairwise fun v w => v.path < w.path)
    (hsub : ∀ v ∈ visits, ∃ v' ∈ visits', v.path = v'.path)
    (hsub' : ∀ v' ∈ visits', ∃ v ∈ visits, v.path = v'.path) :
    visits.map Visit.path = visits'.map Visit.path := by
  have hsorted : (visits.map Visit.path).Pairwise (· < ·) := List.pairwise_map.mpr hordered
  have hsorted' : (visits'.map Visit.path).Pairwise (· < ·) := List.pairwise_map.mpr hordered'
  have hne : ∀ {a b : List Nat}, a < b → a ≠ b := fun hlt heq => List.lt_irrefl _ (heq ▸ hlt)
  have hmembers : ∀ path, path ∈ visits.map Visit.path ↔ path ∈ visits'.map Visit.path := by
    intro path
    rw [List.mem_map, List.mem_map]
    constructor
    · rintro ⟨v, hv, rfl⟩
      obtain ⟨v', hv', hpath⟩ := hsub v hv
      exact ⟨v', hv', hpath.symm⟩
    · rintro ⟨v', hv', rfl⟩
      exact hsub' v' hv'
  refine List.Perm.eq_of_pairwise (fun a b _ _ hlt hgt => absurd hgt (List.lt_asymm hlt)) hsorted
    hsorted' ((List.perm_ext_iff_of_nodup ?_ ?_).mpr hmembers)
  · exact hsorted.imp hne
  · exact hsorted'.imp hne

/-- **Walks in lockstep.** The random choices of two walks do not show in where they go: the same
paths are visited in the same order, and the nodes there are related. -/
theorem DepthFirst.lockstep (h : g.DepthFirst start depth finish visits)
    (h' : g'.DepthFirst start' depth finish' visits')
    (hroot : ∀ x x' context context', g.root.run start = (.ok x, context) →
      g'.root.run start' = (.ok x', context') → R x x')
    (hgrowths : List.Forall₂ (Growth.Alike R) g.effective g'.effective) :
    List.Forall₂ (fun v v' => v.path = v'.path ∧ R v.node v'.node) visits visits' := by
  have hrelated := h.exists_related h' hroot hgrowths
  have hrelated' := h'.exists_related (R := fun x' x => R x x') h
    (fun x' x context' context hrun' hrun => hroot x x' context context' hrun hrun')
    (hgrowths.flip.imp fun _ _ halike => halike.flip)
  have hpaths := map_path_eq h.ordered h'.ordered
    (fun v hv => (hrelated v hv).imp fun v' hv' => ⟨hv'.1, hv'.2.1⟩)
    fun v' hv' => (hrelated' v' hv').imp fun v hv => ⟨hv.1, hv.2.1.symm⟩
  have hsame := forall₂_iff_map_eq.mpr hpaths
  rw [List.forall₂_iff_zip] at hsame ⊢
  refine ⟨hsame.1, fun {v v'} hmem => ⟨hsame.2 hmem, ?_⟩⟩
  obtain ⟨hv, hv'⟩ := List.of_mem_zip hmem
  obtain ⟨w, hw, hpath, hR⟩ := hrelated v hv
  obtain rfl := eq_of_path_eq h'.ordered hw hv' (hpath.symm.trans (hsame.2 hmem))
  exact hR

end Generator

end SolverAudit
