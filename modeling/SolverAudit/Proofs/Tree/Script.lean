import SolverAudit.Proofs.Tree.Growth
import SolverAudit.Random

/-!
# Possible choices

What a growth can give depends on the numbers that its source can choose. A full source can choose
any of them, whatever is chosen afterwards. One that plays back given numbers is full, and runs with
chosen outcomes can be written down with it.
-/

namespace SolverAudit

/-! ### Full sources -/

namespace Source

variable {σ α : Type} [Source σ]

/-- Every number that may be chosen comes up for some source, and what this source does next is
arbitrary. -/
structure Full (σ : Type) [Source σ] : Prop where
  inhabited : Nonempty σ
  upTo : ∀ greatest (i : Fin (greatest + 1)) (later : σ),
    ∃ source, Source.upTo greatest source = (i, later)

theorem Full.exists_pick (h : Full σ) {first x : α} {others : List α} (hx : x ∈ first :: others)
    (later : σ) : ∃ source, pick first others source = (x, later) := by
  obtain ⟨i, hi, hget⟩ := List.mem_iff_getElem.mp hx
  obtain ⟨source, hchoice⟩ := h.upTo others.length ⟨i, hi⟩ later
  refine ⟨source, ?_⟩
  rw [pick, hchoice]
  exact Prod.ext hget rfl

/-- A full source whose coins may come down on either side, too. -/
structure Free (σ : Type) [Source σ] : Prop extends Full σ where
  coin : ∀ positive (later : σ), ∃ source, Source.coin source = (positive, later)

end Source

/-- The growth gives the second instance for the first one with some source. -/
def Growth.Offers {σ ι : Type} (growth : Growth σ ι) (registry : Registry) (x y : ι) : Prop :=
  ∃ source after, (growth.grow x).run ⟨source, registry⟩ = (.ok y, after)

theorem Growth.Offers.takes {σ ι : Type} {growth : Growth σ ι} {registry : Registry} {x y : ι}
    (h : growth.Offers registry x y) : growth.Takes x y := by
  obtain ⟨source, after, hrun⟩ := h
  exact ⟨⟨source, registry⟩, after, hrun⟩

/-! ### Scripts -/

/-- The choices still to be made; zeros follow when none is left. -/
structure Script where
  numbers : List Nat

instance : Source Script where
  upTo greatest script := (Fin.ofNat (greatest + 1) (script.numbers.headD 0), ⟨script.numbers.tail⟩)
  coin script := (script.numbers.headD 0 != 0, ⟨script.numbers.tail⟩)

theorem Script.full : Source.Full Script where
  inhabited := ⟨⟨[]⟩⟩
  upTo greatest i later := by
    refine ⟨⟨i :: later.numbers⟩, ?_⟩
    exact Prod.ext (Fin.ofNat_val_eq_self i) rfl

theorem Script.free : Source.Free Script where
  toFull := full
  coin positive later := by
    refine ⟨⟨positive.toNat :: later.numbers⟩, ?_⟩
    cases positive <;> rfl

end SolverAudit
