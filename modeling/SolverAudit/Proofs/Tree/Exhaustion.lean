import SolverAudit.Proofs.Tree.Growth

/-!
# Growing until nothing applies

One growth is repeated on its own result as long as it applies. When a number of what is left tells
whether it applies, and every application takes one from that number, the growth succeeds as many
times and then stops, whatever the random choices.
-/

namespace SolverAudit

variable {σ ι : Type}

/-- The growth succeeds so many times in a row, applying each time, and then does not apply. -/
inductive Growth.Exhausts (growth : Growth σ ι) :
    Nat → ι → Context σ → ι → Context σ → Prop where
  | done {x : ι} {context : Context σ} (hstop : growth.applies x = false) :
      Exhausts growth 0 x context x context
  | step {times : Nat} {x y z : ι} {before between after : Context σ}
      (happlies : growth.applies x = true) (hgrow : (growth.grow x).run before = (.ok y, between))
      (hrest : Exhausts growth times y between z after) :
      Exhausts growth (times + 1) x before z after

/-- Under the invariant, the number of what is left tells whether the growth applies, it succeeds if
it does, and it keeps the invariant and takes one from the number. -/
structure Growth.CountsDown (growth : Growth σ ι) (inv : ι → Prop) (left : ι → Nat) : Prop where
  applies_iff : ∀ x, inv x → (growth.applies x = true ↔ 0 < left x)
  succeeds : ∀ x before, inv x → growth.applies x = true →
    ∃ y after, (growth.grow x).run before = (.ok y, after)
  takes : ∀ x y, inv x → growth.Takes x y → inv y ∧ left y + 1 = left x

namespace Growth

variable {growth : Growth σ ι} {inv : ι → Prop} {left : ι → Nat} {x y : ι} {times : Nat}
  {before after : Context σ}

theorem CountsDown.stops_iff (h : growth.CountsDown inv left) (hx : inv x) :
    growth.applies x = false ↔ left x = 0 := by
  have happlies := h.applies_iff x hx
  rw [← Bool.not_eq_true, happlies]
  omega

theorem CountsDown.exists_exhausts (h : growth.CountsDown inv left) (hx : inv x)
    (before : Context σ) : ∃ y after, growth.Exhausts (left x) x before y after := by
  induction hleft : left x generalizing x before with
  | zero =>
      exact ⟨x, before, .done ((h.stops_iff hx).mpr hleft)⟩
  | succ n ih =>
      have happlies : growth.applies x = true :=
        (h.applies_iff x hx).mpr (hleft ▸ Nat.succ_pos n)
      obtain ⟨y, between, hgrow⟩ := h.succeeds x before hx happlies
      obtain ⟨hy, hless⟩ := h.takes x y hx ⟨before, between, hgrow⟩
      obtain ⟨z, after, hrest⟩ := ih hy between (by omega)
      exact ⟨z, after, .step happlies hgrow hrest⟩

theorem CountsDown.of_exhausts (h : growth.CountsDown inv left) (hx : inv x)
    (hrun : growth.Exhausts times x before y after) : times = left x ∧ inv y ∧ left y = 0 := by
  induction hrun with
  | done hstop =>
      have hleft := (h.stops_iff hx).mp hstop
      exact ⟨hleft.symm, hx, hleft⟩
  | step _ hgrow _ ih =>
      obtain ⟨hy, hless⟩ := h.takes _ _ hx ⟨_, _, hgrow⟩
      obtain ⟨htimes, hend⟩ := ih hy
      exact ⟨by omega, hend⟩

end Growth

end SolverAudit
