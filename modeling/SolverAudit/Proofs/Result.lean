/-!
# Results

A computation that may fail succeeds exactly when each of its parts does.
-/

namespace SolverAudit

variable {ε α β : Type}

theorem bind_eq_ok {result : Except ε α} {next : α → Except ε β} {y : β} :
    result >>= next = .ok y ↔ ∃ x, result = .ok x ∧ next x = .ok y := by
  cases result with
  | error failure =>
      constructor
      · intro h
        cases h
      · rintro ⟨x, h, -⟩
        cases h
  | ok x =>
      constructor
      · exact fun h => ⟨x, rfl, h⟩
      · rintro ⟨x', hx, h⟩
        cases hx
        exact h

theorem mapError_eq_ok {δ : Type} {f : ε → δ} {result : Except ε α} {x : α} :
    result.mapError f = .ok x ↔ result = .ok x := by
  cases result with
  | error failure =>
      constructor
      · intro h
        cases h
      · intro h
        cases h
  | ok y =>
      constructor
      · intro h
        cases h
        rfl
      · intro h
        cases h
        rfl

theorem map_eq_ok {f : α → β} {result : Except ε α} {y : β} :
    result.map f = .ok y ↔ ∃ x, result = .ok x ∧ f x = y := by
  cases result with
  | error failure =>
      constructor
      · intro h
        cases h
      · rintro ⟨x, h, -⟩
        cases h
  | ok x =>
      constructor
      · intro h
        exact ⟨x, rfl, Except.ok.inj h⟩
      · rintro ⟨x', hx, rfl⟩
        cases hx
        rfl

theorem map_eq_error {f : α → β} {result : Except ε α} {failure : ε} :
    result.map f = .error failure ↔ result = .error failure := by
  cases result with
  | error failure' =>
      constructor
      · intro h
        cases h
        rfl
      · intro h
        cases h
        rfl
  | ok x =>
      constructor
      · intro h
        cases h
      · intro h
        cases h

/-- What holds of the failures of each step holds of the failure of a fold. -/
theorem of_foldlM_eq_error {P : ε → Prop} {step : β → α → Except ε β}
    (hstep : ∀ y x failure, step y x = .error failure → P failure) {xs : List α} {start : β}
    {failure : ε} (h : xs.foldlM step start = .error failure) : P failure := by
  induction xs generalizing start with
  | nil => cases h
  | cons x xs ih =>
      rw [List.foldlM_cons] at h
      cases hx : step start x with
      | error cause =>
          rw [hx] at h
          cases h
          exact hstep start x failure hx
      | ok next =>
          rw [hx] at h
          exact ih h

end SolverAudit
