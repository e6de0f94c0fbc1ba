import SolverAudit.Tree.Generator

/-!
# What growths can do

A growth takes one instance to another if some context, that is some random choices, makes it
return the other one. Whether the growth applies is not asked: walks ask first, callers need not.
-/

namespace SolverAudit

variable {σ ι s t α β : Type}

/-! ### Runs of attempts -/

namespace Attempt

theorem run_bind (attempt : Attempt s α) (next : α → Attempt s β) (before : s) :
    (attempt >>= next).run before =
      match attempt.run before with
      | (.error failure, between) => (.error failure, between)
      | (.ok x, between) => (next x).run between := by
  rw [ExceptT.run_bind]
  change StateT.bind attempt.run _ before = _
  unfold StateT.bind
  rcases attempt.run before with ⟨failure | x, between⟩ <;> rfl

theorem run_forM_cons (f : α → Attempt s Unit) (x : α) (xs : List α) (before : s) :
    ((x :: xs).forM f).run before =
      match (f x).run before with
      | (.error failure, between) => (.error failure, between)
      | (.ok (), between) => (xs.forM f).run between := by
  rw [List.forM, run_bind]
  rcases (f x).run before with ⟨failure | _, between⟩ <;> rfl

theorem run_lift (result : Except Failure α) (before : s) :
    (lift result : Attempt s α).run before = (result, before) := rfl

theorem run_during (activity : String) (attempt : Attempt s α) (before : s) :
    (attempt.during activity).run before =
      (SolverAudit.during activity (attempt.run before).1, (attempt.run before).2) := rfl

theorem run_onFirst (attempt : Attempt s α) (first : s) (second : t) :
    (attempt.onFirst : Attempt (s × t) α).run (first, second) =
      ((attempt.run first).1, (attempt.run first).2, second) := rfl

theorem run_onSecond (attempt : Attempt t α) (first : s) (second : t) :
    (attempt.onSecond : Attempt (s × t) α).run (first, second) =
      ((attempt.run second).1, first, (attempt.run second).2) := rfl

theorem run_onFirst_change (f : s → α × s) (first : s) (second : t) :
    (onFirst (change f) : Attempt (s × t) α).run (first, second) =
      (.ok (f first).1, (f first).2, second) := rfl

theorem run_onSecond_change (f : t → α × t) (first : s) (second : t) :
    (onSecond (change f) : Attempt (s × t) α).run (first, second) =
      (.ok (f second).1, first, (f second).2) := rfl

/-! ### Successful attempts -/

theorem run_bind_eq_ok {attempt : Attempt s α} {next : α → Attempt s β} {before after : s} {y : β} :
    (attempt >>= next).run before = (.ok y, after) ↔
      ∃ x between, attempt.run before = (.ok x, between)
        ∧ (next x).run between = (.ok y, after) := by
  rw [run_bind]
  rcases attempt.run before with ⟨failure | x, between⟩
  · constructor
    · intro h
      cases h
    · rintro ⟨x, _, h, -⟩
      cases h
  · constructor
    · exact fun h => ⟨x, between, rfl, h⟩
    · rintro ⟨_, _, h, hnext⟩
      cases h
      exact hnext

theorem run_pure_eq_ok {x y : α} {before after : s} :
    (pure x : Attempt s α).run before = (.ok y, after) ↔ x = y ∧ before = after := by
  change ((Except.ok x : Except Failure α), before) = _ ↔ _
  simp

theorem run_throw_eq_ok {failure : Failure} {y : α} {before after : s} :
    ¬ (throw failure : Attempt s α).run before = (.ok y, after) := by
  change ¬ ((Except.error failure : Except Failure α), before) = _
  simp

/-! ### One success after another -/

theorem exists_run_forM {f : α → Attempt s Unit}
    (hf : ∀ x before, ∃ after, (f x).run before = (.ok (), after)) (xs : List α) (before : s) :
    ∃ after, (xs.forM f).run before = (.ok (), after) := by
  induction xs generalizing before with
  | nil => exact ⟨before, rfl⟩
  | cons x xs ih =>
      obtain ⟨between, hx⟩ := hf x before
      rw [run_forM_cons, hx]
      exact ih between

theorem run_bind_of_ok {attempt : Attempt s α} {next : α → Attempt s β} {before between : s} {x : α}
    (h : attempt.run before = (.ok x, between)) :
    (attempt >>= next).run before = (next x).run between := by
  rw [run_bind, h]

theorem run_during_of_ok {attempt : Attempt s α} {before after : s} {x : α}
    (h : attempt.run before = (.ok x, after)) (activity : String) :
    (attempt.during activity).run before = (.ok x, after) := by
  rw [run_during, h]
  rfl

theorem run_onFirst_of_ok {attempt : Attempt s α} {before after : s} {x : α}
    (h : attempt.run before = (.ok x, after)) (second : t) :
    (attempt.onFirst : Attempt (s × t) α).run (before, second) = (.ok x, after, second) := by
  rw [run_onFirst, h]

end Attempt

theorem Context.run_choose (choice : σ → α × σ) (before : Context σ) :
    (choose choice).run before =
      (.ok (choice before.source).1, { before with source := (choice before.source).2 }) := rfl

theorem Context.run_choose_eq_ok {choice : σ → α × σ} {before after : Context σ} {x : α} :
    (choose choice).run before = (.ok x, after) ↔
      (choice before.source).1 = x
        ∧ { before with source := (choice before.source).2 } = after := by
  rw [run_choose, Prod.mk.injEq, Except.ok.injEq]

theorem Context.run_intern (label : String) (before : Context σ) :
    (intern label).run before =
      (.ok (before.registry.intern label).1,
        { before with registry := (before.registry.intern label).2 }) := rfl

/-! ### Steps -/

/-- Some random choices make the growth take one instance to the other. -/
def Growth.Takes (growth : Growth σ ι) (x y : ι) : Prop :=
  ∃ before after, (growth.grow x).run before = (.ok y, after)

/-- In this context the growth makes something of the instance. -/
def Growth.Succeeds (growth : Growth σ ι) (x : ι) (before : Context σ) : Prop :=
  ∃ y after, (growth.grow x).run before = (.ok y, after)

/-- In this context the growth fails, as the instance is in an invalid state for it. -/
def Growth.Refuses (growth : Growth σ ι) (x : ι) (before : Context σ) : Prop :=
  ∃ failure, ((growth.grow x).run before).1 = .error failure ∧ failure.kind = .invalidState

/-- In this context the growth gets beyond the width of the numbers. -/
def Growth.Overflows (growth : Growth σ ι) (x : ι) (before : Context σ) : Prop :=
  ∃ failure, ((growth.grow x).run before).1 = .error failure ∧ failure.kind = .overflow

theorem Growth.Succeeds.not_refuses {growth : Growth σ ι} {x : ι} {before : Context σ}
    (h : growth.Succeeds x before) : ¬ growth.Refuses x before := by
  rintro ⟨failure, hfails, -⟩
  obtain ⟨y, after, hrun⟩ := h
  rw [hrun] at hfails
  cases hfails

theorem Growth.Succeeds.not_overflows {growth : Growth σ ι} {x : ι} {before : Context σ}
    (h : growth.Succeeds x before) : ¬ growth.Overflows x before := by
  rintro ⟨failure, hfails, -⟩
  obtain ⟨y, after, hrun⟩ := h
  rw [hrun] at hfails
  cases hfails

theorem Growth.Overflows.not_refuses {growth : Growth σ ι} {x : ι} {before : Context σ}
    (h : growth.Overflows x before) : ¬ growth.Refuses x before := by
  rintro ⟨failure, hfails, hkind⟩
  obtain ⟨failure', hfails', hkind'⟩ := h
  rw [hfails] at hfails'
  obtain rfl := Except.error.inj hfails'
  rw [hkind] at hkind'
  cases hkind'

section

variable {growth : Growth σ ι} {x : ι} {before : Context σ} {possible : Prop}

theorem Growth.succeeds_iff (hsucceeds : possible → growth.Succeeds x before)
    (hrefuses : ¬ possible → growth.Refuses x before) :
    growth.Succeeds x before ↔ possible := by
  refine ⟨fun h => Classical.byContradiction fun hnot => ?_, hsucceeds⟩
  exact h.not_refuses (hrefuses hnot)

theorem Growth.refuses_iff (hsucceeds : possible → growth.Succeeds x before)
    (hrefuses : ¬ possible → growth.Refuses x before) :
    growth.Refuses x before ↔ ¬ possible :=
  ⟨fun h hpossible => (hsucceeds hpossible).not_refuses h, hrefuses⟩

end

/-- Some growth of the generator takes one instance to the other. -/
def Generator.Grows (g : Generator σ ι) (x y : ι) : Prop :=
  ∃ growth ∈ g.growths, growth.Takes x y

end SolverAudit
