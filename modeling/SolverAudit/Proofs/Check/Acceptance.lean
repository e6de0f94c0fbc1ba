import SolverAudit.Check.Checker
import SolverAudit.Proofs.Answer.Reader
import SolverAudit.Proofs.Argument.Complete
import SolverAudit.Proofs.Argument.Grounded
import SolverAudit.Proofs.Argument.Search

/-!
# Acceptance of the last argument

The checkers look for the last argument in the admissible sets and in the grounded extension, and
never build a complete extension. Their verdicts nevertheless are about complete extensions: an
admissible set is part of a complete one, and the grounded extension is what the complete ones
share.
-/

namespace SolverAudit

namespace Framework

/-! ### Reading a list of statuses -/

variable {af : Framework}

/-- How the answers to a query are judged: a single status is right when it tells whether the
argument is accepted, any other list of statuses is a failure, and a text that holds no list of
statuses is malformed. -/
structure Expects (af : Framework) (query : Query) (accepted : Prop) : Prop where
  success_iff : ∀ dialect text,
    Checker.check (.framework query) af dialect text = .ok .success ↔
      ∃ status, dialect.readStatuses text = .ok [status] ∧ (status = true ↔ accepted)
  failure : ∀ dialect text statuses,
    dialect.readStatuses text = .ok statuses →
    (¬ ∃ status, statuses = [status] ∧ (status = true ↔ accepted)) →
    ∃ discrepancy, Checker.check (.framework query) af dialect text = .ok (.failure discrepancy)
  malformed : ∀ dialect text failure,
    dialect.readStatuses text = .error failure →
    Checker.check (.framework query) af dialect text = .error failure ∧ failure.kind = .malformed

theorem judgeStatus_eq_success_iff {accepted : Bool} {given : List Bool} :
    judgeStatus accepted given = .success ↔ given = [accepted] := by
  unfold judgeStatus Verdict.compare
  split <;> simp [*]

theorem exists_judgeStatus_eq_failure {accepted : Bool} {given : List Bool}
    (hwrong : given ≠ [accepted]) :
    ∃ discrepancy, judgeStatus accepted given = .failure discrepancy :=
  ⟨_, if_neg hwrong⟩

theorem expects_of_judgeStatus {query : Query} {accepted : Prop} {test : Bool}
    (hcheck : ∀ dialect text, Checker.check (.framework query) af dialect text
      = (dialect.readStatuses text).map (judgeStatus test))
    (htest : test = true ↔ accepted) : af.Expects query accepted := by
  have hright : ∀ statuses : List Bool,
      (∃ status, statuses = [status] ∧ (status = true ↔ accepted)) ↔ statuses = [test] := by
    intro statuses
    rw [← htest]
    constructor
    · rintro ⟨status, rfl, hsame⟩
      rw [Bool.eq_iff_iff.mpr hsame]
    · rintro rfl
      exact ⟨test, rfl, Iff.rfl⟩
  refine ⟨fun dialect text => ?_, fun dialect text statuses hread hwrong => ?_,
    fun dialect text failure hread => ?_⟩
  · rw [hcheck]
    cases hread : dialect.readStatuses text with
    | error failure => simp [Except.map]
    | ok statuses =>
        have hjudge :
            (Except.ok statuses : Except Failure _).map (judgeStatus test) = .ok .success ↔
              statuses = [test] := by
          rw [Except.map, Except.ok.injEq, judgeStatus_eq_success_iff]
        rw [hjudge, ← hright]
        simp only [Except.ok.injEq]
  · rw [hcheck, hread]
    obtain ⟨discrepancy, hfailure⟩ :=
      exists_judgeStatus_eq_failure (mt (hright statuses).mpr hwrong)
    exact ⟨discrepancy, congrArg Except.ok hfailure⟩
  · rw [hcheck, hread]
    exact ⟨rfl, Dialect.kind_of_read_eq_error hread⟩

/-! ### The place of a label -/

theorem exists_last (hsome : af.arguments ≠ []) :
    ∃ a, af.argument? (af.size - 1) = some a ∧ af.lastLabel? = some a.label := by
  have hpos : 0 < af.size := List.length_pos_iff.mpr hsome
  have hlast : af.size - 1 < af.size := by omega
  obtain ⟨a, ha⟩ := argument?_eq_some hlast
  refine ⟨a, ha, ?_⟩
  rw [lastLabel?, List.getLast?_eq_getElem?]
  exact congrArg (Option.map Argument.label) ha

theorem place_eq_of_label_eq (hlabels : (af.arguments.map Argument.label).Nodup) {i j : Nat}
    {a b : Argument} (ha : af.argument? i = some a) (hb : af.argument? j = some b)
    (hsame : a.label = b.label) : i = j := by
  have hi : (af.arguments.map Argument.label)[i]? = some a.label := by
    rw [List.getElem?_map]
    exact congrArg (Option.map Argument.label) ha
  have hj : (af.arguments.map Argument.label)[j]? = some b.label := by
    rw [List.getElem?_map]
    exact congrArg (Option.map Argument.label) hb
  exact (List.getElem?_inj (List.getElem?_eq_some_iff.mp hi).1 hlabels).mp
    (by rw [hi, hj, hsame])

section Last

variable {a : Argument} {place : Nat}

theorem isCredulouslyAccepted_iff (hlabels : (af.arguments.map Argument.label).Nodup)
    (ha : af.argument? place = some a) :
    af.isCredulouslyAccepted a.label = true ↔ ∃ s, af.Complete s ∧ s place := by
  simp only [isCredulouslyAccepted, List.any_eq_true, ← OrderedSet.mem_def, extensionLabels,
    OrderedSet.mem_image, decide_eq_true_eq]
  constructor
  · rintro ⟨_, ⟨e, he, rfl⟩, hlabel⟩
    obtain ⟨s, hs, rfl⟩ := mem_extensions_iff.mp he
    obtain ⟨b, hb, hsame⟩ := OrderedSet.mem_image.mp hlabel
    obtain ⟨place', hplace', hb⟩ := mem_extensionOf.mp hb
    obtain ⟨t, ht, hsub⟩ := hs.exists_complete
    exact ⟨t, ht, hsub place (place_eq_of_label_eq hlabels hb ha hsame ▸ hplace')⟩
  · rintro ⟨s, hs, hplace⟩
    obtain ⟨t, ht, hmem⟩ := hs.toAdmissible.exists_finset
    have hextension : af.extensionOf t ∈ af.extensions := mem_extensions_iff.mpr ⟨t, ht, rfl⟩
    have hin : a ∈ af.extensionOf t := mem_extensionOf.mpr ⟨place, (hmem place).mpr hplace, ha⟩
    exact ⟨_, ⟨af.extensionOf t, hextension, rfl⟩, OrderedSet.mem_image.mpr ⟨a, hin, rfl⟩⟩

theorem isSkepticallyAccepted_iff (hlabels : (af.arguments.map Argument.label).Nodup)
    (ha : af.argument? place = some a) :
    af.isSkepticallyAccepted a.label = true ↔ ∀ s, af.Complete s → s place := by
  rw [← mem_groundedPlaces_iff_complete]
  simp only [isSkepticallyAccepted, List.any_eq_true, ← OrderedSet.mem_def, grounded,
    mem_argumentSet, beq_iff_eq]
  constructor
  · rintro ⟨b, ⟨place', hplace', hb⟩, hsame⟩
    exact place_eq_of_label_eq hlabels hb ha hsame ▸ hplace'
  · exact fun hplace => ⟨a, ⟨place, hplace, ha⟩, rfl⟩

end Last

/-- **The acceptance of the last argument is judged by the complete extensions.** With distinct
labels, credulous answers are expected to tell whether some complete extension holds the last
argument, and skeptical answers whether every complete extension does. -/
theorem expects_complete_acceptance (hsome : af.arguments ≠ [])
    (hlabels : (af.arguments.map Argument.label).Nodup) :
    af.Expects .credulous (∃ s, af.Complete s ∧ s (af.size - 1))
      ∧ af.Expects .skeptical (∀ s, af.Complete s → s (af.size - 1)) := by
  obtain ⟨a, ha, hlast⟩ := exists_last hsome
  constructor
  · refine expects_of_judgeStatus (fun dialect text => ?_) (isCredulouslyAccepted_iff hlabels ha)
    rw [Checker.check, Framework.check, hlast, Option.getD_some]
  · refine expects_of_judgeStatus (fun dialect text => ?_) (isSkepticallyAccepted_iff hlabels ha)
    rw [Checker.check, Framework.check, hlast, Option.getD_some]

theorem expects_complete_acceptance_mutual :
    let af : Framework :=
      ⟨[⟨0, "a0"⟩, ⟨1, "a1"⟩], [⟨0, 1⟩, ⟨1, 0⟩], by decide, by decide, by decide⟩
    (af.arguments ≠ [] ∧ (af.arguments.map Argument.label).Nodup)
      ∧ af.Expects .credulous (∃ s, af.Complete s ∧ s 1)
      ∧ af.Expects .skeptical (∀ s, af.Complete s → s 1) := by
  intro af
  have hsome : af.arguments ≠ [] := by decide
  have hlabels : (af.arguments.map Argument.label).Nodup := by decide
  exact ⟨⟨hsome, hlabels⟩, expects_complete_acceptance hsome hlabels⟩

end Framework

end SolverAudit
