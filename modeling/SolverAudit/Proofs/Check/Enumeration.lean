import SolverAudit.Proofs.Answer.RoundTrip
import SolverAudit.Proofs.Check.Acceptance

/-!
# Enumerated and single extensions

A solver names arguments by their labels, so its answers are compared with the label sets of the
admissible sets. What a dialect writes it reads back, and with distinct labels no two admissible
sets look alike, so the checks are about the admissible sets themselves.
-/

namespace SolverAudit

namespace Framework

open Answer

variable {af : Framework} {dialect : Dialect}

/-- The labels of the arguments at the places of a set are the members of the extension. -/
def IsLabelSet (af : Framework) (s : Nat → Prop) (e : Extension) : Prop :=
  ∀ label, label ∈ e ↔ ∃ place a, s place ∧ af.argument? place = some a ∧ a.label = label

/-- A check of an answer that can be read succeeds if the answer is right, and is a failure, not an
error, if it is not. -/
structure Decides (outcome : Except Failure Verdict) (right : Prop) : Prop where
  success_iff : outcome = .ok .success ↔ right
  failure : ¬ right → ∃ discrepancy, outcome = .ok (.failure discrepancy)

/-! ### Label sets -/

theorem isLabelSet_image (s : Finset Nat) :
    af.IsLabelSet (· ∈ s) ((af.extensionOf s).image Argument.label) := by
  intro label
  rw [OrderedSet.mem_image]
  constructor
  · rintro ⟨a, ha, hlabel⟩
    obtain ⟨place, hplace, ha⟩ := mem_extensionOf.mp ha
    exact ⟨place, a, hplace, ha, hlabel⟩
  · rintro ⟨place, a, hplace, ha, hlabel⟩
    exact ⟨a, mem_extensionOf.mpr ⟨place, hplace, ha⟩, hlabel⟩

theorem IsLabelSet.congr {s t : Nat → Prop} {e : Extension} (h : af.IsLabelSet s e)
    (hsame : ∀ place, s place ↔ t place) : af.IsLabelSet t e := by
  intro label
  simp only [h label, hsame]

theorem IsLabelSet.unique {s : Nat → Prop} {e e' : Extension} (h : af.IsLabelSet s e)
    (h' : af.IsLabelSet s e') : e = e' :=
  OrderedSet.ext fun label => (h label).trans (h' label).symm

theorem mem_extensionLabels_iff {e : Extension} :
    e ∈ af.extensionLabels ↔ ∃ s, af.Admissible s ∧ af.IsLabelSet s e := by
  simp only [extensionLabels, OrderedSet.mem_image, mem_extensions_iff]
  constructor
  · rintro ⟨_, ⟨s, hs, rfl⟩, rfl⟩
    exact ⟨(· ∈ s), hs, isLabelSet_image s⟩
  · rintro ⟨s, hs, he⟩
    obtain ⟨t, ht, hmem⟩ := hs.exists_finset
    have hlabels : af.IsLabelSet (· ∈ t) e := he.congr fun place => (hmem place).symm
    exact ⟨af.extensionOf t, ⟨t, ht, rfl⟩, (isLabelSet_image t).unique hlabels⟩

/-- With distinct labels, what a set is called tells which places it has. -/
theorem IsLabelSet.place_iff (hlabels : (af.arguments.map Argument.label).Nodup)
    {s t : Nat → Prop} (hs : af.Admissible s) (ht : af.Admissible t) {e : Extension}
    (hse : af.IsLabelSet s e) (hte : af.IsLabelSet t e) (place : Nat) : s place ↔ t place := by
  have hsub : ∀ {s t : Nat → Prop}, af.Admissible s → af.IsLabelSet s e → af.IsLabelSet t e →
      s place → t place := by
    intro s t hs hse hte hplace
    obtain ⟨a, ha⟩ := argument?_eq_some (hs.within place hplace)
    have hmem : a.label ∈ e := (hse a.label).mpr ⟨place, a, hplace, ha, rfl⟩
    obtain ⟨place', b, hplace', hb, hsame⟩ := (hte a.label).mp hmem
    exact place_eq_of_label_eq hlabels hb ha hsame ▸ hplace'
  exact ⟨hsub hs hse hte, hsub ht hte hse⟩

theorem named_extensionLabels (hnames : ∀ a ∈ af.arguments, IsName a.label) :
    Extensions.Named af.extensionLabels := by
  intro e he label hlabel
  obtain ⟨s, -, hs⟩ := mem_extensionLabels_iff.mp he
  obtain ⟨place, a, -, ha, rfl⟩ := (hs label).mp hlabel
  exact hnames a (List.mem_of_getElem? ha)

/-! ### The checks -/

theorem check_writeSet {es : Extensions} (hes : es.Named) :
    Checker.check (.framework .enumeration) af dialect (dialect.writeSet es) =
      .ok (af.judgeExtensions es) := by
  have hread : dialect.readSet (dialect.writeSet es) = .ok es :=
    Dialect.read_asLine (dialect.reads_set hes) _
  rw [Checker.check, Framework.check, hread, Except.map]

theorem check_writeExtension {e : Extension} (he : e.Named) :
    Checker.check (.framework .single) af dialect (dialect.writeExtension e) =
      .ok (af.judgeExtension e) := by
  have hread : dialect.readExtension (dialect.writeExtension e) = .ok e :=
    Dialect.read_asLine (reads_extension he) _
  rw [Checker.check, Framework.check, hread, Except.map]

theorem decides_ite {right : Prop} [Decidable right] (discrepancy : Discrepancy) :
    Decides (.ok (if right then .success else .failure discrepancy)) right := by
  by_cases hright : right
  · rw [if_pos hright]
    exact ⟨iff_of_true rfl hright, fun hwrong => absurd hright hwrong⟩
  · rw [if_neg hright]
    exact ⟨iff_of_false (fun hsuccess => nomatch hsuccess) hright, fun _ => ⟨discrepancy, rfl⟩⟩

theorem Decides.of_iff {outcome : Except Failure Verdict} {right right' : Prop}
    (h : Decides outcome right) (hiff : right ↔ right') : Decides outcome right' :=
  propext hiff ▸ h

/-- **The checks of extensions are about admissible sets.** With distinct labels that are names, a
written set of extensions is right if its members are the label sets of the admissible sets, and a
written extension if it is one of them; all other written answers are failures. The extensions that
are given along with a framework are right, and no two admissible sets have the same labels. -/
theorem decides_admissible_label_sets (hlabels : (af.arguments.map Argument.label).Nodup)
    (hnames : ∀ a ∈ af.arguments, IsName a.label) :
    (∀ (dialect : Dialect) (es : Extensions), es.Named →
      Decides (Checker.check (.framework .enumeration) af dialect (dialect.writeSet es))
        (∀ e, e ∈ es ↔ ∃ s, af.Admissible s ∧ af.IsLabelSet s e))
      ∧ (∀ (dialect : Dialect) (e : Extension), e.Named →
        Decides (Checker.check (.framework .single) af dialect (dialect.writeExtension e))
          (∃ s, af.Admissible s ∧ af.IsLabelSet s e))
      ∧ (∃ text, payload af "extensions" = .ok text
        ∧ Checker.check (.framework .enumeration) af .iccma19 text = .ok .success)
      ∧ ∀ s t e, af.Admissible s → af.Admissible t → af.IsLabelSet s e → af.IsLabelSet t e →
        ∀ place, s place ↔ t place := by
  refine ⟨fun dialect es hes => ?_, fun dialect e he => ?_, ?_,
    fun s t e hs ht hse hte => hse.place_iff hlabels hs ht hte⟩
  · rw [check_writeSet hes, judgeExtensions, Verdict.compare]
    refine (decides_ite _).of_iff ⟨?_, fun hmembers => ?_⟩
    · rintro rfl e
      exact mem_extensionLabels_iff
    · exact OrderedSet.ext fun e => (hmembers e).trans mem_extensionLabels_iff.symm
  · rw [check_writeExtension he, judgeExtension]
    exact (decides_ite _).of_iff mem_extensionLabels_iff
  · refine ⟨_, rfl, ?_⟩
    rw [check_writeSet (named_extensionLabels hnames), judgeExtensions, Verdict.compare, if_pos rfl]

theorem decides_admissible_label_sets_attack :
    let af : Framework := ⟨[⟨0, "a0"⟩, ⟨1, "a1"⟩], [⟨0, 1⟩], by decide, by decide, by decide⟩
    let first : Extension := ⟨["a0"], List.pairwise_singleton _ _⟩
    let both : Extensions := ⟨[∅, first], List.pairwise_pair.mpr (by decide)⟩
    ((af.arguments.map Argument.label).Nodup ∧ (∀ a ∈ af.arguments, IsName a.label)
      ∧ both.Named ∧ first.Named)
      ∧ Decides
        (Checker.check (.framework .enumeration) af .iccma17 (Dialect.iccma17.writeSet both))
        (∀ e, e ∈ both ↔ ∃ s, af.Admissible s ∧ af.IsLabelSet s e)
      ∧ Checker.check (.framework .single) af .iccma19 (Dialect.iccma19.writeExtension first)
        = .ok .success := by
  intro af first both
  have hlabels : (af.arguments.map Argument.label).Nodup := by decide
  have hnames : ∀ a ∈ af.arguments, IsName a.label := by decide
  have hboth : both.Named := by decide
  have hfirst : first.Named := by decide
  obtain ⟨hsets, hsingle, -⟩ := decides_admissible_label_sets hlabels hnames
  have hadmissible : af.Admissible (· = 0) := by
    refine ⟨by rintro _ rfl; decide, by rintro _ _ rfl rfl; decide, ?_⟩
    rintro _ rfl attacker hattack
    have hnone : ∀ attacker < 2, af.hasAttack attacker 0 = false := by decide
    rw [hnone attacker (lt_size_of_hasAttack hattack).1] at hattack
    cases hattack
  have hset : af.IsLabelSet (· = 0) first := by
    intro label
    constructor
    · intro hlabel
      exact ⟨0, ⟨0, "a0"⟩, rfl, rfl, (List.mem_singleton.mp hlabel).symm⟩
    · rintro ⟨_, a, rfl, ha, rfl⟩
      obtain rfl := Option.some.inj ha
      exact List.mem_singleton_self _
  exact ⟨⟨hlabels, hnames, hboth, hfirst⟩, hsets .iccma17 both hboth,
    (hsingle .iccma19 first hfirst).success_iff.mpr ⟨_, hadmissible, hset⟩⟩

end Framework

end SolverAudit
