import Mathlib.Data.Set.Function
import SolverAudit.Proofs.Argument.Growth
import SolverAudit.Proofs.Argument.Search
import SolverAudit.Proofs.Tree.Script

/-!
# Frameworks across resets

The registry may be reset while a framework still grows. Then numbers start again from zero, so two
arguments of one framework may have the same number. What keeps them apart is the label, which
a growth takes from the size of the framework and not from the registry. So in every history the
labels are those of the places, growths succeed, and extensions are told apart by their labels.
-/

namespace SolverAudit

/-! ### Labels and the registry -/

namespace Registry

variable {r : Registry} {label : String}

theorem label_intern (r : Registry) (label : String) : (r.intern label).1.label = label := by
  unfold intern
  split <;> rfl

theorem map_label_arguments (r : Registry) : r.arguments.map Argument.label = r.labels := by
  simp [arguments, Function.comp_def]

/-- A label that is asked for the first time makes one more argument. -/
theorem arguments_intern (hnew : label ∉ r.labels) :
    (r.intern label).2.arguments = r.arguments ++ [(r.intern label).1] := by
  rw [intern, dif_neg hnew]
  simp [arguments, List.zipIdx_append, size]

end Registry

namespace Framework

variable {σ : Type} [Source σ] {af af' : Framework} {source : σ} {context : Context σ}

/-! ### Histories -/

section

variable (source : σ)

/-- The frameworks and contexts that a history leads to: it starts from the framework without
arguments and a fresh context; a growth that applies may be made, whether or not it allows arguments
to attack themselves, and the context may be reset. -/
inductive Reached : Framework → Context σ → Prop where
  | root : Reached ∅ (.fresh source)
  | grow {af af' : Framework} {before after : Context σ} {selfAttacks : Bool}
      {growth : Growth σ Framework} (h : Reached af before)
      (hgrowth : growth ∈ (generator selfAttacks).growths) (happlies : growth.applies af = true)
      (hgrow : (growth.grow af).run before = (.ok af', after)) : Reached af' after
  | reset {af : Framework} {context : Context σ} (h : Reached af context) :
      Reached af context.reset

end

/-- The arguments are labelled with their places. -/
def Labelled (af : Framework) : Prop :=
  af.arguments.map Argument.label = (List.range af.size).map placeLabel

theorem labelled_empty : Labelled ∅ := rfl

theorem Labelled.of_arguments_eq (h : af.Labelled) (hsame : af'.arguments = af.arguments) :
    af'.Labelled := by
  rw [Labelled, size, hsame]
  exact h

theorem Labelled.of_arguments_append (h : af.Labelled) {a : Argument}
    (hlabel : a.label = placeLabel af.size) (harguments : af'.arguments = af.arguments ++ [a]) :
    af'.Labelled := by
  have hlength : af'.size = af.size + 1 := by simp [size, harguments]
  rw [Labelled, hlength, List.range_succ, List.map_append, ← h, harguments, List.map_append]
  exact congrArg (_ ++ [·]) hlabel

theorem Labelled.nodup (h : af.Labelled) : (af.arguments.map Argument.label).Nodup := by
  rw [h]
  exact List.nodup_range.map placeLabel_injective

theorem Labelled.label_eq (h : af.Labelled) {place : Nat} {a : Argument}
    (ha : af.argument? place = some a) : a.label = placeLabel place := by
  obtain ⟨hplace, rfl⟩ := List.getElem?_eq_some_iff.mp ha
  have hlabel := List.getElem_of_eq h (by simpa using hplace)
  simpa using hlabel

theorem Labelled.not_mem (h : af.Labelled) {a : Argument} (hlabel : a.label = placeLabel af.size) :
    a ∉ af.arguments := by
  intro hmem
  have hlabels := List.mem_map_of_mem (f := Argument.label) hmem
  rw [h, hlabel, List.mem_map_of_injective placeLabel_injective, List.mem_range] at hlabels
  exact Nat.lt_irrefl _ hlabels

/-! ### Growths in any context -/

/-- Whatever the registry knows, the growths that apply succeed. -/
theorem Labelled.exists_run (h : af.Labelled) {selfAttacks : Bool} {growth : Growth σ Framework}
    (hgrowth : growth ∈ (generator selfAttacks).growths) (happlies : growth.applies af = true)
    (before : Context σ) : ∃ af' after, (growth.grow af).run before = (.ok af', after) := by
  simp only [generator, List.mem_cons, List.not_mem_nil, or_false] at hgrowth
  rcases hgrowth with rfl | rfl
  · obtain ⟨af', hadd, -⟩ :=
      addArgument_of_not_mem (h.not_mem (before.registry.label_intern (placeLabel af.size)))
    exact ⟨af', _, run_newArgument_eq_ok.mpr ⟨hadd, rfl⟩⟩
  · obtain ⟨_, _, af', after, -, -, hrun, -⟩ := exists_run_newAttack happlies before
    exact ⟨af', after, hrun⟩

/-- The arguments that were added since the last reset are those of the registry. -/
structure Recorded (registry : Registry) (af : Framework) : Prop where
  labelled : af.Labelled
  suffix : registry.arguments <:+ af.arguments

variable {registry : Registry}

theorem recorded_of_empty (h : af.Labelled) : Recorded ∅ af :=
  ⟨h, List.nil_suffix⟩

theorem Recorded.not_mem_labels (h : Recorded registry af) :
    placeLabel af.size ∉ registry.labels := by
  rw [← registry.map_label_arguments]
  intro hmem
  obtain ⟨a, ha, hlabel⟩ := List.mem_map.mp hmem
  exact h.labelled.not_mem hlabel (h.suffix.mem ha)

theorem Recorded.grow {selfAttacks : Bool} {growth : Growth σ Framework}
    (hgrowth : growth ∈ (generator selfAttacks).growths) (happlies : growth.applies af = true)
    {before after : Context σ} (h : Recorded before.registry af)
    (hgrow : (growth.grow af).run before = (.ok af', after)) : Recorded after.registry af' := by
  simp only [generator, List.mem_cons, List.not_mem_nil, or_false] at hgrowth
  rcases hgrowth with rfl | rfl
  · obtain ⟨hadd, rfl⟩ := run_newArgument_eq_ok.mp hgrow
    obtain ⟨-, harguments, -⟩ := addArgument_eq_ok hadd
    obtain ⟨earlier, hearlier⟩ := h.suffix
    refine ⟨h.labelled.of_arguments_append (Registry.label_intern _ _) harguments, earlier, ?_⟩
    rw [Registry.arguments_intern h.not_mem_labels, harguments, ← List.append_assoc, hearlier]
  · obtain ⟨_, _, _, _, hmissing, hadd, hrun, hregistry⟩ := exists_run_newAttack happlies before
    obtain ⟨_, hadd', harguments, -⟩ := hmissing.addAttack
    obtain rfl := Except.ok.inj (hadd.symm.trans hadd')
    rw [hgrow] at hrun
    cases hrun
    rw [hregistry]
    exact ⟨h.labelled.of_arguments_eq harguments, harguments ▸ h.suffix⟩

theorem Reached.recorded (h : Reached source af context) : Recorded context.registry af := by
  induction h with
  | root => exact recorded_of_empty labelled_empty
  | grow _ hgrowth happlies hgrow ih => exact ih.grow hgrowth happlies hgrow
  | reset _ ih => exact recorded_of_empty ih.labelled

/-! ### Extensions and their labels -/

theorem mem_arguments_of_mem_extensions {e : OrderedSet Argument} (he : e ∈ af.extensions)
    {a : Argument} (ha : a ∈ e) : a ∈ af.arguments := by
  obtain ⟨s, -, rfl⟩ := mem_extensions_iff.mp he
  obtain ⟨place, -, hplace⟩ := mem_extensionOf.mp ha
  exact List.mem_of_getElem? hplace

/-- Extensions that are called the same are the same, if no two arguments are. -/
theorem eq_of_image_label_eq (hlabels : (af.arguments.map Argument.label).Nodup)
    {e e' : OrderedSet Argument} (he : e ∈ af.extensions) (he' : e' ∈ af.extensions)
    (hsame : e.image Argument.label = e'.image Argument.label) : e = e' := by
  have hsub : ∀ {e e' : OrderedSet Argument}, e ∈ af.extensions → e' ∈ af.extensions →
      e.image Argument.label = e'.image Argument.label → ∀ a ∈ e, a ∈ e' := by
    intro e e' he he' hsame a ha
    have hlabel : a.label ∈ e'.image Argument.label := hsame ▸ OrderedSet.mem_image.mpr ⟨a, ha, rfl⟩
    obtain ⟨b, hb, hba⟩ := OrderedSet.mem_image.mp hlabel
    obtain rfl : b = a := List.inj_on_of_nodup_map hlabels
      (mem_arguments_of_mem_extensions he' hb) (mem_arguments_of_mem_extensions he ha) hba
    exact hb
  exact OrderedSet.ext fun a => ⟨hsub he he' hsame a, hsub he' he hsame.symm a⟩

theorem bijOn_image_label (hlabels : (af.arguments.map Argument.label).Nodup) :
    Set.BijOn (fun e => e.image Argument.label) {e | e ∈ af.extensions}
      {labels | labels ∈ af.extensionLabels} := by
  refine ⟨fun e he => ?_, fun e he e' he' hsame => eq_of_image_label_eq hlabels he he' hsame,
    fun labels hmem => ?_⟩
  · exact OrderedSet.mem_image.mpr ⟨e, he, rfl⟩
  · exact OrderedSet.mem_image.mp hmem

/-! ### Main statement -/

/-- **Labels survive resets.** Wherever a history with resets leads to, all growths that apply
succeed, the arguments are labelled with their places, no two of them alike, and those that were
added since the last reset are numbered from zero, as is the next one after a reset. The label sets
are those of the extensions, one for each. -/
theorem labels_survive_resets (h : Reached source af context) :
    (∀ (selfAttacks : Bool), ∀ growth ∈ (generator selfAttacks : Generator σ Framework).growths,
        growth.applies af = true →
        ∃ af' after, (growth.grow af).run context = (.ok af', after))
      ∧ (∀ place < af.size, (af.argument? place).map Argument.label = some s!"a{place}")
      ∧ (af.arguments.map Argument.label).Nodup
      ∧ context.registry.arguments <:+ af.arguments
      ∧ (∀ af' after, (newArgument.grow af).run context.reset = (.ok af', after) →
        af'.arguments = af.arguments ++ [⟨0, placeLabel af.size⟩])
      ∧ af.extensionLabels.size = af.extensions.size
      ∧ Set.BijOn (fun e => e.image Argument.label) {e | e ∈ af.extensions}
        {labels | labels ∈ af.extensionLabels} := by
  obtain ⟨hlabelled, hsuffix⟩ := h.recorded
  have hbij := bijOn_image_label hlabelled.nodup
  refine ⟨fun selfAttacks growth hgrowth happlies => hlabelled.exists_run hgrowth happlies context,
    fun place hplace => ?_, hlabelled.nodup, hsuffix, fun af' after hgrow => ?_, ?_, hbij⟩
  · obtain ⟨a, ha⟩ := argument?_eq_some hplace
    rw [ha, Option.map_some, hlabelled.label_eq ha]
    rfl
  · exact (addArgument_eq_ok (run_newArgument_eq_ok.mp hgrow).1).2.1
  · rw [OrderedSet.size_eq_ncard, OrderedSet.size_eq_ncard, hbij.ncard_eq]

theorem labels_survive_resets_same_number :
    let af : Framework := ⟨[⟨0, "a0"⟩, ⟨0, "a1"⟩], [⟨0, 1⟩], by decide, by decide, by decide⟩
    let context : Context Script := ⟨⟨[]⟩, ⟨["a1"], by decide⟩⟩
    Reached ⟨[]⟩ af context ∧ af.lacksAttack true = true
      ∧ (∃ af' after, ((newAttack true).grow af).run context = (.ok af', after))
      ∧ (∀ place < af.size, (af.argument? place).map Argument.label = some s!"a{place}")
      ∧ (∀ af' after, (newArgument.grow af).run context.reset = (.ok af', after) →
        af'.arguments = af.arguments ++ [⟨0, placeLabel af.size⟩])
      ∧ af.extensionLabels.size = af.extensions.size := by
  intro af context
  let first : Framework := ⟨[⟨0, "a0"⟩], [], by decide, by decide, by decide⟩
  let second : Framework := ⟨[⟨0, "a0"⟩, ⟨0, "a1"⟩], [], by decide, by decide, by decide⟩
  let early : Context Script := ⟨⟨[]⟩, ⟨["a0"], by decide⟩⟩
  have hargument : newArgument ∈ (generator false : Generator Script Framework).growths := .head _
  have hattack : newAttack false ∈ (generator false : Generator Script Framework).growths :=
    .tail _ (.head _)
  have hfirst : (newArgument.grow ∅).run (.fresh ⟨[]⟩ : Context Script) = (.ok first, early) := rfl
  have hregistry : (early.reset.registry.intern (placeLabel 1)).2 = context.registry := by decide
  have hsecond : (newArgument.grow first).run early.reset = (.ok second, context) :=
    run_newArgument_eq_ok.mpr ⟨by decide, congrArg (Context.mk _) hregistry⟩
  have hthird : ((newAttack false).grow second).run context = (.ok af, context) := rfl
  have hreached : Reached ⟨[]⟩ af context :=
    .grow (.grow (.reset (.grow .root hargument rfl hfirst)) hargument rfl hsecond) hattack
      (by decide) hthird
  have hlacks : af.lacksAttack true = true := by decide
  obtain ⟨hsucceeds, hlabels, -, -, hzero, hsize, -⟩ := labels_survive_resets hreached
  exact ⟨hreached, hlacks, hsucceeds true _ (.tail _ (.head _)) hlacks, hlabels, hzero,
    hsize⟩

end Framework

end SolverAudit
