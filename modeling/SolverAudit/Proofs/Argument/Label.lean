import Mathlib.Data.List.Basic
import SolverAudit.Proofs.Argument.Reset

/-!
# Labels that are taken

A framework that is made by hand may have any labels, also the one that a growth takes for the next
place. The registry then gives the growth an argument that the framework has already. So the growth
by an argument applies always, but it only succeeds where the label of the next place is free, as it
is in the frameworks that growths alone have made.
-/

namespace SolverAudit

/-! ### What the registry knows -/

namespace Registry

variable {r : Registry} {a : Argument} {label : String}

theorem mem_arguments : a ∈ r.arguments ↔ r.labels[a.id]? = some a.label := by
  simp only [arguments, List.mem_map, Prod.exists, List.mem_zipIdx_iff_getElem?]
  constructor
  · rintro ⟨label, id, hlabel, rfl⟩
    exact hlabel
  · exact fun hlabel => ⟨a.label, a.id, hlabel, rfl⟩

/-- A label that has been asked for names the same argument again. -/
theorem intern_of_mem (ha : a ∈ r.arguments) : r.intern a.label = (a, r) := by
  obtain ⟨hid, hlabel⟩ := List.getElem?_eq_some_iff.mp (mem_arguments.mp ha)
  have hplace : r.labels.idxOf a.label = a.id := by
    rw [← hlabel]
    exact r.distinct.idxOf_getElem a.id hid
  rw [intern, dif_pos (List.mem_of_getElem hlabel), hplace]

theorem arguments_subset_intern (r : Registry) (label : String) :
    r.arguments ⊆ (r.intern label).2.arguments := by
  by_cases hlabel : label ∈ r.labels
  · rw [intern, dif_pos hlabel]
    exact List.Subset.refl _
  · rw [arguments_intern hlabel]
    exact List.subset_append_left _ _

theorem mem_arguments_intern (r : Registry) (label : String) :
    (r.intern label).1 ∈ (r.intern label).2.arguments := by
  by_cases hlabel : label ∈ r.labels
  · rw [intern, dif_pos hlabel, mem_arguments]
    exact List.getElem?_idxOf hlabel
  · rw [arguments_intern hlabel]
    exact List.mem_append_right _ (List.mem_singleton_self _)

end Registry

namespace Framework

/-! ### Frameworks made by hand -/

/-- The registries and the frameworks that are made by asking for labels, adding arguments that the
registry knows, and adding attacks. -/
inductive Built : Registry → Framework → Prop where
  | empty : Built ∅ ∅
  | intern {registry : Registry} {af : Framework} (h : Built registry af) (label : String) :
      Built (registry.intern label).2 af
  | argument {registry : Registry} {af af' : Framework} {a : Argument} (h : Built registry af)
      (ha : a ∈ registry.arguments) (hadd : af.addArgument a = .ok af') : Built registry af'
  | attack {registry : Registry} {af af' : Framework} {source target : Nat} (h : Built registry af)
      (hadd : af.addAttack source target = .ok af') : Built registry af'

variable {registry : Registry} {af af' : Framework} {a : Argument}

theorem addAttack_eq_ok {source target : Nat} (h : af.addAttack source target = .ok af') :
    af'.arguments = af.arguments ∧ af'.attacks = af.attacks ++ [⟨source, target⟩] := by
  unfold addAttack at h
  split at h
  · split at h
    · cases h
    · cases h
      exact ⟨rfl, rfl⟩
  · cases h

theorem Built.known (h : Built registry af) : af.arguments ⊆ registry.arguments := by
  induction h with
  | empty => exact List.nil_subset _
  | @intern registry _ _ label ih =>
      exact List.Subset.trans ih (registry.arguments_subset_intern label)
  | argument _ ha hadd ih =>
      rw [(addArgument_eq_ok hadd).2.1]
      exact List.append_subset.mpr ⟨ih, List.cons_subset.mpr ⟨ha, List.nil_subset _⟩⟩
  | attack _ hadd ih =>
      rw [(addAttack_eq_ok hadd).1]
      exact ih

theorem addArgument_of_mem (ha : a ∈ af.arguments) :
    af.addArgument a = .error (.argumentPresent a.label) :=
  dif_pos ha

theorem hasAttack_eq_false {source target : Nat} (hle : af.size ≤ source ∨ af.size ≤ target) :
    af.hasAttack source target = false := by
  rw [← Bool.not_eq_true]
  intro hattack
  have hlt := lt_size_of_hasAttack hattack
  omega

/-- One label is enough for a framework with one argument. -/
theorem exists_built_single (label : String) :
    ∃ af, Built ((∅ : Registry).intern label).2 af ∧ af.arguments = [⟨0, label⟩] := by
  obtain ⟨af, hadd, harguments, -⟩ :=
    @addArgument_of_not_mem ∅ ⟨0, label⟩ List.not_mem_nil
  exact ⟨af, (Built.empty.intern label).argument (Registry.mem_arguments_intern _ _) hadd,
    harguments⟩

/-! ### The label of the next place -/

variable {σ : Type} {before after : Context σ}

/-- Arguments of the registry are told by their labels. -/
theorem Built.intern_mem_iff (h : Built registry af) {label : String} :
    (registry.intern label).1 ∈ af.arguments ↔ label ∈ af.arguments.map Argument.label := by
  constructor
  · intro hmem
    exact List.mem_map.mpr ⟨_, hmem, registry.label_intern label⟩
  · intro hlabel
    obtain ⟨a, ha, rfl⟩ := List.mem_map.mp hlabel
    rw [Registry.intern_of_mem (h.known ha)]
    exact ha

theorem Built.run_newArgument_taken (h : Built before.registry af)
    (htaken : placeLabel af.size ∈ af.arguments.map Argument.label) :
    (newArgument.grow af).run before =
      (.error (.of (Refusal.argumentPresent (placeLabel af.size))), before) := by
  obtain ⟨a, ha, hlabel⟩ := List.mem_map.mp htaken
  rw [run_grow_newArgument, ← hlabel, Registry.intern_of_mem (h.known ha), addArgument_of_mem ha]
  rfl

/-- What the growth by an argument makes of a framework. -/
structure AddsArgument (af af' : Framework) : Prop where
  arguments_eq : ∃ a : Argument, a.label = placeLabel af.size ∧ af'.arguments = af.arguments ++ [a]
  attacks_eq : af'.attacks = af.attacks
  apart : ∀ place, af'.hasAttack af.size place = false ∧ af'.hasAttack place af.size = false

theorem addsArgument_of_run (hrun : (newArgument.grow af).run before = (.ok af', after)) :
    AddsArgument af af' := by
  obtain ⟨hadd, -⟩ := run_newArgument_eq_ok.mp hrun
  obtain ⟨-, harguments, hattacks⟩ := addArgument_eq_ok hadd
  have hsame : ∀ source target, af'.hasAttack source target = af.hasAttack source target :=
    fun source target => by rw [hasAttack, hattacks, hasAttack]
  refine ⟨⟨_, Registry.label_intern _ _, harguments⟩, hattacks, fun place => ⟨?_, ?_⟩⟩
  · rw [hsame]
    exact hasAttack_eq_false (.inl (Nat.le_refl _))
  · rw [hsame]
    exact hasAttack_eq_false (.inr (Nat.le_refl _))

theorem Built.of_run_newArgument (h : Built before.registry af)
    (hrun : (newArgument.grow af).run before = (.ok af', after)) : Built after.registry af' := by
  obtain ⟨hadd, rfl⟩ := run_newArgument_eq_ok.mp hrun
  exact (h.intern (placeLabel af.size)).argument (Registry.mem_arguments_intern _ _) hadd

/-- **When a new argument can be added.** The growth by an argument applies to every framework that
is made of arguments of the registry. It succeeds unless one of them has the label of the next
place; then it fails, since that argument is there already, and the context stays as it is. When it
succeeds, the framework has one more argument at the end, which has the label of the next place and
neither attacks nor is attacked, and the same attacks. -/
theorem newArgument_succeeds_iff (h : Built before.registry af) :
    (newArgument : Growth σ Framework).applies af = true
      ∧ (newArgument.Succeeds af before ↔ placeLabel af.size ∉ af.arguments.map Argument.label)
      ∧ (placeLabel af.size ∈ af.arguments.map Argument.label →
        (newArgument.grow af).run before =
          (.error (.of (Refusal.argumentPresent (placeLabel af.size))), before))
      ∧ ∀ af' after, (newArgument.grow af).run before = (.ok af', after) →
        AddsArgument af af' ∧ Built after.registry af' := by
  refine ⟨rfl, ⟨?_, fun hfree => ?_⟩, h.run_newArgument_taken, fun af' after hrun =>
    ⟨addsArgument_of_run hrun, h.of_run_newArgument hrun⟩⟩
  · rintro ⟨af', after, hrun⟩ htaken
    rw [h.run_newArgument_taken htaken] at hrun
    cases hrun
  · rw [← h.intern_mem_iff] at hfree
    obtain ⟨af', hadd, -⟩ := addArgument_of_not_mem hfree
    exact ⟨af', _, run_newArgument_eq_ok.mpr ⟨hadd, rfl⟩⟩

theorem newArgument_succeeds_iff_single :
    ∃ (free taken : Context Unit) (af bf : Framework),
      (Built free.registry af ∧ Built taken.registry bf)
      ∧ af.arguments = [⟨0, "x"⟩] ∧ bf.arguments = [⟨0, "a1"⟩]
      ∧ newArgument.Succeeds af free
      ∧ (newArgument.grow bf).run taken =
        (.error (.of (Refusal.argumentPresent "a1")), taken) := by
  obtain ⟨af, hfree, haf⟩ := exists_built_single "x"
  obtain ⟨bf, htaken, hbf⟩ := exists_built_single "a1"
  let free : Context Unit := ⟨(), ((∅ : Registry).intern "x").2⟩
  let taken : Context Unit := ⟨(), ((∅ : Registry).intern "a1").2⟩
  have hfree : Built free.registry af := hfree
  have htaken : Built taken.registry bf := htaken
  obtain ⟨-, hsucceeds, -⟩ := newArgument_succeeds_iff hfree
  obtain ⟨-, -, hfails, -⟩ := newArgument_succeeds_iff htaken
  refine ⟨free, taken, af, bf, ⟨hfree, htaken⟩, haf, hbf, hsucceeds.mpr ?_, ?_⟩
  · rw [size, haf]
    decide
  · rw [size, hbf] at hfails
    exact hfails (by decide)

/-- The label of the next place may be taken although the growth applies. -/
theorem newArgument_not_always :
    ¬ ∀ (before : Context Unit) (af : Framework), Built before.registry af →
      (newArgument : Growth Unit Framework).applies af = true →
      newArgument.Succeeds af before := by
  intro hall
  obtain ⟨af, hbuilt, harguments⟩ := exists_built_single (placeLabel 1)
  have htaken : placeLabel af.size ∈ af.arguments.map Argument.label := by
    simp [size, harguments]
  obtain ⟨af', after, hrun⟩ := hall ⟨(), ((∅ : Registry).intern (placeLabel 1)).2⟩ af hbuilt rfl
  rw [Built.run_newArgument_taken hbuilt htaken] at hrun
  cases hrun

end Framework

end SolverAudit
