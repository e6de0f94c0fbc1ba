import Mathlib.Data.List.Basic
import SolverAudit.Argument.Framework
import SolverAudit.Proofs.Answer.Reader
import SolverAudit.Proofs.Ordered.Set
import SolverAudit.Proofs.Text.Blank

/-!
# Listings tell frameworks apart

Labels are listed as they are, and a label may look like a separator or like the end of a fact. What
kind of line a line is shows all the same: facts differ in their second letter, and only the edges
of a graph have a space. Within a fact or an edge a comma or a space is no part of a label, so it
tells where the first label ends. A listing therefore gives the labels in order and the attacks
between them, and with distinct labels it gives the places of the attacks as well.
-/

namespace SolverAudit

/-- Items of two kinds, those of the first kind in front, can be told apart again. -/
theorem append_eq_append_iff_of_kinds {α : Type} {first : α → Bool} {xs xs' ys ys' : List α}
    (hxs : ∀ x ∈ xs, first x = true) (hxs' : ∀ x ∈ xs', first x = true)
    (hys : ∀ y ∈ ys, first y = false) (hys' : ∀ y ∈ ys', first y = false) :
    xs ++ ys = xs' ++ ys' ↔ xs = xs' ∧ ys = ys' := by
  have hfront : ∀ {xs ys : List α}, (∀ x ∈ xs, first x = true) → (∀ y ∈ ys, first y = false) →
      (xs ++ ys).filter first = xs := by
    intro xs ys hxs hys
    have hnone : ys.filter first = [] :=
      List.filter_eq_nil_iff.mpr fun y hy => Bool.eq_false_iff.mp (hys y hy)
    rw [List.filter_append, List.filter_eq_self.mpr hxs, hnone, List.append_nil]
  constructor
  · intro hsame
    have hsameFront := congrArg (List.filter first) hsame
    rw [hfront hxs hys, hfront hxs' hys'] at hsameFront
    exact ⟨hsameFront, List.append_cancel_left (hsameFront ▸ hsame)⟩
  · rintro ⟨rfl, rfl⟩
    rfl

/-- Lists have the same images under two functions that tell their elements apart alike. -/
theorem map_eq_map_iff_of_alike {α β γ : Type} {f : α → β} {g : α → γ} {xs ys : List α}
    (halike : ∀ x ∈ xs, ∀ y ∈ ys, f x = f y ↔ g x = g y) :
    xs.map f = ys.map f ↔ xs.map g = ys.map g := by
  induction xs generalizing ys with
  | nil => cases ys <;> simp
  | cons x xs ih =>
      cases ys with
      | nil => simp
      | cons y ys =>
          have hhead := halike x List.mem_cons_self y List.mem_cons_self
          have htail := ih fun x hx y hy =>
            halike x (List.mem_cons_of_mem _ hx) y (List.mem_cons_of_mem _ hy)
          rw [List.map_cons, List.map_cons, List.map_cons, List.map_cons, List.cons.injEq,
            List.cons.injEq, hhead, htail]

namespace Framework

open Answer

variable {af bf : Framework}

/-! ### What a listing depends on -/

def labels (af : Framework) : List String := af.arguments.map Argument.label

/-- The labels are names, and each is the label of one argument. -/
structure WellLabelled (af : Framework) : Prop where
  distinct : af.labels.Nodup
  names : ∀ label ∈ af.labels, IsName label

def endLabels (ends : Argument × Argument) : String × String := (ends.1.label, ends.2.label)

/-- The labels at the ends of each attack, in increasing order of the attacks. -/
def attackLabels (af : Framework) : List (String × String) := af.attackArguments.map endLabels

theorem getElem?_labels (af : Framework) (place : Nat) :
    af.labels[place]? = (af.argument? place).map Argument.label :=
  List.getElem?_map

theorem attackLabels_eq (af : Framework) :
    af.attackLabels = af.attackSet.toList.filterMap fun a => do
      let source ← af.labels[a.source]?
      let target ← af.labels[a.target]?
      return (source, target) := by
  rw [attackLabels, attackArguments, List.map_filterMap]
  refine List.filterMap_congr fun a _ => ?_
  rw [getElem?_labels, getElem?_labels]
  cases af.argument? a.source <;> cases af.argument? a.target <;> rfl

/-- With distinct labels, the labels at its ends tell an attack. -/
theorem toList_attackSet (hdistinct : af.labels.Nodup) :
    af.attackSet.toList = af.attackLabels.map fun (source, target) =>
      ⟨af.labels.idxOf source, af.labels.idxOf target⟩ := by
  rw [attackLabels_eq, List.map_filterMap]
  refine List.filterMap_some.symm.trans (List.filterMap_congr fun a ha => ?_)
  obtain ⟨hsource, htarget⟩ := af.within a (OrderedSet.mem_ofList.mp ha)
  have hlength : af.labels.length = af.arguments.length := List.length_map _
  rw [← hlength] at hsource htarget
  simp [hsource, htarget, hdistinct.idxOf_getElem]

theorem attackLabels_eq_iff (haf : af.labels.Nodup) (hlabels : af.labels = bf.labels) :
    af.attackLabels = bf.attackLabels ↔ af.attackSet = bf.attackSet := by
  constructor
  · intro hsame
    apply OrderedSet.toList_injective
    rw [toList_attackSet haf, toList_attackSet (hlabels ▸ haf), hsame, hlabels]
  · intro hsame
    rw [attackLabels_eq, attackLabels_eq, hsame, hlabels]

theorem mem_arguments_of_mem_attackArguments {ends : Argument × Argument}
    (hends : ends ∈ af.attackArguments) : ends.1 ∈ af.arguments ∧ ends.2 ∈ af.arguments := by
  obtain ⟨a, -, ha⟩ := List.mem_filterMap.mp hends
  obtain ⟨source, hsource, ha⟩ := Option.bind_eq_some_iff.mp ha
  obtain ⟨target, htarget, ha⟩ := Option.bind_eq_some_iff.mp ha
  obtain rfl := Option.some.inj ha
  exact ⟨List.mem_of_getElem? hsource, List.mem_of_getElem? htarget⟩

theorem WellLabelled.isName (haf : af.WellLabelled) {a : Argument} (ha : a ∈ af.arguments) :
    IsName a.label :=
  haf.names _ (List.mem_map_of_mem ha)

theorem WellLabelled.isName_ends (haf : af.WellLabelled) {ends : Argument × Argument}
    (hends : ends ∈ af.attackArguments) : IsName ends.1.label ∧ IsName ends.2.label := by
  obtain ⟨hsource, htarget⟩ := mem_arguments_of_mem_attackArguments hends
  exact ⟨haf.isName hsource, haf.isName htarget⟩

/-! ### Lines -/

section

variable {label : String} {a b : Argument} {ends ends' : Argument × Argument} {c : Char}

theorem not_mem_of_isBlank (hlabel : IsName label) (hc : isBlank c = true) :
    c ∉ label.toList := by
  intro hmem
  rw [(hlabel.2 c hmem).1] at hc
  cases hc

theorem comma_not_mem (hlabel : IsName label) : ',' ∉ label.toList :=
  fun hmem => (hlabel.2 ',' hmem).2.2.2 rfl

theorem argumentFact_eq_iff : argumentFact a = argumentFact b ↔ a.label = b.label := by
  simp [argumentFact, String.toList_inj]

theorem endLabels_eq_iff :
    endLabels ends = endLabels ends' ↔
      ends.1.label = ends'.1.label ∧ ends.2.label = ends'.2.label := by
  rw [endLabels, endLabels, Prod.mk.injEq]

/-- The only comma of a fact ends the first label. -/
theorem attackFact_eq_iff (hsource : IsName ends.1.label) (htarget : IsName ends.2.label) :
    attackFact ends = attackFact ends' ↔ endLabels ends = endLabels ends' := by
  have hrest : ',' ∉ ends.2.label.toList ++ [')', '.'] := by
    simp [comma_not_mem htarget]
  have hfact : ∀ ends : Argument × Argument, attackFact ends =
      ['a', 't', 't', '('] ++
        (ends.1.label.toList ++ ',' :: (ends.2.label.toList ++ [')', '.'])) := by
    simp [attackFact]
  rw [hfact, hfact, List.append_right_inj,
    List.append_cons_inj_of_notMem (comma_not_mem hsource) hrest, List.append_left_inj,
    String.toList_inj, String.toList_inj, endLabels_eq_iff]
  simp

/-- The only space of an edge ends the first label. -/
theorem edge_eq_iff (hsource : IsName ends.1.label) (htarget : IsName ends.2.label) :
    edge ends = edge ends' ↔ endLabels ends = endLabels ends' := by
  have hedge : ∀ ends : Argument × Argument,
      edge ends = ends.1.label.toList ++ ' ' :: ends.2.label.toList := by
    simp [edge]
  rw [hedge, hedge, List.append_cons_inj_of_notMem (not_mem_of_isBlank hsource rfl)
    (not_mem_of_isBlank htarget rfl), String.toList_inj, String.toList_inj, endLabels_eq_iff]
  simp

end

/-! ### Listings -/

section

variable (haf : af.WellLabelled)
include haf

theorem WellLabelled.newline_not_mem_facts :
    ∀ row ∈ af.arguments.map argumentFact ++ af.attackArguments.map attackFact, '\n' ∉ row := by
  refine List.forall_mem_append.mpr ⟨List.forall_mem_map.mpr fun a ha => ?_,
    List.forall_mem_map.mpr fun ends hends => ?_⟩
  · have hlabel := not_mem_of_isBlank (c := '\n') (haf.isName ha) rfl
    simp [argumentFact, hlabel]
  · have hsource := not_mem_of_isBlank (c := '\n') (haf.isName_ends hends).1 rfl
    have htarget := not_mem_of_isBlank (c := '\n') (haf.isName_ends hends).2 rfl
    simp [attackFact, hsource, htarget]

theorem WellLabelled.newline_not_mem_graph :
    ∀ row ∈ af.arguments.map (fun a => a.label.toList) ++ [['#']] ++ af.attackArguments.map edge,
      '\n' ∉ row := by
  refine List.forall_mem_append.mpr ⟨List.forall_mem_append.mpr
    ⟨List.forall_mem_map.mpr fun a ha => not_mem_of_isBlank (haf.isName ha) rfl, by decide⟩,
    List.forall_mem_map.mpr fun ends hends => ?_⟩
  have hsource := not_mem_of_isBlank (c := '\n') (haf.isName_ends hends).1 rfl
  have htarget := not_mem_of_isBlank (c := '\n') (haf.isName_ends hends).2 rfl
  simp [edge, hsource, htarget]

/-- Whether a line of the graph is a node or the line behind the nodes. -/
theorem WellLabelled.space_not_mem_nodes :
    ∀ row ∈ af.arguments.map (fun a => a.label.toList) ++ [['#']],
      (!row.contains ' ') = true := by
  refine List.forall_mem_append.mpr ⟨List.forall_mem_map.mpr fun a ha => ?_, by decide⟩
  have hlabel := not_mem_of_isBlank (c := ' ') (haf.isName ha) rfl
  simp [hlabel]

variable (hbf : bf.WellLabelled)
include hbf

theorem WellLabelled.facts_eq_iff :
    af.facts = bf.facts ↔ af.labels = bf.labels ∧ af.attackSet = bf.attackSet := by
  let isArgumentFact : List Char → Bool := fun row => row[1]? == some 'r'
  have hargument : ∀ af : Framework,
      ∀ row ∈ af.arguments.map argumentFact, isArgumentFact row = true := fun af =>
    List.forall_mem_map.mpr fun _ _ => rfl
  have hattack : ∀ af : Framework,
      ∀ row ∈ af.attackArguments.map attackFact, isArgumentFact row = false := fun af =>
    List.forall_mem_map.mpr fun _ _ => rfl
  calc
    af.facts = bf.facts ↔
        af.arguments.map argumentFact ++ af.attackArguments.map attackFact =
          bf.arguments.map argumentFact ++ bf.attackArguments.map attackFact := by
      rw [facts, facts, String.ofList_inj,
        unlines_inj haf.newline_not_mem_facts hbf.newline_not_mem_facts]
    _ ↔ af.arguments.map argumentFact = bf.arguments.map argumentFact
        ∧ af.attackArguments.map attackFact = bf.attackArguments.map attackFact :=
      append_eq_append_iff_of_kinds (hargument af) (hargument bf) (hattack af) (hattack bf)
    _ ↔ af.labels = bf.labels ∧ af.attackLabels = bf.attackLabels :=
      and_congr (map_eq_map_iff_of_alike fun _ _ _ _ => argumentFact_eq_iff)
        (map_eq_map_iff_of_alike fun _ hends _ _ =>
          attackFact_eq_iff (haf.isName_ends hends).1 (haf.isName_ends hends).2)
    _ ↔ af.labels = bf.labels ∧ af.attackSet = bf.attackSet :=
      and_congr_right (attackLabels_eq_iff haf.distinct)

theorem WellLabelled.graph_eq_iff :
    af.graph = bf.graph ↔ af.labels = bf.labels ∧ af.attackSet = bf.attackSet := by
  have hedge : ∀ af : Framework,
      ∀ row ∈ af.attackArguments.map edge, (!row.contains ' ') = false := fun af =>
    List.forall_mem_map.mpr fun _ _ => by simp [edge]
  calc
    af.graph = bf.graph ↔
        af.arguments.map (fun a => a.label.toList) ++ [['#']] ++ af.attackArguments.map edge =
          bf.arguments.map (fun a => a.label.toList) ++ [['#']] ++ bf.attackArguments.map edge := by
      rw [graph, graph, String.ofList_inj,
        unlines_inj haf.newline_not_mem_graph hbf.newline_not_mem_graph]
    _ ↔ af.arguments.map (fun a => a.label.toList) ++ [['#']] =
          bf.arguments.map (fun a => a.label.toList) ++ [['#']]
        ∧ af.attackArguments.map edge = bf.attackArguments.map edge :=
      append_eq_append_iff_of_kinds haf.space_not_mem_nodes hbf.space_not_mem_nodes (hedge af)
        (hedge bf)
    _ ↔ af.labels = bf.labels ∧ af.attackLabels = bf.attackLabels := by
      rw [List.append_left_inj]
      exact and_congr (map_eq_map_iff_of_alike fun _ _ _ _ => String.toList_inj)
        (map_eq_map_iff_of_alike fun _ hends _ _ =>
          edge_eq_iff (haf.isName_ends hends).1 (haf.isName_ends hends).2)
    _ ↔ af.labels = bf.labels ∧ af.attackSet = bf.attackSet :=
      and_congr_right (attackLabels_eq_iff haf.distinct)

end

/-! ### Main statement -/

/-- **Listings tell frameworks apart.** With distinct labels that are names, two frameworks have the
same facts, or the same graph, exactly if they have the same labels in the same order and the same
attacks between the places. -/
theorem listings_tell_apart (haf : af.WellLabelled) (hbf : bf.WellLabelled) :
    (af.facts = bf.facts ↔ af.labels = bf.labels ∧ af.attackSet = bf.attackSet)
      ∧ (af.graph = bf.graph ↔ af.labels = bf.labels ∧ af.attackSet = bf.attackSet) :=
  ⟨haf.facts_eq_iff hbf, haf.graph_eq_iff hbf⟩

theorem listings_tell_apart_separators :
    let af : Framework :=
      ⟨[⟨0, "#"⟩, ⟨1, "a)."⟩], [⟨1, 0⟩, ⟨0, 0⟩], by decide, by decide, by decide⟩
    let bf : Framework :=
      ⟨[⟨5, "#"⟩, ⟨3, "a)."⟩], [⟨0, 0⟩, ⟨1, 0⟩], by decide, by decide, by decide⟩
    let cf : Framework := ⟨[⟨0, "#"⟩, ⟨1, "#)."⟩], [], by decide, by decide, by decide⟩
    (af.WellLabelled ∧ bf.WellLabelled ∧ cf.WellLabelled)
      ∧ (af.facts = bf.facts ∧ af.graph = bf.graph)
      ∧ af.facts ≠ cf.facts ∧ af.graph ≠ cf.graph := by
  intro af bf cf
  have haf : af.WellLabelled := ⟨by decide, by decide⟩
  have hbf : bf.WellLabelled := ⟨by decide, by decide⟩
  have hcf : cf.WellLabelled := ⟨by decide, by decide⟩
  have hlabels : af.labels ≠ cf.labels := by decide
  have hattacks : af.attackSet = bf.attackSet := by
    have hperm : af.attacks.Perm bf.attacks := by decide
    exact OrderedSet.ext fun a => by simp only [attackSet, OrderedSet.mem_ofList, hperm.mem_iff]
  obtain ⟨hfacts, hgraph⟩ := listings_tell_apart haf hbf
  obtain ⟨hfacts', hgraph'⟩ := listings_tell_apart haf hcf
  exact ⟨⟨haf, hbf, hcf⟩, ⟨hfacts.mpr ⟨rfl, hattacks⟩, hgraph.mpr ⟨rfl, hattacks⟩⟩,
    fun h => hlabels (hfacts'.mp h).1, fun h => hlabels (hgraph'.mp h).1⟩

end Framework

end SolverAudit
