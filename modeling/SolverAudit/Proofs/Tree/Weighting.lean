import Mathlib.Algebra.BigOperators.Group.List.Basic
import SolverAudit.Proofs.Ordered.Occurrence
import SolverAudit.Proofs.Tree.Progress
import SolverAudit.Tree.Weighting

/-!
# Weights that match the growths

Weights are looked at in the order in which they are listed, then the names of the growths are. The
two searches together find a fault unless the weights name the growths and nothing else and none is
negative, whatever the order. Then each growth that is the first of its name is tried as often as
its weight says.
-/

namespace SolverAudit

variable {σ ι : Type} {g h : Generator σ ι} {growths : List (Growth σ ι)}
  {weights weights' : List (String × Int)} {names : List String} {name : String}

/-! ### The first growth of each name -/

theorem firstOfName_concat (growths : List (Growth σ ι)) (last : Growth σ ι) :
    firstOfName (growths ++ [last]) =
      if last.name ∈ growths.map Growth.name then firstOfName growths
      else firstOfName growths ++ [last] := by
  induction growths with
  | nil => rfl
  | cons growth rest ih =>
      rw [List.cons_append, firstOfName, firstOfName, ih]
      by_cases hrest : last.name ∈ rest.map Growth.name
      · have hall : last.name ∈ (growth :: rest).map Growth.name := List.mem_cons_of_mem _ hrest
        rw [if_pos hrest, if_pos hall]
      · rw [if_neg hrest, List.filter_append]
        by_cases hsame : last.name = growth.name
        · simp [hsame]
        · simp [hsame, hrest]

theorem map_name_firstOfName (growths : List (Growth σ ι)) :
    (firstOfName growths).map Growth.name = (growths.map Growth.name).eraseDups := by
  induction growths using List.reverseRecOn with
  | nil => rfl
  | append_singleton growths last ih =>
      rw [firstOfName_concat, List.map_append, List.map_singleton, eraseDups_concat, ← ih]
      split
      · rfl
      · rw [List.map_append, List.map_singleton]

theorem find?_of_mem_firstOfName {growth : Growth σ ι} (hgrowth : growth ∈ firstOfName growths) :
    growths.find? (fun other => other.name == growth.name) = some growth := by
  induction growths using List.reverseRecOn with
  | nil => cases hgrowth
  | append_singleton growths last ih =>
      rw [firstOfName_concat] at hgrowth
      rw [List.find?_append]
      by_cases hlast : last.name ∈ growths.map Growth.name
      · rw [if_pos hlast] at hgrowth
        rw [ih hgrowth, Option.some_or]
      · rw [if_neg hlast] at hgrowth
        rcases List.mem_append.mp hgrowth with hgrowth | hgrowth
        · rw [ih hgrowth, Option.some_or]
        · obtain rfl := List.mem_singleton.mp hgrowth
          have hnone : growths.find? (fun other => other.name == growth.name) = none :=
            List.find?_eq_none.mpr fun other hother hsame =>
              hlast (List.mem_map.mpr ⟨other, hother, eq_of_beq hsame⟩)
          simp [hnone]

/-! ### Weights of distinct names -/

theorem lookup_eq_none_iff : weights.lookup name = none ↔ name ∉ weights.map Prod.fst := by
  simp only [List.lookup_eq_none_iff, bne_iff_ne, List.mem_map, not_exists, not_and]
  exact forall₂_congr fun _ _ => ne_comm

theorem lookup_eq_some_iff (hkeys : (weights.map Prod.fst).Nodup) {weight : Int} :
    weights.lookup name = some weight ↔ (name, weight) ∈ weights := by
  rw [List.lookup_eq_some_iff]
  constructor
  · rintro ⟨before, after, rfl, -⟩
    exact List.mem_append_right _ List.mem_cons_self
  · intro hmem
    obtain ⟨before, after, rfl⟩ := List.append_of_mem hmem
    rw [List.map_append, List.map_cons, List.nodup_append'] at hkeys
    refine ⟨before, after, rfl, fun other hother => ?_⟩
    have hapart := hkeys.2.2 (List.mem_map_of_mem hother)
    exact bne_iff_ne.mpr fun hsame => hapart (List.mem_cons.mpr (.inl hsame.symm))

theorem lookup_perm (hkeys : (weights.map Prod.fst).Nodup) (hperm : weights.Perm weights')
    (name : String) : weights.lookup name = weights'.lookup name := by
  have hkeys' := (hperm.map Prod.fst).nodup_iff.mp hkeys
  refine Option.ext fun weight => ?_
  rw [lookup_eq_some_iff hkeys, lookup_eq_some_iff hkeys', hperm.mem_iff]

theorem timesOf_of_mem (hkeys : (weights.map Prod.fst).Nodup) {weight : String × Int}
    (hweight : weight ∈ weights) : timesOf weights weight.1 = weight.2.toNat := by
  rw [timesOf, (lookup_eq_some_iff hkeys).mpr hweight]
  rfl

/-! ### Faults -/

theorem faultOfWeight?_eq_none_iff {weight : String × Int} :
    faultOfWeight? names weight = none ↔ 0 ≤ weight.2 ∧ weight.1 ∈ names := by
  obtain ⟨name, weight⟩ := weight
  rw [faultOfWeight?]
  by_cases hnegative : weight < 0
  · simp [hnegative]
  · by_cases hname : name ∈ names
    · simp [hnegative, hname, Int.not_lt.mp hnegative]
    · simp [hnegative, hname]

/-- The weights and the names are looked at one after the other, but what they have to meet does not
depend on the order. -/
theorem weightFault?_eq_none_iff :
    weightFault? names weights = none ↔
      (∀ name, name ∈ weights.map Prod.fst ↔ name ∈ names) ∧ ∀ weight ∈ weights, 0 ≤ weight.2 := by
  rw [weightFault?, Option.or_eq_none_iff, List.findSome?_eq_none_iff, Option.map_eq_none_iff,
    List.find?_eq_none]
  simp only [faultOfWeight?_eq_none_iff, Option.isNone_iff_eq_none, lookup_eq_none_iff,
    Decidable.not_not]
  constructor
  · rintro ⟨hweights, hnames⟩
    refine ⟨fun name => ⟨fun hname => ?_, hnames name⟩, fun weight h => (hweights weight h).1⟩
    obtain ⟨weight, hweight, rfl⟩ := List.mem_map.mp hname
    exact (hweights weight hweight).2
  · rintro ⟨hnames, hweights⟩
    exact ⟨fun weight h => ⟨hweights weight h, (hnames _).mp (List.mem_map_of_mem h)⟩,
      fun name => (hnames name).mpr⟩

namespace Generator

/-- The weights name the growths and nothing else, and none of them is negative. -/
def Matches (g : Generator σ ι) (weights : List (String × Int)) : Prop :=
  (∀ name, name ∈ weights.map Prod.fst ↔ name ∈ g.growths.map Growth.name)
    ∧ ∀ weight ∈ weights, 0 ≤ weight.2

theorem matches_iff : g.Matches weights ↔
    weightFault? ((firstOfName g.growths).map Growth.name) weights = none := by
  rw [weightFault?_eq_none_iff, map_name_firstOfName]
  simp only [List.mem_eraseDups]
  rfl

theorem matches_perm (hperm : weights.Perm weights') : g.Matches weights ↔ g.Matches weights' := by
  simp only [Matches, (hperm.map Prod.fst).mem_iff, hperm.mem_iff]

theorem weighted_of_matches (hmatches : g.Matches weights) :
    g.weighted weights = .ok (g.repeated (timesOf weights)) := by
  rw [weighted, matches_iff.mp hmatches]

theorem exists_fault_of_not_matches (hnot : ¬ g.Matches weights) :
    ∃ fault, g.weighted weights = .error fault := by
  obtain ⟨fault, hfault⟩ := Option.ne_none_iff_exists'.mp (mt matches_iff.mpr hnot)
  exact ⟨fault, by rw [weighted, hfault]⟩

theorem weighted_eq_ok_iff :
    g.weighted weights = .ok h ↔ g.Matches weights ∧ h = g.repeated (timesOf weights) := by
  by_cases hmatches : g.Matches weights
  · rw [weighted_of_matches hmatches, Except.ok.injEq, eq_comm]
    exact (and_iff_right hmatches).symm
  · obtain ⟨fault, hfault⟩ := exists_fault_of_not_matches hmatches
    rw [hfault]
    exact iff_of_false (fun hsame => nomatch hsame) fun hboth => hmatches hboth.1

theorem repeated_perm (hkeys : (weights.map Prod.fst).Nodup) (hperm : weights.Perm weights')
    (g : Generator σ ι) : g.repeated (timesOf weights) = g.repeated (timesOf weights') := by
  congr 1
  funext name
  rw [timesOf, timesOf, lookup_perm hkeys hperm]

/-! ### The growths made anew -/

theorem forM_checkWeight (names : List String) (weights : List (String × Int)) :
    weights.forM (checkWeight names) =
      match weights.findSome? (faultOfWeight? names) with
      | some fault => .error fault
      | none => .ok () := by
  induction weights with
  | nil => rfl
  | cons weight weights ih =>
      rw [List.forM, List.findSome?_cons, checkWeight]
      cases faultOfWeight? names weight with
      | some fault => rfl
      | none => exact ih

theorem foldlM_addTimes (weights : List (String × Int)) (growths effective : List (Growth σ ι)) :
    growths.foldlM (addTimes weights) effective =
      match (growths.map Growth.name).find? fun name => (weights.lookup name).isNone with
      | some name => .error (.missing name)
      | none => .ok (effective ++ growths.flatMap fun growth =>
          List.replicate (timesOf weights growth.name) growth) := by
  induction growths generalizing effective with
  | nil => exact congrArg Except.ok (List.append_nil _).symm
  | cons growth growths ih =>
      rw [List.foldlM_cons, List.map_cons, List.find?_cons, addTimes]
      cases hlookup : weights.lookup growth.name with
      | none => rfl
      | some weight =>
          have htimes : timesOf weights growth.name = weight.toNat := by rw [timesOf, hlookup]; rfl
          refine (ih _).trans ?_
          rw [List.flatMap_cons, htimes, List.append_assoc]
          rfl

/-- The growths made anew are those of the weighted generator, and there is a fault when there is
one in the weights. -/
theorem effectiveBy_eq (g : Generator σ ι) (weights : List (String × Int)) :
    g.effectiveBy weights = (g.weighted weights).map Generator.effective := by
  have hbind : g.effectiveBy weights =
      weights.forM (checkWeight ((firstOfName g.growths).map Growth.name)) >>= fun _ =>
        (firstOfName g.growths).foldlM (addTimes weights) [] := rfl
  rw [hbind, forM_checkWeight, foldlM_addTimes, weighted, weightFault?]
  cases weights.findSome? (faultOfWeight? ((firstOfName g.growths).map Growth.name)) with
  | some fault => rfl
  | none =>
      rw [Option.none_or]
      cases ((firstOfName g.growths).map Growth.name).find?
          fun name => (weights.lookup name).isNone with
      | some name => rfl
      | none => rfl

/-! ### How often each growth is tried -/

theorem effective_repeated (g : Generator σ ι) (times : String → Nat) :
    (g.repeated times).effective =
      (g.growths.map Growth.name).eraseDups.flatMap fun name =>
        (g.growths.find? fun growth => growth.name == name).toList.flatMap fun growth =>
          List.replicate (times name) growth := by
  rw [repeated, ← map_name_firstOfName, List.flatMap_map]
  refine List.flatMap_congr fun growth hgrowth => ?_
  rw [find?_of_mem_firstOfName hgrowth]
  simp

theorem Matches.perm_names (hmatches : g.Matches weights) (hkeys : (weights.map Prod.fst).Nodup) :
    ((firstOfName g.growths).map Growth.name).Perm (weights.map Prod.fst) := by
  rw [map_name_firstOfName]
  refine (List.perm_ext_iff_of_nodup (nodup_eraseDups _) hkeys).mpr fun name => ?_
  rw [List.mem_eraseDups, hmatches.1]

/-- All weights together tell how many growths are tried. -/
theorem Matches.length_effective (hmatches : g.Matches weights)
    (hkeys : (weights.map Prod.fst).Nodup) :
    ((g.repeated (timesOf weights)).effective.length : Int) = (weights.map Prod.snd).sum := by
  have htimes : ∀ weight ∈ weights, ((timesOf weights weight.1 : Nat) : Int) = weight.2 := by
    intro weight hweight
    rw [timesOf_of_mem hkeys hweight, Int.toNat_of_nonneg (hmatches.2 weight hweight)]
  calc
    ((g.repeated (timesOf weights)).effective.length : Int) =
        (((firstOfName g.growths).map Growth.name).map (timesOf weights)).sum := by
      simp [repeated, List.length_flatMap, Function.comp_def]
    _ = ((weights.map Prod.fst).map (timesOf weights)).sum := by
      rw [((hmatches.perm_names hkeys).map (timesOf weights)).sum_eq]
    _ = (weights.map Prod.snd).sum := by
      rw [Nat.cast_list_sum, List.map_map, List.map_map]
      exact congrArg List.sum (List.map_congr_left htimes)

/-! ### Main statement -/

theorem kind_of_weightFault (fault : WeightFault) :
    (Failure.of fault).kind = .invalidConfiguration := rfl

/-- **Weights count if they match.** Weights of distinct names are accepted exactly if they name the
growths of the generator and nothing else and none of them is negative; otherwise the configuration
is invalid. In whatever order they are listed, they make the same generator, whose growths may be
made anew without a fault: the first growth of each name in the order of the names, as often as its
weight says, so all together as many as the weights add up to. -/
theorem weighted_iff_matches (g : Generator σ ι) (hkeys : (weights.map Prod.fst).Nodup) :
    ((∃ h, g.weighted weights = .ok h) ↔
        (∀ name, name ∈ weights.map Prod.fst ↔ name ∈ g.growths.map Growth.name)
          ∧ ∀ weight ∈ weights, 0 ≤ weight.2)
      ∧ (¬ (∃ h, g.weighted weights = .ok h) → ∃ failure,
        orFail (g.weighted weights) = .error failure ∧ failure.kind = .invalidConfiguration)
      ∧ (∀ weights', weights.Perm weights' →
        ∀ h, g.weighted weights = .ok h ↔ g.weighted weights' = .ok h)
      ∧ ∀ h, g.weighted weights = .ok h →
        (∀ weights', weights.Perm weights' → g.effectiveBy weights' = .ok h.effective)
        ∧ (∀ weight ∈ weights, (timesOf weights weight.1 : Int) = weight.2)
        ∧ h.effective = ((g.growths.map Growth.name).eraseDups.flatMap fun name =>
          (g.growths.find? fun growth => growth.name == name).toList.flatMap fun growth =>
            List.replicate (timesOf weights name) growth)
        ∧ (h.effective.length : Int) = (weights.map Prod.snd).sum := by
  have hiff : (∃ h, g.weighted weights = .ok h) ↔ g.Matches weights := by
    simp only [weighted_eq_ok_iff, exists_and_left, exists_eq, and_true]
  have hperm : ∀ weights', weights.Perm weights' →
      ∀ h, g.weighted weights = .ok h ↔ g.weighted weights' = .ok h := by
    intro weights' hperm h
    rw [weighted_eq_ok_iff, weighted_eq_ok_iff, matches_perm hperm, repeated_perm hkeys hperm]
  refine ⟨hiff, fun hnone => ?_, hperm, fun h hweighted => ?_⟩
  · obtain ⟨fault, hfault⟩ := exists_fault_of_not_matches (mt hiff.mpr hnone)
    rw [hfault]
    exact ⟨_, rfl, kind_of_weightFault fault⟩
  · obtain ⟨hmatches, rfl⟩ := weighted_eq_ok_iff.mp hweighted
    refine ⟨fun weights' hsame => ?_, fun weight hweight => ?_, effective_repeated g _,
      hmatches.length_effective hkeys⟩
    · rw [effectiveBy_eq, (hperm weights' hsame _).mp hweighted]
      rfl
    · rw [timesOf_of_mem hkeys hweight, Int.toNat_of_nonneg (hmatches.2 weight hweight)]

theorem weighted_iff_matches_repeated :
    let append : String → Nat → Growth Unit (List Nat) := fun name letter =>
      { name, applies := fun _ => true, grow := fun word => pure (word ++ [letter]) }
    let g : Generator Unit (List Nat) :=
      { root := pure [], growths := [append "a" 0, append "b" 1, append "a" 2] }
    let weights : List (String × Int) := [("b", 2), ("a", 1)]
    let wrong : List (String × Int) := [("c", 0), ("b", -1)]
    ((weights.map Prod.fst).Nodup ∧ (wrong.map Prod.fst).Nodup)
      ∧ (∃ h, g.weighted weights = .ok h ∧ g.effectiveBy weights.reverse = .ok h.effective
        ∧ h.effective = [append "a" 0, append "b" 1, append "b" 1]
        ∧ (h.effective.length : Int) = 2 + 1)
      ∧ ∃ failure, orFail (g.weighted wrong) = .error failure
        ∧ failure.kind = .invalidConfiguration := by
  intro append g weights wrong
  have hkeys : (weights.map Prod.fst).Nodup := by decide
  have hkeys' : (wrong.map Prod.fst).Nodup := by decide
  have hnames : ∀ name, name ∈ weights.map Prod.fst ↔ name ∈ g.growths.map Growth.name := by
    intro name
    simp [weights, g, append]
    tauto
  obtain ⟨hiff, -, -, hmade⟩ := weighted_iff_matches g hkeys
  obtain ⟨hiff', hrefused, -⟩ := weighted_iff_matches g hkeys'
  obtain ⟨h, hweighted⟩ := hiff.mpr ⟨hnames, by decide⟩
  obtain ⟨hagain, -, heffective, hlength⟩ := hmade h hweighted
  have hnot : ¬ ∃ h, g.weighted wrong = .ok h := fun hok => by
    have hnonnegative := (hiff'.mp hok).2 ("b", -1) (by decide)
    exact absurd hnonnegative (by decide)
  exact ⟨⟨hkeys, hkeys'⟩, ⟨h, hweighted, hagain _ (List.reverse_perm _).symm, heffective, hlength⟩,
    hrefused hnot⟩

end Generator

end SolverAudit
