import Mathlib.Data.Finset.Sort
import Mathlib.Data.Set.Card
import SolverAudit.Argument.Admissible
import SolverAudit.Proofs.Ordered.Set

/-!
# The search for admissible sets

The search decides for one place after the other whether it joins, and prunes by looking only at the
attacks of the place that is about to join. Going back it leaves the members and their flags as they
were, so it finds what a search finds that gets the members handed down. These are exactly the
conflict-free choices of places that defend themselves: a place that may not join conflicts with
every larger choice.
-/

namespace SolverAudit.Framework

variable {af : Framework}

theorem ConflictFree.mono {s t : Nat → Prop} (ht : af.ConflictFree t) (hsub : ∀ a, s a → t a) :
    af.ConflictFree s :=
  fun a b ha hb => ht a b (hsub a ha) (hsub b hb)

/-! ### What the tests decide -/

theorem isConflictFree_iff {members : List Nat} :
    af.isConflictFree members = true ↔ af.ConflictFree (· ∈ members) := by
  simp only [isConflictFree, List.all_eq_true, Bool.not_eq_true', ConflictFree, Bool.not_eq_true]
  exact ⟨fun h a b ha hb => h a ha b hb, fun h a ha b hb => h a b ha hb⟩

/-- Whether a place may join members that are in conflict neither with themselves nor with it. -/
def mayJoin (af : Framework) (members : List Nat) (place : Nat) : Bool :=
  !af.hasAttack place place &&
    (af.attackedBy place).all (fun a => !(a ∈ members)) &&
    (af.attackersOf place).all (fun a => !(a ∈ members))

def areSafe (af : Framework) (members : List Nat) : Bool :=
  members.all fun m => (af.attackersOf m).all fun attacker =>
    (af.attackersOf attacker).any fun defender => defender ∈ members

theorem mayJoin_iff {members : List Nat} {place : Nat} (hfree : af.ConflictFree (· ∈ members)) :
    af.mayJoin members place = true ↔ af.ConflictFree (· ∈ members ++ [place]) := by
  simp only [mayJoin, Bool.and_eq_true, Bool.not_eq_true', List.all_eq_true, mem_attackedBy,
    mem_attackersOf, decide_eq_false_iff_not]
  constructor
  · rintro ⟨⟨hself, hout⟩, hin⟩ a b ha hb hattack
    rcases List.mem_append.mp ha with ha | ha <;> rcases List.mem_append.mp hb with hb | hb
    · exact hfree a b ha hb hattack
    · rw [List.mem_singleton.mp hb] at hattack
      exact hin a hattack ha
    · rw [List.mem_singleton.mp ha] at hattack
      exact hout b hattack hb
    · rw [List.mem_singleton.mp ha, List.mem_singleton.mp hb, hself] at hattack
      cases hattack
  · intro h
    have hplace : place ∈ members ++ [place] := by simp
    refine ⟨⟨?_, fun a hattack ha => ?_⟩, fun a hattack ha => ?_⟩
    · simpa using h place place hplace hplace
    · exact h place a hplace (List.mem_append_left _ ha) hattack
    · exact h a place (List.mem_append_left _ ha) hplace hattack

theorem areSafe_iff {members : List Nat} :
    af.areSafe members = true ↔ ∀ m ∈ members, af.Defends (· ∈ members) m := by
  simp only [areSafe, List.all_eq_true, List.any_eq_true, mem_attackersOf,
    decide_eq_true_eq, Defends]
  refine forall₂_congr fun m _ => forall₂_congr fun attacker _ => ?_
  exact exists_congr fun defender => and_comm

/-! ### The search gives back its state -/

/-- The sets of places that consist of the given members and of some of the places still to be
decided, and defend themselves. -/
def admissibleFrom (af : Framework) (members : List Nat) : (places : List Nat) → List (List Nat)
  | [] => if af.areSafe members then [members] else []
  | place :: rest =>
    admissibleFrom af members rest ++
      if af.mayJoin members place then admissibleFrom af (members ++ [place]) rest else []

def admissiblePlaces (af : Framework) : List (List Nat) :=
  af.admissibleFrom [] (List.range af.size)

namespace Search

variable {s : Search} {place : Nat} {members : List (List Nat)}

/-- There is a flag for each place of the framework, and the flags tell the members. -/
structure Flagged (af : Framework) (s : Search) : Prop where
  length_eq : s.inSet.length = af.size
  isMember_eq : ∀ place, s.isMember place = decide (place ∈ s.members)

theorem flagged_start (af : Framework) : (start af).Flagged af where
  length_eq := List.length_replicate
  isMember_eq place := by
    simp only [start, isMember, List.getD_eq_getElem?_getD, List.getElem?_replicate]
    split <;> simp

theorem Flagged.push (hs : s.Flagged af) (hplace : place < af.size) :
    (s.push place).Flagged af where
  length_eq := List.length_set.trans hs.length_eq
  isMember_eq other := by
    have hlength : place < s.inSet.length := hs.length_eq ▸ hplace
    have hbefore := hs.isMember_eq other
    simp only [isMember, List.getD_eq_getElem?_getD] at hbefore ⊢
    simp only [Search.push, List.getElem?_set, List.mem_append, List.mem_singleton]
    by_cases hother : place = other
    · subst hother
      simp [hlength]
    · simp [hother, Ne.symm hother, hbefore]

/-- A place that was no member joins and leaves, and the members are as they were. -/
theorem Flagged.pop_push (hs : s.Flagged af) (hplace : place ∉ s.members) :
    (s.push place).pop place = s := by
  have hnot : s.isMember place = false :=
    (hs.isMember_eq place).trans (decide_eq_false hplace)
  have hflag : s.inSet.set place false = s.inSet := by
    by_cases hlength : place < s.inSet.length
    · rw [isMember, List.getD_eq_getElem?_getD, List.getElem?_eq_getElem hlength,
        Option.getD_some] at hnot
      rw [← hnot, List.set_getElem_self]
    · exact List.set_eq_of_length_le (Nat.le_of_not_lt hlength)
  rw [Search.push, Search.pop]
  simp only [List.set_set, List.dropLast_concat, hflag]

/-- The search with the arguments at these sets of places found, too. -/
def recordAll (af : Framework) (s : Search) (sets : List (List Nat)) : Search :=
  { s with found := (sets.map af.argumentSet).foldl (fun found e => found.insert e) s.found }

theorem recordAll_append (sets sets' : List (List Nat)) :
    (s.recordAll af sets).recordAll af sets' = s.recordAll af (sets ++ sets') := by
  simp only [recordAll, List.map_append, List.foldl_append]

/-- Recording leaves the members and their flags alone. -/
theorem Flagged.recordAll (hs : s.Flagged af) (sets : List (List Nat)) :
    (s.recordAll af sets).Flagged af :=
  ⟨hs.length_eq, hs.isMember_eq⟩

theorem Flagged.canJoin_eq (hs : s.Flagged af) (place : Nat) :
    af.canJoin s place = af.mayJoin s.members place := by
  simp only [canJoin, mayJoin, hs.isMember_eq]

theorem Flagged.defendsMembers_eq (hs : s.Flagged af) :
    af.defendsMembers s = af.areSafe s.members := by
  simp only [defendsMembers, areSafe, funext hs.isMember_eq]

/-- The search in place finds what the search finds that hands the members down, and nothing else
about it has changed in the end. -/
theorem Flagged.enumerate_eq (hs : s.Flagged af) {places : List Nat}
    (hplaces : ∀ place ∈ places, place < af.size ∧ place ∉ s.members) (hnodup : places.Nodup) :
    af.enumerate places s = s.recordAll af (af.admissibleFrom s.members places) := by
  induction places generalizing s with
  | nil =>
      rw [enumerate, hs.defendsMembers_eq, admissibleFrom]
      split <;> rfl
  | cons next rest ih =>
      obtain ⟨hnext, hrest⟩ := List.forall_mem_cons.mp hplaces
      obtain ⟨hfresh, hnodup⟩ := List.nodup_cons.mp hnodup
      have hwithout := hs.recordAll (af.admissibleFrom s.members rest)
      rw [enumerate, ih hs hrest hnodup, hwithout.canJoin_eq, admissibleFrom]
      change (if af.mayJoin s.members next = true then _ else _) = _
      split
      · have hwith := hwithout.push hnext.1
        have hrest' : ∀ place ∈ rest, place < af.size ∧ place ∉ s.members ++ [next] := by
          intro place hplace
          refine ⟨(hrest place hplace).1, fun hmem => ?_⟩
          rcases List.mem_append.mp hmem with hmem | hmem
          · exact (hrest place hplace).2 hmem
          · exact hfresh (List.mem_singleton.mp hmem ▸ hplace)
        rw [ih hwith hrest' hnodup]
        -- what is recorded does not touch the members, so the place can leave at once
        change (((s.recordAll af _).push next).pop next).recordAll af _ = _
        rw [hwithout.pop_push hnext.2, recordAll_append]
        rfl
      · rw [List.append_nil]

end Search

theorem extensions_eq_ofList (af : Framework) :
    af.extensions = .ofList (af.admissiblePlaces.map af.argumentSet) := by
  have hplaces : ∀ place ∈ List.range af.size,
      place < af.size ∧ place ∉ (Search.start af).members :=
    fun place hplace => ⟨List.mem_range.mp hplace, List.not_mem_nil⟩
  rw [extensions, (Search.flagged_start af).enumerate_eq hplaces List.nodup_range]
  refine OrderedSet.ext fun e => OrderedSet.mem_foldl_insert.trans ?_
  simp [Search.start, admissiblePlaces]

/-! ### What the search finds -/

/-- The search extends the members by some of the places that are left, in order; it finds each
extension that is conflict-free and defends itself, and no other. -/
theorem mem_admissibleFrom {members places s : List Nat} (hfree : af.ConflictFree (· ∈ members)) :
    s ∈ af.admissibleFrom members places ↔
      ∃ chosen, chosen.Sublist places ∧ s = members ++ chosen
        ∧ af.ConflictFree (· ∈ s) ∧ ∀ m ∈ s, af.Defends (· ∈ s) m := by
  induction places generalizing members with
  | nil =>
      simp only [admissibleFrom, List.sublist_nil, exists_eq_left, List.append_nil]
      by_cases hdefends : af.areSafe members = true
      · rw [if_pos hdefends, List.mem_singleton]
        constructor
        · rintro rfl
          exact ⟨rfl, hfree, areSafe_iff.mp hdefends⟩
        · exact fun h => h.1
      · rw [if_neg hdefends]
        constructor
        · exact fun h => absurd h List.not_mem_nil
        · rintro ⟨rfl, -, hall⟩
          exact absurd (areSafe_iff.mpr hall) hdefends
  | cons place rest ih =>
      rw [admissibleFrom, List.mem_append, ih hfree]
      constructor
      · rintro (⟨chosen, hsub, rfl, hs⟩ | hjoined)
        · exact ⟨chosen, hsub.cons place, rfl, hs⟩
        · split at hjoined
          · rename_i hjoin
            obtain ⟨chosen, hsub, rfl, hs⟩ := (ih ((mayJoin_iff hfree).mp hjoin)).mp hjoined
            exact ⟨place :: chosen, hsub.cons_cons place, by simp, hs⟩
          · cases hjoined
      · rintro ⟨chosen, hsub, hs, hfree', hdefends⟩
        rcases List.sublist_cons_iff.mp hsub with hsub | ⟨chosen, rfl, hrest⟩
        · exact .inl ⟨chosen, hsub, hs, hfree', hdefends⟩
        · -- the place that was chosen passes the test, its set being part of a conflict-free one
          rw [List.append_cons] at hs
          have hpart : af.ConflictFree (· ∈ members ++ [place]) :=
            hfree'.mono fun a ha => hs ▸ List.mem_append_left chosen ha
          right
          rw [if_pos ((mayJoin_iff hfree).mpr hpart), ih hpart]
          exact ⟨chosen, hrest, hs, hfree', hdefends⟩

theorem mem_admissiblePlaces {s : List Nat} :
    s ∈ af.admissiblePlaces ↔ s.Sublist (List.range af.size) ∧ af.Admissible (· ∈ s) := by
  have hnone : af.ConflictFree (· ∈ ([] : List Nat)) := fun _ _ h => absurd h List.not_mem_nil
  rw [admissiblePlaces, mem_admissibleFrom hnone]
  constructor
  · rintro ⟨chosen, hsub, rfl, hfree, hdefends⟩
    exact ⟨hsub, fun a ha => List.mem_range.mp (hsub.subset ha), hfree, hdefends⟩
  · rintro ⟨hsub, hadmissible⟩
    exact ⟨s, hsub, rfl, hadmissible.conflictFree, hadmissible.defended⟩

/-! ### Extensions and sets of places -/

def extensionOf (af : Framework) (s : Finset Nat) : OrderedSet Argument :=
  af.argumentSet s.sort

theorem mem_extensionOf {s : Finset Nat} {a : Argument} :
    a ∈ af.extensionOf s ↔ ∃ place ∈ s, af.argument? place = some a := by
  simp only [extensionOf, mem_argumentSet, Finset.mem_sort]

theorem mem_extensions_iff {e : OrderedSet Argument} :
    e ∈ af.extensions ↔ ∃ s : Finset Nat, af.Admissible (· ∈ s) ∧ af.extensionOf s = e := by
  simp only [extensions_eq_ofList, OrderedSet.mem_ofList, List.mem_map, mem_admissiblePlaces]
  constructor
  · rintro ⟨places, ⟨-, hadmissible⟩, rfl⟩
    refine ⟨places.toFinset, by simpa using hadmissible, argumentSet_congr fun place => ?_⟩
    rw [Finset.mem_sort, List.mem_toFinset]
  · rintro ⟨s, hadmissible, rfl⟩
    have hsame : ∀ place, place ∈ (List.range af.size).filter (· ∈ s) ↔ place ∈ s := by
      intro place
      rw [List.mem_filter, List.mem_range, decide_eq_true_eq]
      exact and_iff_right_of_imp (hadmissible.within place)
    refine ⟨(List.range af.size).filter (· ∈ s), ⟨List.filter_sublist, ?_⟩, ?_⟩
    · simpa only [hsame] using hadmissible
    · exact argumentSet_congr fun place => by rw [hsame, Finset.mem_sort]

theorem extensionOf_subset {s t : Finset Nat} (hs : ∀ place ∈ s, place < af.size)
    (hsame : af.extensionOf s = af.extensionOf t) : s ⊆ t := by
  intro place hplace
  obtain ⟨a, ha⟩ := argument?_eq_some (hs place hplace)
  have hmem : a ∈ af.extensionOf t := hsame ▸ mem_extensionOf.mpr ⟨place, hplace, ha⟩
  obtain ⟨place', hplace', ha'⟩ := mem_extensionOf.mp hmem
  exact argument?_injective ha ha' ▸ hplace'

theorem bijOn_extensionOf (af : Framework) :
    Set.BijOn af.extensionOf {s | af.Admissible (· ∈ s)} {e | e ∈ af.extensions} := by
  refine ⟨fun s hs => ?_, fun s hs t ht hsame => ?_, fun e he => ?_⟩
  · exact mem_extensions_iff.mpr ⟨s, hs, rfl⟩
  · exact (extensionOf_subset hs.within hsame).antisymm (extensionOf_subset ht.within hsame.symm)
  · exact mem_extensions_iff.mp he

/-! ### Testing one set -/

theorem areDefended?_eq_some {set members : List Nat} (hvalid : ∀ m ∈ members, m < af.size) :
    ∃ b, af.areDefended? set members = some b
      ∧ (b = true ↔ ∀ m ∈ members, af.Defends (· ∈ set) m) := by
  induction members with
  | nil => exact ⟨true, rfl, by simp⟩
  | cons m rest ih =>
      obtain ⟨hm, hrest⟩ := List.forall_mem_cons.mp hvalid
      obtain ⟨b, hb, hiff⟩ := ih hrest
      have hdefends : ((af.attackersOf m).all fun attacker =>
          set.any fun d => af.hasAttack d attacker) = true ↔ af.Defends (· ∈ set) m := by
        simp only [List.all_eq_true, mem_attackersOf, List.any_eq_true, Defends]
      simp only [areDefended?, attackersOf?, if_pos hm, List.forall_mem_cons, ← hdefends]
      split
      · rename_i hall
        exact ⟨b, hb, by simp [hall, hiff]⟩
      · rename_i hall
        exact ⟨false, rfl, by simp [hall]⟩

theorem isAdmissible?_eq_some {places : List Nat} (hvalid : ∀ i ∈ places, i < af.size) :
    ∃ b, af.isAdmissible? places = some b ∧ (b = true ↔ af.Admissible (· ∈ places)) := by
  rw [isAdmissible?]
  by_cases hfree : af.isConflictFree places = true
  · obtain ⟨b, hb, hiff⟩ :
        ∃ b, af.areDefended? places places = some b
          ∧ (b = true ↔ ∀ m ∈ places, af.Defends (· ∈ places) m) := areDefended?_eq_some hvalid
    refine ⟨b, by rw [if_pos hfree, hb], hiff.trans ⟨fun hdefends => ?_, fun h => h.defended⟩⟩
    exact ⟨hvalid, isConflictFree_iff.mp hfree, hdefends⟩
  · refine ⟨false, if_neg hfree, iff_of_false Bool.false_ne_true fun h => ?_⟩
    exact hfree (isConflictFree_iff.mpr h.conflictFree)

/-- **The extensions are the admissible sets.** Taking the arguments at a set of places is a
bijection from the admissible sets of places to the extensions, and the test of one list of places
tells whether its elements are admissible. -/
theorem extensions_eq_admissible_sets (af : Framework) :
    Set.BijOn af.extensionOf {s | af.Admissible (· ∈ s)} {e | e ∈ af.extensions}
      ∧ af.extensions.size = {s : Finset Nat | af.Admissible (· ∈ s)}.ncard
      ∧ ∀ places : List Nat, (∀ i ∈ places, i < af.size) →
        ∃ b, af.isAdmissible? places = some b ∧ (b = true ↔ af.Admissible (· ∈ places)) := by
  refine ⟨af.bijOn_extensionOf, ?_, fun places hvalid => isAdmissible?_eq_some hvalid⟩
  rw [OrderedSet.size_eq_ncard, af.bijOn_extensionOf.ncard_eq]

theorem extensions_eq_admissible_sets_attack :
    let af : Framework := ⟨[⟨0, "a0"⟩, ⟨1, "a1"⟩], [⟨0, 1⟩], by decide, by decide, by decide⟩
    (∀ i ∈ [0, 0], i < af.size) ∧ af.isAdmissible? [0, 0] = some true
      ∧ af.Admissible (· ∈ [0, 0]) := by
  intro af
  have hvalid : ∀ i ∈ [0, 0], i < af.size := by decide
  have htest : af.isAdmissible? [0, 0] = some true := by decide
  obtain ⟨b, hb, hiff⟩ := (extensions_eq_admissible_sets af).2.2 [0, 0] hvalid
  exact ⟨hvalid, htest, hiff.mp (Option.some.inj (hb.symm.trans htest))⟩

end SolverAudit.Framework
