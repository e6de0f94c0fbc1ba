import SolverAudit.Argument.Moment
import SolverAudit.Proofs.Argument.Grounded
import SolverAudit.Proofs.Argument.Tables

/-!
# Counting down live attackers

The innermost loop lowers counters without a look at whether they are zero. What keeps them from
falling below is an invariant: a counter is the number of attackers that are not defeated, and one
more for a place that is still to be released. The places to be released are distinct, so each pays
for one lowering, and an attacker that is defeated already leaves nothing to be released, even if
many accepted places attack it.

The rounds settle into the labellings, so what is accepted belongs to the grounded extension, and
what is defeated is attacked from within it. Nothing can be both.
-/

namespace SolverAudit.Framework

variable {af : Framework}

/-! ### Steps -/

namespace Tables

variable {t : Tables} {log events : List Event} {m m' : Moment}

/-- What a step can do. -/
inductive Steps (t : Tables) : Moment → List Event → Moment → Prop where
  | lower {l : Labelling} {targets due : List Nat} {place left : Nat}
      (hleft : l.live[place]? = some (left + 1)) :
      Steps t ⟨l, targets, place :: due⟩ (if left = 0 then [.push place] else [])
        ⟨l.release place, targets, due⟩
  | skip {l : Labelling} {targets : List Nat} {target : Nat} (hdefeated : target ∈ l.defeated) :
      Steps t ⟨l, target :: targets, []⟩ [] ⟨l, targets, []⟩
  | defeat {l : Labelling} {targets due : List Nat} {target : Nat} (hnew : target ∉ l.defeated)
      (hdue : t.attackedBy? target = some due) :
      Steps t ⟨l, target :: targets, []⟩ [.defeat target]
        ⟨{ l with defeated := target :: l.defeated }, targets, due⟩
  | accept {l : Labelling} {pending targets : List Nat} {place : Nat}
      (hpending : l.pending = place :: pending) (htargets : t.attackedBy? place = some targets) :
      Steps t ⟨l, [], []⟩ [.accept place]
        ⟨{ l with pending, accepted := place :: l.accepted }, targets, []⟩

theorem steps_of_step? (h : t.step? m = some (events, m')) : t.Steps m events m' := by
  obtain ⟨l, targets, due⟩ := m
  cases due with
  | cons place due =>
      obtain ⟨⟨done, l'⟩, hlower, hdone⟩ := Option.bind_eq_some_iff.mp h
      cases hdone
      unfold Labelling.lower? at hlower
      split at hlower
      · rename_i left hleft
        cases hlower
        exact .lower hleft
      · cases hlower
  | nil =>
      cases targets with
      | cons target targets =>
          rw [step?] at h
          split at h
          · cases h
          · split at h
            · rename_i hdefeated
              cases h
              exact .skip hdefeated
            · rename_i hnew
              obtain ⟨due, hdue, hdone⟩ := Option.bind_eq_some_iff.mp h
              cases hdone
              exact .defeat hnew hdue
      | nil =>
          rw [step?] at h
          split at h
          · cases h
          · rename_i place pending hpending
            obtain ⟨targets, htargets, hdone⟩ := Option.bind_eq_some_iff.mp h
            cases hdone
            exact .accept hpending htargets

/-- What is pushed waits or is accepted, and the log has an event for each place that is defeated or
accepted. -/
structure Logged (log : List Event) (l : Labelling) : Prop where
  push : ∀ place, log.count (.push place) = (l.pending ++ l.accepted).count place
  defeat : ∀ place, log.count (.defeat place) = l.defeated.count place
  accept : log.countP Event.isAccept = l.accepted.length

theorem push_injective : Function.Injective Event.push := fun _ _ h => Event.push.inj h

theorem defeat_injective : Function.Injective Event.defeat := fun _ _ h => Event.defeat.inj h

/-- An event counts for the place that it happens to. -/
theorem count_cons_event {event : Nat → Event} (hevent : Function.Injective event)
    {places : List Nat} {place other : Nat}
    (h : log.count (event other) = places.count other) :
    (event place :: log).count (event other) = (place :: places).count other := by
  rw [List.count_cons, List.count_cons, h]
  simp [hevent.eq_iff]

theorem Logged.release {l : Labelling} {place left : Nat} (h : Logged log l)
    (hleft : l.live[place]? = some (left + 1)) :
    Logged ((if left = 0 then [.push place] else []) ++ log) (l.release place) := by
  have hpending : (l.release place).pending =
      if left = 0 then place :: l.pending else l.pending := by
    simp [Labelling.release, List.getD_eq_getElem?_getD, hleft]
  by_cases hzero : left = 0
  · rw [if_pos hzero] at hpending ⊢
    refine ⟨fun other => ?_, fun other => ?_, h.accept⟩
    · rw [hpending]
      exact count_cons_event push_injective (h.push other)
    · exact (List.count_cons_of_ne (by simp)).trans (h.defeat other)
  · rw [if_neg hzero] at hpending ⊢
    refine ⟨fun other => ?_, h.defeat, h.accept⟩
    rw [hpending]
    exact h.push other

theorem Logged.steps (h : Logged log m.labelling) (hstep : t.Steps m events m') :
    Logged (events ++ log) m'.labelling := by
  cases hstep with
  | lower hleft => exact h.release hleft
  | skip => exact h
  | defeat =>
      refine ⟨fun other => ?_, fun other => ?_, h.accept⟩
      · exact (List.count_cons_of_ne (by simp)).trans (h.push other)
      · exact count_cons_event defeat_injective (h.defeat other)
  | @accept l pending targets place hpending =>
      have hmoved : (l.pending ++ l.accepted).Perm (pending ++ place :: l.accepted) := by
        rw [hpending]
        exact List.perm_middle.symm
      refine ⟨fun other => ?_, fun other => ?_, ?_⟩
      · exact (List.count_cons_of_ne (by simp)).trans ((h.push other).trans (hmoved.count_eq other))
      · exact (List.count_cons_of_ne (by simp)).trans (h.defeat other)
      · exact (List.countP_cons_of_pos rfl).trans (congrArg (· + 1) h.accept)

theorem logged_of_reaches (h : t.Reaches log m) : Logged log m.labelling := by
  induction h with
  | start hstart =>
      obtain ⟨live, -, hstart⟩ := Option.bind_eq_some_iff.mp hstart
      obtain rfl := Option.some.inj hstart
      refine ⟨fun place => ?_, fun place => ?_, ?_⟩
      · rw [List.append_nil]
        exact List.count_map_of_injective _ _ push_injective place
      · exact List.count_eq_zero_of_not_mem (by simp)
      · refine List.countP_eq_zero.mpr fun event hevent => ?_
        obtain ⟨place, -, rfl⟩ := List.mem_map.mp hevent
        exact Bool.false_ne_true
  | step _ hstep ih => exact ih.steps (steps_of_step? hstep)

end Tables

/-! ### Moments of the loops of a framework -/

theorem attackedBy?_tables_eq_some_iff {place : Nat} {targets : List Nat} :
    af.tables.attackedBy? place = some targets ↔
      place < af.size ∧ af.attackedBy place = targets := by
  rw [attackedBy?_tables, attackedBy?]
  split <;> simp [*]

theorem mapM_attackers_tables (af : Framework) {places : List Nat}
    (hplaces : ∀ place ∈ places, place < af.size) :
    places.mapM (fun place => (af.tables.attackersOf? place).map List.length) =
      some (places.map fun place => (af.attackersOf place).length) := by
  induction places with
  | nil => rfl
  | cons place places ih =>
      obtain ⟨hplace, hplaces⟩ := List.forall_mem_cons.mp hplaces
      rw [List.mapM_cons, attackersOf?_tables, attackersOf?, if_pos hplace, ih hplaces]
      rfl

theorem start?_tables (af : Framework) : af.tables.start? = some ⟨af.unlabelled, [], []⟩ := by
  have hwaiting : (List.range af.size).filter
      (fun place => ((List.range af.size).map fun place => (af.attackersOf place).length)[place]?
        == some 0) = (List.range af.size).filter fun place => (af.attackersOf place).isEmpty := by
    refine List.filter_congr fun place hplace => ?_
    rw [List.getElem?_map, List.getElem?_range (List.mem_range.mp hplace), Option.map_some]
    cases af.attackersOf place <;> rfl
  have hcounters := mapM_attackers_tables af fun _ => List.mem_range.mp
  unfold Tables.start?
  change ((List.range af.size).mapM fun place =>
    (af.tables.attackersOf? place).map List.length).bind _ = _
  rw [hcounters, Option.bind_some]
  change some (Moment.mk ⟨_, [], (List.filter _ (List.range af.size)).reverse, []⟩ [] []) = _
  rw [hwaiting]
  rfl

namespace Moment

variable {m m' : Moment} {events : List Event}

/-- The labelling after the round that the loop is in. -/
def settled (af : Framework) (m : Moment) : Labelling :=
  m.targets.foldl (Labelling.defeat af) (m.due.foldl Labelling.release m.labelling)

/-- The counters are right but for the places still to be released, which are distinct, and the
round leads to the labelling of so many rounds as there are accepted places. -/
structure Sound (af : Framework) (m : Moment) : Prop where
  counters : Labelling.Accurate af m.due m.labelling
  length_live : m.labelling.live.length = af.size
  due_distinct : m.due.Nodup
  due_within : ∀ place ∈ m.due, place < af.size
  targets_within : ∀ target ∈ m.targets, target < af.size
  defeated_distinct : m.labelling.defeated.Nodup
  settled_eq : m.settled af = af.labelling m.labelling.accepted.length

theorem sound_start (af : Framework) : Sound af ⟨af.unlabelled, [], []⟩ where
  counters := Labelling.accurate_unlabelled af
  length_live := by simp [unlabelled]
  due_distinct := .nil
  due_within := by simp
  targets_within := by simp
  defeated_distinct := .nil
  settled_eq := rfl

theorem Sound.steps (hm : Sound af m) (hstep : af.tables.Steps m events m') : Sound af m' := by
  cases hstep with
  | lower hleft =>
      obtain ⟨hplace, hdistinct⟩ := List.nodup_cons.mp hm.due_distinct
      obtain ⟨hsize, hwithin⟩ := List.forall_mem_cons.mp hm.due_within
      exact {
        counters := hm.counters.release hplace hsize
        length_live := (List.length_set ..).trans hm.length_live
        due_distinct := hdistinct
        due_within := hwithin
        targets_within := hm.targets_within
        defeated_distinct := hm.defeated_distinct
        settled_eq := hm.settled_eq }
  | skip hdefeated =>
      refine { hm with
        targets_within := (List.forall_mem_cons.mp hm.targets_within).2
        settled_eq := ?_ }
      rw [← hm.settled_eq, settled, settled, List.foldl_cons, List.foldl_nil,
        Labelling.defeat_of_mem hdefeated]
  | @defeat l targets due target hnew hdue =>
      obtain ⟨-, rfl⟩ := attackedBy?_tables_eq_some_iff.mp hdue
      refine {
        counters := hm.counters.mark hnew
        length_live := hm.length_live
        due_distinct := af.nodup_attackedBy target
        due_within := Labelling.lt_size_of_mem_attackedBy
        targets_within := (List.forall_mem_cons.mp hm.targets_within).2
        defeated_distinct := List.nodup_cons.mpr ⟨hnew, hm.defeated_distinct⟩
        settled_eq := ?_ }
      rw [← hm.settled_eq, settled, settled, List.foldl_cons, List.foldl_nil,
        Labelling.defeat_of_not_mem hnew]
  | @accept l pending targets place hpending htargets =>
      obtain ⟨-, rfl⟩ := attackedBy?_tables_eq_some_iff.mp htargets
      refine {
        counters := hm.counters.accept hpending
        length_live := hm.length_live
        due_distinct := .nil
        due_within := hm.due_within
        targets_within := Labelling.lt_size_of_mem_attackedBy
        defeated_distinct := hm.defeated_distinct
        settled_eq := ?_ }
      have hround : l.advance af = af.labelling (l.accepted.length + 1) :=
        congrArg (Labelling.advance af) hm.settled_eq
      refine Eq.trans ?_ hround
      rw [Labelling.advance, hpending]
      rfl

end Moment

theorem Tables.Reaches.sound {log : List Event} {m : Moment} (h : af.tables.Reaches log m) :
    m.Sound af := by
  induction h with
  | start hstart =>
      obtain rfl := Option.some.inj ((start?_tables af).symm.trans hstart)
      exact Moment.sound_start af
  | step _ hstep ih => exact ih.steps (Tables.steps_of_step? hstep)

/-! ### What holds at a moment -/

namespace Moment

variable {m : Moment}

theorem Sound.accepted_eq (hm : Sound af m) :
    m.labelling.accepted = (af.labelling m.labelling.accepted.length).accepted := by
  rw [← hm.settled_eq, settled, Labelling.accepted_defeatAll, Labelling.accepted_releaseAll]

/-- What an accepted place attacks is defeated, or is about to be. -/
theorem Sound.defeat_iff (hm : Sound af m) (place : Nat) :
    place ∈ m.targets ∨ place ∈ m.labelling.defeated ↔
      ∃ a ∈ m.labelling.accepted, af.hasAttack a place = true := by
  rw [hm.accepted_eq, ← (Labelling.valid_labelling af _).defeat_iff, ← hm.settled_eq, settled,
    Labelling.mem_defeated_defeatAll, Labelling.defeated_releaseAll]

theorem Sound.accepted_subset (hm : Sound af m) :
    ∀ place ∈ m.labelling.accepted, place ∈ af.groundedPlaces := by
  rw [hm.accepted_eq]
  exact accepted_labelling_subset (fun _ => mem_groundedPlaces_iff_characteristic.mpr) _

theorem Sound.ready_subset (hm : Sound af m) :
    ∀ place ∈ m.labelling.pending ++ m.labelling.accepted, place ∈ af.groundedPlaces := by
  intro place hready
  obtain ⟨hsize, hzero⟩ := (hm.counters.ready place).mp hready
  rw [hm.counters.live, Nat.add_eq_zero_iff, List.length_eq_zero_iff] at hzero
  refine mem_groundedPlaces_iff_characteristic.mpr ⟨hsize, fun attacker hattack => ?_⟩
  have hdefeated := liveAttackers_eq_nil_iff.mp hzero.1 attacker hattack
  obtain ⟨a, ha, hcounter⟩ := (hm.defeat_iff attacker).mp (.inr hdefeated)
  exact ⟨a, hm.accepted_subset a ha, hcounter⟩

/-- All that waits or is accepted belongs to one set without conflicts, and all that is defeated is
attacked from within this set. -/
theorem Sound.apart (hm : Sound af m) :
    ∀ place ∈ m.labelling.pending ++ m.labelling.accepted, place ∉ m.labelling.defeated := by
  intro place hready hdefeated
  obtain ⟨a, ha, hattack⟩ := (hm.defeat_iff place).mp (.inr hdefeated)
  exact (complete_groundedPlaces af).conflictFree a place (hm.accepted_subset a ha)
    (hm.ready_subset place hready) hattack

theorem Sound.getElem?_live (hm : Sound af m) {place : Nat} (hplace : place < af.size) :
    m.labelling.live[place]? = some (m.labelling.liveAt place) := by
  rw [← hm.length_live] at hplace
  rw [Labelling.liveAt, List.getD_eq_getElem?_getD, List.getElem?_eq_getElem hplace]
  rfl

theorem Sound.counter (hm : Sound af m) (hbetween : m.IsBetweenRounds) {place : Nat}
    (hplace : place < af.size) :
    m.labelling.live[place]? =
      some ((af.attackersOf place).countP fun attacker => attacker ∉ m.labelling.defeated) := by
  rw [hm.getElem?_live hplace, hm.counters.live, hbetween.2, if_neg List.not_mem_nil,
    Nat.add_zero, liveAttackers, List.countP_eq_length_filter]
  simp only [decide_not]

theorem Sound.positive (hm : Sound af m) {place : Nat} {due : List Nat}
    (hdue : m.due = place :: due) : ∃ left, m.labelling.live[place]? = some (left + 1) := by
  have hmem : place ∈ m.due := hdue ▸ List.mem_cons_self
  refine ⟨(af.liveAttackers m.labelling.defeated place).length, ?_⟩
  rw [hm.getElem?_live (hm.due_within place hmem), hm.counters.live, if_pos hmem]

theorem Sound.length_accepted_le (hm : Sound af m) : m.labelling.accepted.length ≤ af.size := by
  have hbound := hm.counters.length_le
  rw [List.length_append] at hbound
  omega

theorem Sound.accepted_of_isOver (hm : Sound af m) (hover : m.IsOver) :
    m.labelling.accepted = af.groundedPlaces := by
  obtain ⟨hnone, htargets, hdue⟩ := hover
  have hrounds := hm.settled_eq
  rw [settled, htargets, hdue] at hrounds
  have hrest : af.labelling af.size = af.labelling m.labelling.accepted.length := by
    rw [← Nat.add_sub_cancel' hm.length_accepted_le]
    exact labelling_add_of_nil ((congrArg Labelling.pending hrounds).symm.trans hnone) _
  rw [groundedPlaces, hrest]
  exact congrArg Labelling.accepted hrounds

/-! ### The end of the loop -/

theorem Sound.exists_step (hm : Sound af m) (hgoing : ¬ m.IsOver) :
    ∃ events m', af.tables.step? m = some (events, m') := by
  obtain ⟨l, targets, due⟩ := m
  cases due with
  | cons place due =>
      obtain ⟨left, hleft⟩ := hm.positive rfl
      simp only at hleft
      simp [Tables.step?, Labelling.lower?, hleft]
  | nil =>
      cases targets with
      | cons target targets =>
          have hsize : target < af.size := hm.targets_within target List.mem_cons_self
          have hdue := attackedBy?_tables_eq_some_iff.mpr ⟨hsize, rfl⟩
          have hthere : ¬ af.tables.size ≤ target := Nat.not_le.mpr hsize
          by_cases hdefeated : target ∈ l.defeated <;>
            simp [Tables.step?, hthere, hdefeated, hdue]
      | nil =>
          cases hpending : l.pending with
          | nil => exact absurd ⟨hpending, rfl, rfl⟩ hgoing
          | cons place pending =>
              have hready : place ∈ l.pending ++ l.accepted :=
                List.mem_append_left _ (hpending ▸ List.mem_cons_self)
              have htargets := attackedBy?_tables_eq_some_iff.mpr
                ⟨((hm.counters.ready place).mp hready).1, rfl⟩
              simp [Tables.step?, hpending, htargets]

theorem step?_of_isOver {t : Tables} (hover : m.IsOver) : t.step? m = none := by
  obtain ⟨l, targets, due⟩ := m
  obtain ⟨hnone, rfl, rfl⟩ := hover
  simp only at hnone
  simp [Tables.step?, hnone]

/-- A step uses up a place that is due or a target, or else accepts a place, of which there are no
more than arguments. -/
theorem Sound.decreases (hm : Sound af m) {events : List Event} {m' : Moment}
    (hstep : af.tables.Steps m events m') :
    Prod.Lex (· < ·) (Prod.Lex (· < ·) (· < ·))
      (af.size - m'.labelling.accepted.length, m'.targets.length, m'.due.length)
      (af.size - m.labelling.accepted.length, m.targets.length, m.due.length) := by
  have hbound := (hm.steps hstep).length_accepted_le
  cases hstep with
  | lower => exact .right _ (.right _ (Nat.lt_succ_self _))
  | skip => exact .right _ (.left _ _ (Nat.lt_succ_self _))
  | defeat => exact .right _ (.left _ _ (Nat.lt_succ_self _))
  | accept =>
      refine .left _ _ ?_
      simp only [List.length_cons] at hbound ⊢
      omega

end Moment

namespace Tables

theorem Reaches.exists_isOver {log : List Event} {m : Moment} (h : af.tables.Reaches log m) :
    ∃ log' m', af.tables.Reaches (log' ++ log) m' ∧ m'.IsOver := by
  by_cases hover : m.IsOver
  · exact ⟨[], m, h, hover⟩
  · obtain ⟨events, m', hstep⟩ := h.sound.exists_step hover
    have hdecreases := h.sound.decreases (steps_of_step? hstep)
    obtain ⟨log', last, hlast, hlastOver⟩ := (h.step hstep).exists_isOver
    rw [← List.append_assoc] at hlast
    exact ⟨log' ++ events, last, hlast, hlastOver⟩
termination_by (af.size - m.labelling.accepted.length, m.targets.length, m.due.length)
decreasing_by exact hdecreases

/-! ### Main statement -/

/-- What holds at any moment of the loops. They stop at the end alone. Between rounds each counter
is the number of attackers that are not defeated, and a counter to be lowered is not zero. No place
has been pushed twice or defeated twice, none that waits or is accepted is defeated, and there have
been no more rounds than arguments. -/
structure InOrder (t : Tables) (log : List Event) (m : Moment) : Prop where
  stops_iff : t.step? m = none ↔ m.IsOver
  counter : m.IsBetweenRounds → ∀ place < t.size, ∃ attackers,
    t.attackersOf? place = some attackers
      ∧ m.labelling.live[place]? =
        some (attackers.countP fun attacker => attacker ∉ m.labelling.defeated)
  positive : ∀ place due, m.due = place :: due →
    ∃ left, m.labelling.live[place]? = some (left + 1)
  pushed_once : ∀ place, log.count (.push place) ≤ 1
  defeated_once : ∀ place, log.count (.defeat place) ≤ 1
  apart : ∀ place ∈ m.labelling.pending ++ m.labelling.accepted, place ∉ m.labelling.defeated
  rounds_le : log.countP Event.isAccept ≤ t.size

theorem Reaches.inOrder {log : List Event} {m : Moment} (h : af.tables.Reaches log m) :
    af.tables.InOrder log m where
  stops_iff := by
    refine ⟨fun hnone => ?_, Moment.step?_of_isOver⟩
    by_contra hgoing
    obtain ⟨events, m', hstep⟩ := h.sound.exists_step hgoing
    cases hnone.symm.trans hstep
  counter hbetween place hplace :=
    ⟨_, (attackersOf?_tables af place).trans (if_pos hplace), h.sound.counter hbetween hplace⟩
  positive _ _ := h.sound.positive
  pushed_once place := by
    rw [(logged_of_reaches h).push]
    exact List.nodup_iff_count_le_one.mp h.sound.counters.once place
  defeated_once place := by
    rw [(logged_of_reaches h).defeat]
    exact List.nodup_iff_count_le_one.mp h.sound.defeated_distinct place
  apart := h.sound.apart
  rounds_le := by
    rw [(logged_of_reaches h).accept]
    exact h.sound.length_accepted_le

end Tables

/-- **The acceptance loops count each defeated attacker once.** On the tables after any calls the
loops can start, and at every moment that they get to, the counters, the stack and the defeated
places are in order. From there they come to their end, where the places of the grounded extension
are accepted. -/
theorem acceptance_counts_in_order (calls : List Call) :
    let af := afterCalls calls
    Tables.afterCalls? calls = some af.tables
      ∧ (∃ m, af.tables.start? = some m)
      ∧ ∀ log m, af.tables.Reaches log m → af.tables.InOrder log m
        ∧ ∃ log' m', af.tables.Reaches (log' ++ log) m' ∧ m'.IsOver
          ∧ m'.labelling.accepted = af.groundedPlaces := by
  intro af
  refine ⟨afterCalls?_eq calls, ⟨_, start?_tables af⟩, fun log m h => ⟨h.inOrder, ?_⟩⟩
  obtain ⟨log', m', hend, hover⟩ := h.exists_isOver
  exact ⟨log', m', hend, hover, hend.sound.accepted_of_isOver hover⟩

theorem acceptance_counts_in_order_shared_target :
    let calls : List Call := [.argument ⟨0, "a0"⟩, .argument ⟨1, "a1"⟩, .argument ⟨2, "a2"⟩,
      .argument ⟨3, "a3"⟩, .attack 0 1, .attack 0 2, .attack 1 1, .attack 1 2, .attack 2 1,
      .attack 1 3, .attack 2 3, .attack 1 3]
    ∃ t log m, Tables.afterCalls? calls = some t ∧ t.Reaches log m ∧ m.IsOver
      ∧ m.labelling.accepted = [3, 0] ∧ log.count (.push 3) ≤ 1 ∧ t.step? m = none := by
  intro calls
  obtain ⟨htables, ⟨start, hstart⟩, hall⟩ := acceptance_counts_in_order calls
  obtain ⟨-, log, m, hend, hover, hplaces⟩ := hall _ start (.start hstart)
  obtain ⟨horder, -⟩ := hall _ m hend
  exact ⟨_, _, m, htables, hend, hover, hplaces.trans (by decide), horder.pushed_once 3,
    horder.stops_iff.mpr hover⟩

end SolverAudit.Framework
