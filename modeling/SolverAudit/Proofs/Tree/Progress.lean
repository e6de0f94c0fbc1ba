import SolverAudit.Proofs.Result
import SolverAudit.Proofs.Tree.Projection
import SolverAudit.Proofs.Tree.Stopping

/-!
# Walks that get through

A walk gets through when, whatever nodes it has come to, every growth that applies to one of them
succeeds. An invariant shows this: it relates the context, which all branches share, to the depth
and the instance of each node, a growth that applies succeeds under it and brings it to the new
node, and the new context keeps it for all other nodes. Below some depth a growth may overflow
instead, so that the invariant holds of all visits but only walks down to there get through.
-/

namespace SolverAudit

variable {σ β ι κ : Type}

/-! ### Unfailing generators -/

namespace Generator

/-- The root can be made and, down to a depth, every growth succeeds that applies to a node visited
before. -/
structure Unfailing (g : Generator σ ι) (start : Context σ) (depth : Nat) : Prop where
  root : ∃ x context, g.root.run start = (.ok x, context)
  grow : ∀ {visits before}, g.Grown start visits before → ∀ u ∈ visits, u.depth ≤ depth →
    ∀ growth ∈ g.effective, growth.applies u.node = true →
      ∃ y after, (growth.grow u.node).run before = (.ok y, after)

/-- The visits that walks to a depth make as long as no visit fails, and how these walks end. Either
way the visits are grown one from another, and if nothing stops the walks they are all there are. -/
structure Traversal (g : Generator σ ι) (start : Context σ) (depth : Nat)
    (visits : List (Visit σ ι)) (ending : Except Failure Unit) (finish : Context σ) : Prop where
  grown : ∃ context, g.Grown start visits context
  depth_le : ∀ v ∈ visits, v.depth ≤ depth
  depthFirst : ending = .ok () → g.DepthFirst start depth finish visits
  instances_eq : g.instances depth start = (ending.map fun _ => visits.map Visit.node, finish)
  run_walk : ∀ {κ : Type} (visit : ι → Attempt κ Unit) (k k' : κ),
    ((visits.map Visit.node).forM visit).run k = (.ok (), k') →
    (g.walk visit depth).run (start, k) = (ending, finish, k')

variable {g : Generator σ ι} {start finish : Context σ} {visits : List (Visit σ ι)}

theorem traversal_course (levels : Nat) {x : ι} {context : Context σ}
    (hroot : g.root.run start = (.ok x, context)) :
    g.Traversal start (levels + 1) (g.course levels start).visits (g.course levels start).ending
      (g.course levels start).context where
  grown := (extends_course levels hroot).exists_grown
  depth_le v hv := by
    rw [course_of_root hroot] at hv
    obtain ⟨tail, hpath, hlength⟩ := Course.path_of_mem_ofNode hv
    rw [Visit.depth, hpath]
    exact Nat.succ_le_succ hlength
  depthFirst := depthFirst_course
  instances_eq := g.instances_eq levels start
  run_walk visit k k' hvisits := (run_walk ..).trans (Course.replay_of_visits_ok hvisits)

theorem Unfailing.ending_course {limit levels : Nat} (h : g.Unfailing start limit)
    (hlevels : levels ≤ limit) : (g.course levels start).ending = .ok () := by
  obtain ⟨x, context, hroot⟩ := h.root
  rcases hending : (g.course levels start).ending with failure | _
  · obtain ⟨u, place, hcut⟩ := exists_cutShort hroot hending
    obtain ⟨growth, before, cause, hgrowth, happlies, hgrown, hgrow, -⟩ := hcut.fails
    have hdepth : u.depth ≤ limit := Nat.le_trans (Nat.le_of_lt_succ hcut.depth_lt) hlevels
    obtain ⟨y, after, hsucceeds⟩ :=
      h.grow hgrown u hcut.mem hdepth growth (List.mem_of_getElem? hgrowth) happlies
    rw [hgrow] at hsucceeds
    cases hsucceeds
  · rfl

theorem Unfailing.mono {depth depth' : Nat} (h : g.Unfailing start depth') (hle : depth ≤ depth') :
    g.Unfailing start depth where
  root := h.root
  grow hgrown u hu hdepth := h.grow hgrown u hu (Nat.le_trans hdepth hle)

/-- An unfailing generator has one depth-first sequence of visits that every walk makes whose visits
do not fail. -/
theorem Unfailing.exists_visits {limit depth : Nat} (h : g.Unfailing start limit)
    (hdepth : 1 ≤ depth) (hlimit : depth ≤ limit + 1) :
    ∃ visits finish, g.DepthFirst start depth finish visits
      ∧ g.instances depth start = (.ok (visits.map Visit.node), finish)
      ∧ ∀ {κ : Type} (visit : ι → Attempt κ Unit),
        (∀ x before, ∃ after, (visit x).run before = (.ok (), after)) →
        ∀ k, ∃ k', (g.walk visit depth).run (start, k) = (.ok (), finish, k') := by
  obtain ⟨levels, rfl⟩ := Nat.exists_eq_add_of_le' hdepth
  obtain ⟨x, context, hroot⟩ := h.root
  have htraversal := traversal_course levels hroot
  rw [h.ending_course (Nat.le_of_succ_le_succ hlimit)] at htraversal
  refine ⟨_, _, htraversal.depthFirst rfl, htraversal.instances_eq, fun {κ} visit hvisit k => ?_⟩
  obtain ⟨k', hvisits⟩ :=
    Attempt.exists_run_forM hvisit ((g.course levels start).visits.map Visit.node) k
  exact ⟨k', htraversal.run_walk visit k k' hvisits⟩

end Generator

/-! ### Invariants -/

/-- Under the invariant, the growth succeeds if it applies, brings the invariant to the node that it
makes one level deeper, and leaves it to all others. Below the limit it may overflow instead. -/
def Growth.Keeps (growth : Growth σ ι) (limit : Nat) (inv : Context σ → Nat → ι → Prop) : Prop :=
  ∀ before depth x, inv before depth x → growth.applies x = true →
    (∃ y after, (growth.grow x).run before = (.ok y, after) ∧ inv after (depth + 1) y
        ∧ ∀ depth z, inv before depth z → inv after depth z)
      ∨ limit < depth ∧ growth.Overflows x before

namespace Generator

structure Maintains (g : Generator σ ι) (start : Context σ) (limit : Nat)
    (inv : Context σ → Nat → ι → Prop) : Prop where
  root : ∃ x context, g.root.run start = (.ok x, context) ∧ inv context 1 x
  grow : ∀ growth ∈ g.effective, growth.Keeps limit inv

variable {g : Generator σ ι} {start finish : Context σ} {visits : List (Visit σ ι)} {limit : Nat}
  {inv : Context σ → Nat → ι → Prop}

/-- What holds of the root at depth one, and one level deeper of what a growth makes of a node that
it applies to, holds of all visits at their depth. -/
theorem Grown.holds {prop : Nat → ι → Prop} (hgrown : g.Grown start visits finish)
    (hroot : ∀ x context, g.root.run start = (.ok x, context) → prop 1 x)
    (hstep : ∀ growth ∈ g.effective, ∀ depth x y, prop depth x → growth.applies x = true →
      growth.Takes x y → prop (depth + 1) y) :
    ∀ v ∈ visits, prop v.depth v.node := by
  refine hgrown.induction (fun v _ hpath hrun => ?_)
    fun u _ hu v _ place growth hpath hgrowth happlies htakes => ?_
  · rw [Visit.depth, hpath]
    exact hroot _ _ hrun
  · rw [Visit.depth, hpath, List.length_append]
    exact hstep growth (List.mem_of_getElem? hgrowth) _ _ _ hu happlies htakes

theorem Maintains.of_grown (h : g.Maintains start limit inv)
    (hgrown : g.Grown start visits finish) : ∀ v ∈ visits, inv finish v.depth v.node := by
  induction hgrown with
  | root hroot =>
      obtain ⟨x, context, hroot', hx⟩ := h.root
      rw [hroot] at hroot'
      cases hroot'
      intro v hv
      rw [List.mem_singleton.mp hv]
      exact hx
  | grow _ hu hgrowth happlies hgrow ih =>
      rcases h.grow _ (List.mem_of_getElem? hgrowth) _ _ _ (ih _ hu) happlies with
        ⟨y, after, hgrow', hy, hothers⟩ | ⟨-, failure, hfails, -⟩
      · rw [hgrow] at hgrow'
        cases hgrow'
        intro v hv
        rcases List.mem_append.mp hv with hv | hv
        · exact hothers _ _ (ih v hv)
        · rw [List.mem_singleton.mp hv, Visit.depth, List.length_append, List.length_singleton]
          exact hy
      · rw [hgrow] at hfails
        cases hfails

theorem Maintains.unfailing (h : g.Maintains start limit inv) : g.Unfailing start limit where
  root := by
    obtain ⟨x, context, hroot, -⟩ := h.root
    exact ⟨x, context, hroot⟩
  grow hgrown u hu hdepth growth hgrowth happlies := by
    rcases h.grow growth hgrowth _ _ _ (h.of_grown hgrown u hu) happlies with
      ⟨y, after, hgrow, -⟩ | ⟨hdeeper, -⟩
    · exact ⟨y, after, hgrow⟩
    · exact absurd hdepth (Nat.not_le_of_lt hdeeper)

/-- A walk gets through, or it goes below the limit and is stopped there by an overflow. -/
theorem Maintains.ending_course (h : g.Maintains start limit inv) (levels : Nat) :
    (g.course levels start).ending = .ok ()
      ∨ limit < levels ∧ ∃ failure, (g.course levels start).ending = .error failure
        ∧ failure.kind = .overflow := by
  obtain ⟨x, context, hroot, -⟩ := h.root
  rcases hending : (g.course levels start).ending with failure | _
  · right
    obtain ⟨u, place, hcut⟩ := exists_cutShort hroot hending
    obtain ⟨growth, before, cause, hgrowth, happlies, hgrown, hgrow, rfl⟩ := hcut.fails
    rcases h.grow growth (List.mem_of_getElem? hgrowth) _ _ _ (h.of_grown hgrown u hcut.mem)
      happlies with ⟨y, after, hsucceeds, -⟩ | ⟨hdeeper, failure, hfails, hkind⟩
    · rw [hgrow] at hsucceeds
      cases hsucceeds
    · rw [hgrow] at hfails
      obtain rfl := Except.error.inj hfails
      exact ⟨Nat.lt_of_lt_of_le hdeeper (Nat.le_of_lt_succ hcut.depth_lt), _, rfl, hkind⟩
  · exact .inl rfl

/-- Walks to any depth make visits under the invariant, and get through to a depth at which nothing
overflows. -/
theorem Maintains.exists_traversal (h : g.Maintains start limit inv) {depth : Nat}
    (hdepth : 1 ≤ depth) :
    ∃ visits ending finish, g.Traversal start depth visits ending finish
      ∧ (ending = .ok ()
        ∨ limit + 1 < depth ∧ ∃ failure, ending = .error failure ∧ failure.kind = .overflow) := by
  obtain ⟨levels, rfl⟩ := Nat.exists_eq_add_of_le' hdepth
  obtain ⟨x, context, hroot, -⟩ := h.root
  refine ⟨_, _, _, traversal_course levels hroot, ?_⟩
  exact (h.ending_course levels).imp_right (And.imp_left Nat.succ_lt_succ)

theorem mem_of_mem_firstOfName {growths : List (Growth σ ι)} {growth : Growth σ ι}
    (h : growth ∈ firstOfName growths) : growth ∈ growths := by
  induction growths with
  | nil => exact h
  | cons first rest ih =>
      rcases List.mem_cons.mp h with rfl | h
      · exact List.mem_cons_self
      · exact List.mem_cons_of_mem _ (ih (List.mem_of_mem_filter h))

theorem mem_growths_of_mem_repeated {times : String → Nat} {growth : Growth σ ι}
    (h : growth ∈ (g.repeated times).effective) : growth ∈ g.growths := by
  obtain ⟨first, hfirst, hgrowth⟩ := List.mem_flatMap.mp h
  rw [List.eq_of_mem_replicate hgrowth]
  exact mem_of_mem_firstOfName hfirst

theorem maintains_repeated {x : ι} {context : Context σ}
    (hroot : g.root.run start = (.ok x, context)) (hx : inv context 1 x)
    (hgrow : ∀ growth ∈ g.growths, growth.Keeps limit inv) (times : String → Nat) :
    (g.repeated times).Maintains start limit inv where
  root := ⟨x, context, hroot, hx⟩
  grow growth hgrowth := hgrow growth (mem_growths_of_mem_repeated hgrowth)

end Generator

section

variable {a : Adaptation β ι} {limit : Nat} {inv : Context σ → Nat → β → Prop}

theorem Growth.Keeps.adapt (hembeds : a.Embeds) {growth : Growth σ β}
    (h : growth.Keeps limit inv) :
    (growth.adapt a).Keeps limit fun context depth x => inv context depth (a.base x) := by
  intro before depth x hx happlies
  have hrun := growth.run_adapt hembeds x before
  rcases h before depth (a.base x) hx happlies with
    ⟨b, after, hgrow, hb, hothers⟩ | ⟨hdeeper, failure, hfails, hkind⟩
  · rw [hgrow] at hrun
    obtain ⟨hmap, rfl⟩ := Prod.mk.inj hrun
    obtain ⟨y, hy, rfl⟩ := map_eq_ok.mp hmap.symm
    exact .inl ⟨y, _, Prod.ext hy rfl, hb, fun depth z hz => hothers depth (a.base z) hz⟩
  · rw [hrun] at hfails
    exact .inr ⟨hdeeper, failure, map_eq_error.mp hfails, hkind⟩

theorem Generator.keeps_of_mem_adapt (hembeds : a.Embeds) {g : Generator σ β}
    (h : ∀ growth ∈ g.growths, growth.Keeps limit inv) :
    ∀ growth ∈ (g.adapt a []).growths,
      growth.Keeps limit fun context depth x => inv context depth (a.base x) := by
  intro growth hgrowth
  rcases List.mem_append.mp hgrowth with hgrowth | hgrowth
  · obtain ⟨base, hbase, rfl⟩ := List.mem_map.mp hgrowth
    exact (h base hbase).adapt hembeds
  · cases hgrowth

end

end SolverAudit
