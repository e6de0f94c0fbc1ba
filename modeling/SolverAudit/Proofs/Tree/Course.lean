import SolverAudit.Proofs.Tree.Growth
import SolverAudit.Tree.Walk

/-!
# The course of a walk

The generator alone settles which nodes a walk comes to, in which contexts, and whether a growth
stops it; the visits only decide how far it gets. The course of a walk is what happens when no visit
fails, and every walk replays it up to the first visit that does.
-/

namespace SolverAudit

variable {σ ι κ : Type}

/-- A node when it is visited: the places, in the list of growths, of those that lead to it from the
root, its instance, and the context at that moment. -/
structure Visit (σ ι : Type) where
  path : List Nat
  node : ι
  context : Context σ

/-- The root is at depth one. -/
def Visit.depth (v : Visit σ ι) : Nat := v.path.length + 1

/-- The visits in order, how the walk ends after them, and the context that it leaves. -/
structure Course (σ ι : Type) where
  visits : List (Visit σ ι)
  ending : Except Failure Unit
  context : Context σ

namespace Course

def finished (context : Context σ) : Course σ ι := ⟨[], .ok (), context⟩

def stopped (growth : Growth σ ι) (cause : Failure) (context : Context σ) : Course σ ι :=
  ⟨[], .error (cause.during s!"while applying translator {growth.name}"), context⟩

/-- A course that starts with one more visit. -/
def after (v : Visit σ ι) (course : Course σ ι) : Course σ ι :=
  { course with visits := v :: course.visits }

/-- One course and, unless a growth stops it, another one from the context that it leaves. -/
def andThen (first : Course σ ι) (rest : Context σ → Course σ ι) : Course σ ι :=
  match first.ending with
  | .error _ => first
  | .ok () =>
    let second := rest first.context
    { second with visits := first.visits ++ second.visits }

/-- The subtrees below a visited node, one for each of the growths that applies. -/
def below (descend : Visit σ ι → Course σ ι) (v : Visit σ ι) :
    List (Growth σ ι × Nat) → Context σ → Course σ ι
  | [], context => finished context
  | (growth, place) :: rest, context =>
    if growth.applies v.node then
      match (growth.grow v.node).run context with
      | (.error cause, context) => stopped growth cause context
      | (.ok child, context) =>
        (descend ⟨v.path ++ [place], child, context⟩).andThen (below descend v rest)
    else
      below descend v rest context

/-- A visited node and the subtrees below it, down to the given number of levels. -/
def ofNode (growths : List (Growth σ ι)) : (levels : Nat) → Visit σ ι → Course σ ι
  | 0, v => after v (finished v.context)
  | levels + 1, v => after v (below (ofNode growths levels) v growths.zipIdx v.context)

def replayVisits (visit : ι → Attempt κ Unit) (ending : Except Failure Unit) (context : Context σ) :
    List (Visit σ ι) → κ → Except Failure Unit × Context σ × κ
  | [], k => (ending, context, k)
  | v :: rest, k =>
    match (visit v.node).run k with
    | (.error failure, k) => (.error failure, v.context, k)
    | (.ok (), k) => replayVisits visit ending context rest k

/-- What visits make of a course: the first one that fails stops it. -/
def replay (visit : ι → Attempt κ Unit) (course : Course σ ι) :
    κ → Except Failure Unit × Context σ × κ :=
  replayVisits visit course.ending course.context course.visits

/-! ### One course after another -/

section

variable {first : Course σ ι} {rest : Context σ → Course σ ι}

theorem andThen_of_ok (hfirst : first.ending = .ok ()) :
    first.andThen rest =
      { rest first.context with visits := first.visits ++ (rest first.context).visits } := by
  rw [andThen, hfirst]

theorem andThen_of_error {failure : Failure} (hfirst : first.ending = .error failure) :
    first.andThen rest = first := by
  rw [andThen, hfirst]

theorem andThen_after (v : Visit σ ι) (first : Course σ ι) (rest : Context σ → Course σ ι) :
    (after v first).andThen rest = after v (first.andThen rest) := by
  obtain ⟨visits, ending, context⟩ := first
  cases ending <;> rfl

theorem mem_visits_andThen_left {v : Visit σ ι} (hv : v ∈ first.visits) :
    v ∈ (first.andThen rest).visits := by
  cases hfirst : first.ending with
  | error failure => rwa [andThen_of_error hfirst]
  | ok _ =>
      rw [andThen_of_ok hfirst]
      exact List.mem_append_left _ hv

theorem mem_visits_andThen_right (hfirst : first.ending = .ok ()) {v : Visit σ ι}
    (hv : v ∈ (rest first.context).visits) : v ∈ (first.andThen rest).visits := by
  rw [andThen_of_ok hfirst]
  exact List.mem_append_right _ hv

theorem mem_visits_andThen {v : Visit σ ι} (hv : v ∈ (first.andThen rest).visits) :
    v ∈ first.visits ∨ v ∈ (rest first.context).visits := by
  cases hfirst : first.ending with
  | error failure =>
      rw [andThen_of_error hfirst] at hv
      exact .inl hv
  | ok _ =>
      rw [andThen_of_ok hfirst] at hv
      exact List.mem_append.mp hv

theorem ending_andThen_eq_ok :
    (first.andThen rest).ending = .ok () ↔
      first.ending = .ok () ∧ (rest first.context).ending = .ok () := by
  cases hfirst : first.ending with
  | error failure => simp [andThen_of_error hfirst, hfirst]
  | ok _ => simp [andThen_of_ok hfirst]

end

/-- The growths are looked at one by one, each in the context that the subtrees so far have left. -/
theorem below_induction {descend : Visit σ ι → Course σ ι} {v : Visit σ ι}
    {motive : List (Growth σ ι × Nat) → Context σ → Course σ ι → Prop}
    (nil : ∀ context, motive [] context (finished context))
    (stop : ∀ growth place rest before cause after, growth.applies v.node = true →
      (growth.grow v.node).run before = (.error cause, after) →
      motive ((growth, place) :: rest) before (stopped growth cause after))
    (grow : ∀ growth place rest before child after, growth.applies v.node = true →
      (growth.grow v.node).run before = (.ok child, after) →
      (∀ context, motive rest context (below descend v rest context)) →
      motive ((growth, place) :: rest) before
        ((descend ⟨v.path ++ [place], child, after⟩).andThen (below descend v rest)))
    (skip : ∀ growth place rest context, growth.applies v.node = false →
      motive rest context (below descend v rest context) →
      motive ((growth, place) :: rest) context (below descend v rest context))
    (growths : List (Growth σ ι × Nat)) (context : Context σ) :
    motive growths context (below descend v growths context) := by
  induction growths generalizing context with
  | nil => exact nil context
  | cons entry rest ih =>
      obtain ⟨growth, place⟩ := entry
      by_cases happlies : growth.applies v.node = true
      · rw [below, if_pos happlies]
        rcases hgrow : (growth.grow v.node).run context with ⟨cause | child, after⟩
        · exact stop growth place rest context cause after happlies hgrow
        · exact grow growth place rest context child after happlies hgrow ih
      · rw [below, if_neg happlies]
        exact skip growth place rest context (Bool.not_eq_true _ ▸ happlies) (ih context)

/-! ### Replaying a course -/

variable {visit : ι → Attempt κ Unit}

theorem replay_after (v : Visit σ ι) (course : Course σ ι) (k : κ) :
    (after v course).replay visit k =
      match (visit v.node).run k with
      | (.error failure, k) => (.error failure, v.context, k)
      | (.ok (), k) => course.replay visit k := rfl

theorem replay_andThen (first : Course σ ι) (rest : Context σ → Course σ ι) (k : κ) :
    (first.andThen rest).replay visit k =
      match first.replay visit k with
      | (.error failure, context, k) => (.error failure, context, k)
      | (.ok (), context, k) => (rest context).replay visit k := by
  obtain ⟨visits, ending, context⟩ := first
  induction visits generalizing k with
  | nil => cases ending <;> rfl
  | cons v visits ih =>
      change ((after v ⟨visits, ending, context⟩).andThen rest).replay visit k =
        match (after v ⟨visits, ending, context⟩).replay visit k with
        | (.error failure, context, k) => (.error failure, context, k)
        | (.ok (), context, k) => (rest context).replay visit k
      rw [andThen_after, replay_after, replay_after]
      rcases (visit v.node).run k with ⟨failure | _, k⟩
      · rfl
      · exact ih k

theorem replay_eq_ok {course : Course σ ι} {finish : Context σ} {k k' : κ} :
    course.replay visit k = (.ok (), finish, k') ↔
      course.ending = .ok () ∧ course.context = finish
        ∧ ((course.visits.map Visit.node).forM visit).run k = (.ok (), k') := by
  obtain ⟨visits, ending, context⟩ := course
  induction visits generalizing k with
  | nil =>
      rw [List.map_nil, List.forM, Attempt.run_pure_eq_ok]
      change (ending, context, k) = _ ↔ _
      simp
  | cons v visits ih =>
      rw [List.map_cons, Attempt.run_forM_cons]
      change (after v ⟨visits, ending, context⟩).replay visit k = _ ↔ _
      rw [replay_after]
      rcases (visit v.node).run k with ⟨failure | _, k⟩
      · constructor
        · intro h
          cases h
        · rintro ⟨-, -, h⟩
          cases h
      · exact ih

/-- A walk fails in a visit or, after all the visits of its course, in a growth. -/
theorem replay_eq_error {course : Course σ ι} {failure : Failure} {finish : Context σ} {k k' : κ}
    (h : course.replay visit k = (.error failure, finish, k')) :
    (∃ earlier v later k₁, course.visits = earlier ++ v :: later
        ∧ ((earlier.map Visit.node).forM visit).run k = (.ok (), k₁)
        ∧ (visit v.node).run k₁ = (.error failure, k') ∧ v.context = finish)
      ∨ course.ending = .error failure ∧ course.context = finish
        ∧ ((course.visits.map Visit.node).forM visit).run k = (.ok (), k') := by
  obtain ⟨visits, ending, context⟩ := course
  induction visits generalizing k with
  | nil =>
      cases h
      exact .inr ⟨rfl, rfl, rfl⟩
  | cons v visits ih =>
      change (after v ⟨visits, ending, context⟩).replay visit k = _ at h
      rw [replay_after] at h
      rcases hvisit : (visit v.node).run k with ⟨failure' | _, k₁⟩
      · rw [hvisit] at h
        cases h
        exact .inl ⟨[], v, visits, k, rfl, rfl, hvisit, rfl⟩
      · rw [hvisit] at h
        rcases ih h with ⟨earlier, w, later, k₂, hsplit, hearlier, hw, hfinish⟩ |
          ⟨hending, hfinish, hall⟩
        · refine .inl ⟨v :: earlier, w, later, k₂, congrArg (v :: ·) hsplit, ?_, hw, hfinish⟩
          rw [List.map_cons, Attempt.run_forM_cons, hvisit]
          exact hearlier
        · refine .inr ⟨hending, hfinish, ?_⟩
          rw [List.map_cons, Attempt.run_forM_cons, hvisit]
          exact hall

theorem replay_remember (course : Course σ ι) (earlier : List ι) :
    course.replay Generator.remember earlier =
      (course.ending, course.context, earlier ++ course.visits.map Visit.node) := by
  obtain ⟨visits, ending, context⟩ := course
  induction visits generalizing earlier with
  | nil =>
      rw [List.map_nil, List.append_nil]
      rfl
  | cons v visits ih =>
      change (after v ⟨visits, ending, context⟩).replay Generator.remember earlier = _
      rw [replay_after]
      change Course.replay _ _ (earlier ++ [v.node]) = _
      rw [ih, List.append_assoc]
      rfl

end Course

/-! ### The walk replays its course -/

/-- What a walk does at a node about one of the growths. -/
def Growth.tryAt (deeper : ι → Attempt (Context σ × κ) Unit) (node : ι) (growth : Growth σ ι) :
    Attempt (Context σ × κ) Unit := do
  if growth.applies node then
    let child ← (Attempt.during s!"while applying translator {growth.name}"
      (growth.grow node)).onFirst
    deeper child

theorem expand_succ (growths : List (Growth σ ι)) (visit : ι → Attempt κ Unit) (levels : Nat)
    (node : ι) :
    expand growths visit (levels + 1) node =
      (visit node).onSecond >>= fun _ =>
        growths.forM (Growth.tryAt (expand growths visit levels) node) := rfl

theorem Growth.run_tryAt_of_applies {growth : Growth σ ι} {node : ι}
    (happlies : growth.applies node = true) (deeper : ι → Attempt (Context σ × κ) Unit)
    (context : Context σ) (k : κ) :
    (growth.tryAt deeper node).run (context, k) =
      match (growth.grow node).run context with
      | (.error cause, context) =>
        (.error (cause.during s!"while applying translator {growth.name}"), context, k)
      | (.ok child, context) => (deeper child).run (context, k) := by
  rw [tryAt, if_pos happlies, Attempt.run_bind, Attempt.run_onFirst, Attempt.run_during]
  rcases (growth.grow node).run context with ⟨cause | child, context⟩ <;> rfl

namespace Course

variable {visit : ι → Attempt κ Unit}

theorem run_below {descend : Visit σ ι → Course σ ι} {deeper : ι → Attempt (Context σ × κ) Unit}
    (hdescend : ∀ v k, (deeper v.node).run (v.context, k) = (descend v).replay visit k)
    (v : Visit σ ι) (growths : List (Growth σ ι × Nat)) (context : Context σ) (k : κ) :
    ((growths.map Prod.fst).forM (Growth.tryAt deeper v.node)).run (context, k) =
      (below descend v growths context).replay visit k := by
  induction growths generalizing context k with
  | nil => rfl
  | cons head rest ih =>
      obtain ⟨growth, place⟩ := head
      rw [List.map_cons, Attempt.run_forM_cons]
      by_cases happlies : growth.applies v.node = true
      · rw [Growth.run_tryAt_of_applies happlies, below, if_pos happlies]
        rcases (growth.grow v.node).run context with ⟨cause | child, context⟩
        · rfl
        · rw [replay_andThen, ← hdescend]
          dsimp only
          rcases (deeper child).run (context, k) with ⟨failure | _, context, k⟩
          · rfl
          · exact ih context k
      · rw [Growth.tryAt, if_neg happlies, below, if_neg happlies]
        exact ih context k

theorem run_expand (growths : List (Growth σ ι)) (levels : Nat) (v : Visit σ ι) (k : κ) :
    (expand growths visit levels v.node).run (v.context, k) =
      (ofNode growths levels v).replay visit k := by
  induction levels generalizing v k with
  | zero =>
      rw [expand, Attempt.run_onSecond, ofNode, replay_after]
      rcases (visit v.node).run k with ⟨failure | _, k⟩ <;> rfl
  | succ levels ih =>
      rw [expand_succ, Attempt.run_bind, Attempt.run_onSecond, ofNode, replay_after]
      rcases (visit v.node).run k with ⟨failure | _, k⟩
      · rfl
      · have hbelow := run_below ih v growths.zipIdx v.context k
        rwa [List.zipIdx_map_fst] at hbelow

end Course

namespace Generator

/-- The course of a walk with so many levels below the root. -/
def course (g : Generator σ ι) (levels : Nat) (start : Context σ) : Course σ ι :=
  match g.root.run start with
  | (.error cause, context) =>
    ⟨[], .error (cause.during "while building the root instance"), context⟩
  | (.ok root, context) => Course.ofNode g.effective levels ⟨[], root, context⟩

/-- **A walk replays its course.** -/
theorem run_walk (g : Generator σ ι) (visit : ι → Attempt κ Unit) (levels : Nat)
    (start : Context σ) (k : κ) :
    (g.walk visit (levels + 1)).run (start, k) = (g.course levels start).replay visit k := by
  rw [walk, Attempt.run_bind, Attempt.run_onFirst, Attempt.run_during, course]
  rcases g.root.run start with ⟨cause | root, context⟩
  · rfl
  · exact Course.run_expand g.effective levels ⟨[], root, context⟩ k

theorem instances_eq (g : Generator σ ι) (levels : Nat) (start : Context σ) :
    g.instances (levels + 1) start =
      ((g.course levels start).ending.map fun _ => (g.course levels start).visits.map Visit.node,
        (g.course levels start).context) := by
  rw [instances, run_walk, Course.replay_remember]
  rfl

end Generator

end SolverAudit
