import SolverAudit.Proofs.Tree.DepthFirst

/-!
# Walks that stop early

A walk stops at the first failure. If a visit fails, the nodes visited are those that a walk without
failing visits comes to first, up to that one, and nothing grows any more. If a growth fails, they
are those that precede the missing child: its path is above all paths visited, and no node below it
in the order is left out.
-/

namespace SolverAudit

variable {σ ι κ : Type}

/-! ### Visits that are noted down -/

/-- The same visit, which notes down its node first. -/
def noted (visit : ι → Attempt κ Unit) (node : ι) : Attempt (List ι × κ) Unit := do
  (Generator.remember node).onFirst
  (visit node).onSecond

section

variable {visit : ι → Attempt κ Unit}

theorem run_noted (visit : ι → Attempt κ Unit) (node : ι) (nodes : List ι) (k : κ) :
    (noted visit node).run (nodes, k) =
      (((visit node).run k).1, nodes ++ [node], ((visit node).run k).2) := by
  rw [noted, Generator.remember, Attempt.run_bind, Attempt.run_onFirst_change]
  exact Attempt.run_onSecond _ _ _

theorem run_forM_noted {xs : List ι} {k k' : κ} (h : (xs.forM visit).run k = (.ok (), k'))
    (nodes : List ι) :
    (xs.forM (noted visit)).run (nodes, k) = (.ok (), nodes ++ xs, k') := by
  induction xs generalizing nodes k with
  | nil =>
      cases h
      rw [List.append_nil]
      rfl
  | cons x xs ih =>
      rw [Attempt.run_forM_cons] at h ⊢
      rw [run_noted]
      rcases hvisit : (visit x).run k with ⟨failure | _, between⟩
      · rw [hvisit] at h
        cases h
      · rw [hvisit] at h
        dsimp only at h ⊢
        rw [ih h, List.append_assoc]
        rfl

end

namespace Course

/-- Visits that succeed leave the rest of the course to be replayed. -/
theorem replay_append {visit : ι → Attempt κ Unit} {earlier : List (Visit σ ι)} {k k₁ : κ}
    (hearlier : ((earlier.map Visit.node).forM visit).run k = (.ok (), k₁))
    (later : List (Visit σ ι)) (ending : Except Failure Unit) (context : Context σ) :
    (Course.mk (earlier ++ later) ending context).replay visit k =
      (Course.mk later ending context).replay visit k₁ := by
  induction earlier generalizing k with
  | nil =>
      cases hearlier
      rfl
  | cons v earlier ih =>
      change (after v ⟨earlier ++ later, ending, context⟩).replay visit k = _
      rw [List.map_cons, Attempt.run_forM_cons] at hearlier
      rw [replay_after]
      rcases hv : (visit v.node).run k with ⟨failure | _, between⟩
      · rw [hv] at hearlier
        cases hearlier
      · rw [hv] at hearlier
        exact ih hearlier

theorem replay_of_visits_ok {visit : ι → Attempt κ Unit} {course : Course σ ι} {k k' : κ}
    (hvisits : ((course.visits.map Visit.node).forM visit).run k = (.ok (), k')) :
    course.replay visit k = (course.ending, course.context, k') := by
  have hreplay := replay_append hvisits [] course.ending course.context
  rwa [List.append_nil] at hreplay

/-- The first visit that fails stops a walk, in the context of that visit. -/
theorem replay_of_visit_error {visit : ι → Attempt κ Unit} {course : Course σ ι}
    {earlier later : List (Visit σ ι)} {v : Visit σ ι}
    (hsplit : course.visits = earlier ++ v :: later) {failure : Failure} {k k₁ k' : κ}
    (hearlier : ((earlier.map Visit.node).forM visit).run k = (.ok (), k₁))
    (hvisit : (visit v.node).run k₁ = (.error failure, k')) :
    course.replay visit k = (.error failure, v.context, k') := by
  obtain ⟨visits, ending, context⟩ := course
  obtain rfl := hsplit
  rw [replay_append hearlier]
  change (after v ⟨later, ending, context⟩).replay visit k₁ = _
  rw [replay_after, hvisit]

end Course

namespace Generator

section

variable (g : Generator σ ι) (start : Context σ)

/-- A growth that applies fails at a node, in the context that the visits have left. -/
def FailsAt (visits : List (Visit σ ι)) (u : Visit σ ι) (place : Nat) (failure : Failure)
    (finish : Context σ) : Prop :=
  ∃ growth before cause, g.effective[place]? = some growth ∧ growth.applies u.node = true
    ∧ g.Grown start visits before ∧ (growth.grow u.node).run before = (.error cause, finish)
    ∧ failure = cause.during s!"while applying translator {growth.name}"

/-- The visits of a depth-first walk that a growth stops. The growth does not make the child at some
place below a node, and the nodes visited are those that precede this child in the tree. -/
structure CutShort (depth : Nat) (visits : List (Visit σ ι)) (u : Visit σ ι) (place : Nat)
    (failure : Failure) (finish : Context σ) : Prop where
  mem : u ∈ visits
  depth_lt : u.depth < depth
  fails : g.FailsAt start visits u place failure finish
  precedes : ∀ v ∈ visits, v.path < u.path ++ [place]
  child_iff : ∀ v ∈ visits, ∀ place',
    (∃ w ∈ visits, w.path = v.path ++ [place']) ↔
      v.depth < depth ∧ v.path ++ [place'] < u.path ++ [place]
        ∧ ∃ growth, g.effective[place']? = some growth ∧ growth.applies v.node = true
  ordered : visits.Pairwise fun v w => v.path < w.path

end

end Generator

/-! ### What precedes a missing child -/

namespace Course

/-- All visits come before the missing path, and none is left out that does: a node above the last
depth has its children up to there. -/
structure FilledUpTo (g : Generator σ ι) (depth : Nat) (missing : List Nat)
    (visits : List (Visit σ ι)) : Prop where
  precedes : ∀ w ∈ visits, w.path < missing
  child : ∀ w ∈ visits, w.depth < depth → ∀ place growth, g.effective[place]? = some growth →
    growth.applies w.node = true → w.path ++ [place] < missing →
    ∃ u ∈ visits, u.path = w.path ++ [place]

variable {g : Generator σ ι} {start : Context σ} {depth levels : Nat}

theorem FilledUpTo.append {missing : List Nat} {first second : List (Visit σ ι)}
    (hfirst : FilledUpTo g depth missing first) (hsecond : FilledUpTo g depth missing second) :
    FilledUpTo g depth missing (first ++ second) where
  precedes := List.forall_mem_append.mpr ⟨hfirst.precedes, hsecond.precedes⟩
  child w hw hdepth place growth hgrowth happlies hlt := by
    rcases List.mem_append.mp hw with hw | hw
    · obtain ⟨u, hu, hpath⟩ := hfirst.child w hw hdepth place growth hgrowth happlies hlt
      exact ⟨u, List.mem_append_left _ hu, hpath⟩
    · obtain ⟨u, hu, hpath⟩ := hsecond.child w hw hdepth place growth hgrowth happlies hlt
      exact ⟨u, List.mem_append_right _ hu, hpath⟩

/-- A whole subtree is filled up to any path to the right of it. -/
theorem filledUpTo_ofNode {v : Visit σ ι} (hlevels : v.depth + levels = depth)
    (hending : (ofNode g.effective levels v).ending = .ok ()) {missing : List Nat}
    (hmissing : ∀ tail, v.path ++ tail < missing) :
    FilledUpTo g depth missing (ofNode g.effective levels v).visits where
  precedes w hw := by
    obtain ⟨tail, hpath, -⟩ := path_of_mem_ofNode hw
    exact hpath ▸ hmissing tail
  child w hw hdepth place growth hgrowth happlies _ := by
    simp only [Visit.depth] at hlevels hdepth
    exact exists_child_of_mem_ofNode hending hw (by omega) hgrowth happlies

/-- A course that a growth stops comes, in the order, to a child below a visited node that this
growth does not make, and is filled up to there. -/
structure Breaks (g : Generator σ ι) (start : Context σ) (depth : Nat)
    (earlier : List (Visit σ ι)) (course : Course σ ι) (u : Visit σ ι) (place : Nat)
    (failure : Failure) : Prop where
  depth_lt : u.depth < depth
  fails : g.FailsAt start (earlier ++ course.visits) u place failure course.context
  filled : FilledUpTo g depth (u.path ++ [place]) course.visits

theorem Breaks.andThen {earlier : List (Visit σ ι)} {first : Course σ ι}
    {rest : Context σ → Course σ ι} {u : Visit σ ι} {place : Nat} {failure : Failure}
    (hfirst : first.ending = .ok ())
    (hbreaks : (rest first.context).Breaks g start depth (earlier ++ first.visits) u place failure)
    (hfilled : FilledUpTo g depth (u.path ++ [place]) first.visits) :
    (first.andThen rest).Breaks g start depth earlier u place failure := by
  rw [andThen_of_ok hfirst]
  refine ⟨hbreaks.depth_lt, ?_, hfilled.append hbreaks.filled⟩
  have hfails := hbreaks.fails
  rwa [List.append_assoc] at hfails

/-- Growths in the order of their places, each one at its place. -/
def InPlace (g : Generator σ ι) (entries : List (Growth σ ι × Nat)) : Prop :=
  (∀ entry ∈ entries, g.effective[entry.2]? = some entry.1)
    ∧ entries.Pairwise fun a b => a.2 < b.2

theorem inPlace_cons {growth : Growth σ ι} {place : Nat} {rest : List (Growth σ ι × Nat)} :
    InPlace g ((growth, place) :: rest) ↔
      g.effective[place]? = some growth ∧ (∀ entry ∈ rest, place < entry.2) ∧ InPlace g rest := by
  rw [InPlace, InPlace, List.forall_mem_cons, List.pairwise_cons]
  tauto

theorem inPlace_zipIdx (g : Generator σ ι) : InPlace g g.effective.zipIdx :=
  ⟨fun _ hentry => List.mem_zipIdx_iff_getElem?.mp hentry, pairwise_zipIdx _⟩

/-- A course below a node that breaks at one of the places, with the children made before it. -/
structure BreaksBelow (g : Generator σ ι) (start : Context σ) (depth : Nat) (v : Visit σ ι)
    (entries : List (Growth σ ι × Nat)) (earlier : List (Visit σ ι)) (course : Course σ ι)
    (u : Visit σ ι) (place : Nat) (failure : Failure) : Prop where
  mem : u ∈ v :: course.visits
  breaks : course.Breaks g start depth earlier u place failure
  path : ∃ entry ∈ entries, ∃ tail, u.path ++ [place] = v.path ++ entry.2 :: tail
  child : ∀ entry ∈ entries, entry.1.applies v.node = true →
    v.path ++ [entry.2] < u.path ++ [place] → ∃ w ∈ course.visits, w.path = v.path ++ [entry.2]

section

variable {v : Visit σ ι} {growth : Growth σ ι} {place : Nat} {rest : List (Growth σ ι × Nat)}
  {earlier : List (Visit σ ι)} {failure : Failure}

/-- No place after the first one leads to a path before those through the first one. -/
theorem child_of_lt {tail : List Nat} {visits : List (Visit σ ι)}
    (hplaces : ∀ entry ∈ rest, place < entry.2)
    (hhead : v.path ++ [place] < v.path ++ place :: tail →
      ∃ w ∈ visits, w.path = v.path ++ [place]) :
    ∀ entry ∈ (growth, place) :: rest, entry.1.applies v.node = true →
      v.path ++ [entry.2] < v.path ++ place :: tail →
      ∃ w ∈ visits, w.path = v.path ++ [entry.2] := by
  refine List.forall_mem_cons.mpr ⟨fun _ => hhead, fun entry hentry _ hlt => ?_⟩
  exact absurd hlt (List.lt_asymm (path_lt_of_place_lt (hplaces entry hentry)))

theorem breaksBelow_stopped {before after : Context σ} {cause : Failure} (hdepth : v.depth < depth)
    (hentries : InPlace g ((growth, place) :: rest)) (happlies : growth.applies v.node = true)
    (hgrow : (growth.grow v.node).run before = (.error cause, after))
    (hgrown : g.Grown start earlier before) :
    BreaksBelow g start depth v ((growth, place) :: rest) earlier (stopped growth cause after)
      v place (cause.during s!"while applying translator {growth.name}") := by
  obtain ⟨hgrowth, hplaces, -⟩ := inPlace_cons.mp hentries
  refine ⟨List.mem_cons_self, ⟨hdepth, ?_, ?_⟩, ⟨_, List.mem_cons_self, [], rfl⟩, ?_⟩
  · rw [stopped, List.append_nil]
    exact ⟨growth, before, cause, hgrowth, happlies, hgrown, hgrow, rfl⟩
  · exact ⟨fun w hw => absurd hw List.not_mem_nil, fun w hw => absurd hw List.not_mem_nil⟩
  · exact child_of_lt hplaces fun hlt => absurd hlt (List.lt_irrefl _)

theorem breaksBelow_of_child {child : Visit σ ι} {u : Visit σ ι} {place' : Nat}
    (hpath : child.path = v.path ++ [place]) (hentries : InPlace g ((growth, place) :: rest))
    (hu : u ∈ (ofNode g.effective levels child).visits)
    (hbreaks : (ofNode g.effective levels child).Breaks g start depth earlier u place' failure) :
    BreaksBelow g start depth v ((growth, place) :: rest) earlier (ofNode g.effective levels child)
      u place' failure := by
  obtain ⟨tail, htail, -⟩ := path_of_mem_ofNode hu
  have hmissing : u.path ++ [place'] = v.path ++ place :: (tail ++ [place']) := by
    rw [htail, hpath, List.append_assoc, List.append_assoc, List.singleton_append]
  refine ⟨List.mem_cons_of_mem _ hu, hbreaks, ⟨_, List.mem_cons_self, _, hmissing⟩, ?_⟩
  rw [hmissing]
  exact child_of_lt (inPlace_cons.mp hentries).2.1
    fun _ => ⟨child, mem_visits_ofNode _ _ child, hpath⟩

theorem BreaksBelow.andThen {child : Visit σ ι} {next : Context σ → Course σ ι} {u : Visit σ ι}
    {place' : Nat} (hpath : child.path = v.path ++ [place])
    (hentries : InPlace g ((growth, place) :: rest)) (hlevels : child.depth + levels = depth)
    (hending : (ofNode g.effective levels child).ending = .ok ())
    (h : BreaksBelow g start depth v rest (earlier ++ (ofNode g.effective levels child).visits)
      (next (ofNode g.effective levels child).context) u place' failure) :
    BreaksBelow g start depth v ((growth, place) :: rest) earlier
      ((ofNode g.effective levels child).andThen next) u place' failure := by
  obtain ⟨entry, hentry, tail, hmissing⟩ := h.path
  have hright : ∀ below, child.path ++ below < u.path ++ [place'] := by
    intro below
    rw [hmissing, hpath, List.append_assoc, List.singleton_append]
    exact path_lt_of_place_lt ((inPlace_cons.mp hentries).2.1 entry hentry)
  refine ⟨?_, h.breaks.andThen hending (filledUpTo_ofNode hlevels hending hright),
    ⟨entry, List.mem_cons_of_mem _ hentry, tail, hmissing⟩, ?_⟩
  · rcases List.mem_cons.mp h.mem with rfl | hu
    · exact List.mem_cons_self
    · exact List.mem_cons_of_mem _ (mem_visits_andThen_right hending hu)
  · refine List.forall_mem_cons.mpr ⟨fun _ _ => ?_, fun entry' hentry' happlies hlt => ?_⟩
    · exact ⟨child, mem_visits_andThen_left (mem_visits_ofNode _ _ child), hpath⟩
    · obtain ⟨w, hw, hpath'⟩ := h.child entry' hentry' happlies hlt
      exact ⟨w, mem_visits_andThen_right hending hw, hpath'⟩

end

theorem exists_breaksBelow {v : Visit σ ι} (hdepth : v.depth + (levels + 1) = depth)
    (hdescend : ∀ earlier child failure, child.depth + levels = depth →
      g.Grown start (earlier ++ [child]) child.context →
      (ofNode g.effective levels child).ending = .error failure →
      ∃ u ∈ (ofNode g.effective levels child).visits, ∃ place,
        (ofNode g.effective levels child).Breaks g start depth earlier u place failure)
    {entries : List (Growth σ ι × Nat)} (hentries : InPlace g entries)
    {earlier : List (Visit σ ι)} {context : Context σ} (hgrown : g.Grown start earlier context)
    (hv : v ∈ earlier) {failure : Failure}
    (hending : (below (ofNode g.effective levels) v entries context).ending = .error failure) :
    ∃ u place, BreaksBelow g start depth v entries earlier
      (below (ofNode g.effective levels) v entries context) u place failure := by
  refine below_induction (motive := fun entries context course => InPlace g entries →
    ∀ earlier, g.Grown start earlier context → v ∈ earlier → course.ending = .error failure →
      ∃ u place, BreaksBelow g start depth v entries earlier course u place failure)
    ?nil ?stop ?grow ?skip entries context hentries earlier hgrown hv hending
  case nil => exact fun _ _ _ _ _ hending => nomatch hending
  case stop =>
    intro growth place rest before cause after happlies hgrow hentries earlier hgrown _ hending
    obtain rfl := Except.error.inj hending
    exact ⟨v, place, breaksBelow_stopped (by omega) hentries happlies hgrow hgrown⟩
  case grow =>
    intro growth place rest before node after happlies hgrow ih hentries earlier hgrown hv hending
    obtain ⟨hgrowth, -, hrest⟩ := inPlace_cons.mp hentries
    have hchild := hgrown.grow hv hgrowth happlies hgrow
    have hlevels : (Visit.mk (v.path ++ [place]) node after).depth + levels = depth := by
      rw [← hdepth, Visit.depth, Visit.depth, List.length_append, List.length_singleton]
      omega
    cases hfirst : (ofNode g.effective levels ⟨v.path ++ [place], node, after⟩).ending with
    | error failure' =>
        rw [andThen_of_error hfirst] at hending ⊢
        obtain ⟨u, hu, place', hbreaks⟩ := hdescend _ _ failure hlevels hchild hending
        exact ⟨u, place', breaksBelow_of_child rfl hentries hu hbreaks⟩
    | ok _ =>
        have hextends : (ofNode g.effective levels _).Extends g start earlier :=
          extends_ofNode hchild
        rw [Extends, hfirst] at hextends
        rw [andThen_of_ok hfirst] at hending
        obtain ⟨u, place', hbelow⟩ :=
          ih _ hrest _ hextends (List.mem_append_left _ hv) hending
        exact ⟨u, place', hbelow.andThen rfl hentries hlevels hfirst⟩
  case skip =>
    intro growth place rest context hskip ih hentries earlier hgrown hv hending
    obtain ⟨u, place', h⟩ := ih (inPlace_cons.mp hentries).2.2 earlier hgrown hv hending
    obtain ⟨entry, hentry, htail⟩ := h.path
    refine ⟨u, place', h.mem, h.breaks, ⟨entry, List.mem_cons_of_mem _ hentry, htail⟩, ?_⟩
    refine List.forall_mem_cons.mpr ⟨fun happlies => ?_, h.child⟩
    exact absurd happlies (Bool.not_eq_true _ ▸ hskip)

theorem exists_breaks_ofNode {v : Visit σ ι} {earlier : List (Visit σ ι)} {failure : Failure}
    (hlevels : v.depth + levels = depth) (hv : g.Grown start (earlier ++ [v]) v.context)
    (hending : (ofNode g.effective levels v).ending = .error failure) :
    ∃ u ∈ (ofNode g.effective levels v).visits, ∃ place,
      (ofNode g.effective levels v).Breaks g start depth earlier u place failure := by
  induction levels generalizing v earlier failure with
  | zero => exact nomatch hending
  | succ levels ih =>
      obtain ⟨u, place, h⟩ := exists_breaksBelow hlevels (fun _ _ _ hlevels => ih hlevels)
        (inPlace_zipIdx g) hv (by simp) hending
      obtain ⟨entry, hentry, tail, hmissing⟩ := h.path
      refine ⟨u, h.mem, place, h.breaks.depth_lt, ?_, ?_⟩
      · have hfails := h.breaks.fails
        rwa [List.append_assoc] at hfails
      · refine ⟨List.forall_mem_cons.mpr ⟨hmissing ▸ path_lt_append, h.breaks.filled.precedes⟩,
          fun w hw hdepth place' growth hgrowth happlies hlt => ?_⟩
        rcases List.mem_cons.mp hw with rfl | hw
        · obtain ⟨child, hchild, hpath⟩ := h.child (growth, place')
            (List.mem_zipIdx_iff_getElem?.mpr hgrowth) happlies hlt
          exact ⟨child, List.mem_cons_of_mem _ hchild, hpath⟩
        · obtain ⟨child, hchild, hpath⟩ :=
            h.breaks.filled.child w hw hdepth place' growth hgrowth happlies hlt
          exact ⟨child, List.mem_cons_of_mem _ hchild, hpath⟩

end Course

namespace Generator

variable {g : Generator σ ι} {start : Context σ} {levels : Nat}

/-! ### Walks and their failures -/

/-- A growth that stops a course leaves it cut short at the child that it did not make. -/
theorem exists_cutShort {x : ι} {context : Context σ} (hroot : g.root.run start = (.ok x, context))
    {failure : Failure} (hending : (g.course levels start).ending = .error failure) :
    ∃ u place, g.CutShort start (levels + 1) (g.course levels start).visits u place failure
      (g.course levels start).context := by
  rw [course_of_root hroot] at hending ⊢
  have hdepth : (Visit.mk [] x context).depth + levels = levels + 1 := Nat.add_comm 1 levels
  have hfirst : g.Grown start ([] ++ [⟨[], x, context⟩]) context := .root hroot
  obtain ⟨u, hu, place, hbreaks⟩ := Course.exists_breaks_ofNode hdepth hfirst hending
  obtain ⟨-, before, -, -, -, hgrown, -⟩ := hbreaks.fails
  have hordered := Course.ordered_ofNode g.effective levels ⟨[], x, context⟩
  refine ⟨u, place, hu, hbreaks.depth_lt, hbreaks.fails, hbreaks.filled.precedes,
    fun v hv place' => ⟨?_, ?_⟩, hordered⟩
  · rintro ⟨w, hw, hpath⟩
    obtain ⟨growth, hgrowth, happlies, -⟩ := hgrown.takes_of_path hordered hv hw hpath
    exact ⟨hdepth ▸ Course.depth_lt_of_child_mem_ofNode hw hpath,
      hpath ▸ hbreaks.filled.precedes w hw, growth, hgrowth, happlies⟩
  · rintro ⟨hlt, hprecedes, growth, hgrowth, happlies⟩
    exact hbreaks.filled.child v hv hlt place' growth hgrowth happlies hprecedes

theorem split_at {visits : List (Visit σ ι)} {i : Nat} {v : Visit σ ι}
    (hv : visits[i]? = some v) :
    visits = visits.take i ++ v :: visits.drop (i + 1)
      ∧ visits.take (i + 1) = visits.take i ++ [v] := by
  obtain ⟨hlt, rfl⟩ := List.getElem?_eq_some_iff.mp hv
  constructor
  · rw [← List.drop_eq_getElem_cons hlt, List.take_append_drop]
  · rw [List.take_add_one, hv]
    rfl

/-- A visit of a walk is made in the context that it and the visits before it have left. -/
theorem grown_take_of_course {i : Nat} {v : Visit σ ι}
    (hv : (g.course levels start).visits[i]? = some v) :
    g.Grown start ((g.course levels start).visits.take (i + 1)) v.context := by
  rcases hroot : g.root.run start with ⟨cause | x, context⟩
  · rw [course_of_root_error hroot] at hv
    cases hv
  · obtain ⟨finish, hgrown⟩ := (extends_course levels hroot).exists_grown
    rw [(split_at hv).2]
    exact hgrown.upTo (split_at hv).1

/-- **A walk stops at its first failure.** There are visits that every walk makes whose visits do
not fail, and a way in which all these walks end. If instead the visit at some position fails, the
walk has visited the nodes up to there, it leaves the context of that visit, which nothing but the
growing of these nodes has changed, and it returns the failure. If a growth ends the walks, they
have visited what precedes the missing child and return its failure with the name of the growth. A
walk to depth zero visits nothing. -/
theorem walk_stops_at_first_failure (g : Generator σ ι) (start : Context σ) :
    (∀ depth, 1 ≤ depth → ∃ visits ending finish,
      (∀ {κ : Type} (visit : ι → Attempt κ Unit) (k k' : κ),
        ((visits.map Visit.node).forM visit).run k = (.ok (), k') →
        (g.walk (noted visit) depth).run (start, [], k) =
          (ending, finish, visits.map Visit.node, k'))
      ∧ (∀ {κ : Type} (visit : ι → Attempt κ Unit) (k k₁ k' : κ) (i : Nat) (v : Visit σ ι)
          (failure : Failure), visits[i]? = some v →
        (((visits.take i).map Visit.node).forM visit).run k = (.ok (), k₁) →
        (visit v.node).run k₁ = (.error failure, k') →
        (g.walk (noted visit) depth).run (start, [], k) =
            (.error failure, v.context, (visits.take (i + 1)).map Visit.node, k')
          ∧ g.Grown start (visits.take (i + 1)) v.context)
      ∧ (ending = .ok () → g.DepthFirst start depth finish visits)
      ∧ ∀ failure, ending = .error failure →
        (visits = [] ∧ ∃ cause, g.root.run start = (.error cause, finish)
          ∧ failure = cause.during "while building the root instance")
        ∨ ∃ u place, g.CutShort start depth visits u place failure finish)
      ∧ (∀ {κ : Type} (visit : ι → Attempt κ Unit) (k : κ),
        (g.walk (noted visit) 0).run (start, [], k) =
          (.error (.of DepthZero.depthZero), start, [], k))
      ∧ (Failure.of DepthZero.depthZero).kind = .invalidArgument := by
  refine ⟨fun depth hdepth => ?_, fun _ _ => rfl, rfl⟩
  obtain ⟨levels, rfl⟩ := Nat.exists_eq_add_of_le' hdepth
  refine ⟨(g.course levels start).visits, (g.course levels start).ending,
    (g.course levels start).context, fun visit k k' hvisits => ?_,
    fun visit k k₁ k' i v failure hv hearlier hvisit => ⟨?_, grown_take_of_course hv⟩,
    depthFirst_course, fun failure hending => ?_⟩
  · rw [run_walk, Course.replay_of_visits_ok (run_forM_noted hvisits [])]
    rfl
  · obtain ⟨hsplit, htake⟩ := split_at hv
    have hnoted := run_noted visit v.node
      (((g.course levels start).visits.take i).map Visit.node) k₁
    rw [hvisit] at hnoted
    rw [run_walk, Course.replay_of_visit_error hsplit (run_forM_noted hearlier []) hnoted, htake,
      List.map_append]
    rfl
  · rcases hroot : g.root.run start with ⟨cause | x, context⟩
    · rw [course_of_root_error hroot] at hending ⊢
      exact .inl ⟨rfl, cause, rfl, (Except.error.inj hending).symm⟩
    · exact .inr (exists_cutShort hroot hending)

def refusal : Failure := ⟨.other, "refused", []⟩

/-- A visit that counts the calls and fails at one of them. -/
def refuseAt (call : Nat) (_ : ι) : Attempt Nat Unit :=
  ExceptT.mk fun calls => (if calls = call then .error refusal else .ok (), calls + 1)

/-- The words over zero and one, of which one word cannot be continued with a one. -/
def wordsUnless (stuck : List Nat) : Generator Unit (List Nat) where
  root := pure []
  growths :=
    [{ name := "zero", applies := fun _ => true, grow := fun word => pure (word ++ [0]) },
     { name := "one", applies := fun _ => true
       grow := fun word => if word = stuck then throw refusal else pure (word ++ [1]) }]

theorem walk_wordsUnless_stops :
    (∃ context, ((wordsUnless [0]).walk (noted (refuseAt 1)) 3).run (.fresh (), [], 0) =
        (.error refusal, context, [[], [0]], 2))
      ∧ (∃ visits u place finish,
        (wordsUnless [0]).CutShort (.fresh ()) 3 visits u place
            (refusal.during "while applying translator one") finish
          ∧ visits.map Visit.node = [[], [0], [0, 0]])
      ∧ ((wordsUnless [0]).walk (noted (refuseAt 1)) 0).run (.fresh (), [], 0) =
        (.error (.of DepthZero.depthZero), .fresh (), [], 0) := by
  obtain ⟨hwalk, hzero, -⟩ := walk_stops_at_first_failure (wordsUnless [0]) (.fresh ())
  obtain ⟨visits, ending, finish, hfull, hrefused, -, hcut⟩ := hwalk 3 (by decide)
  obtain ⟨_, hvisits⟩ := Attempt.exists_run_forM (f := fun _ => (pure () : Attempt Unit Unit))
    (fun _ before => ⟨before, rfl⟩) (visits.map Visit.node) ()
  obtain ⟨hending, hwalked⟩ := Prod.mk.inj (hfull _ _ _ hvisits).symm
  have hnodes : visits.map Visit.node = [[], [0], [0, 0]] :=
    (Prod.mk.inj (Prod.mk.inj hwalked).2).1
  refine ⟨?_, ?_, hzero _ _⟩
  · have htake : ∀ n, (visits.take n).map Visit.node = [[], [0], [0, 0]].take n := fun n => by
      rw [List.map_take, hnodes]
    have hlength : 1 < visits.length := by
      have hlength := congrArg List.length hnodes
      rw [List.length_map] at hlength
      exact hlength ▸ (by decide)
    have hrun := hrefused (refuseAt 1) 0 1 2 1 visits[1] refusal (List.getElem?_eq_getElem hlength)
      (by rw [htake]; rfl) rfl
    exact ⟨_, hrun.1.trans (by rw [htake]; rfl)⟩
  · rcases hcut _ hending with ⟨rfl, -⟩ | ⟨u, place, hcut⟩
    · cases hnodes
    · exact ⟨visits, u, place, _, hcut, hnodes⟩

end Generator

end SolverAudit
