import Mathlib.Algebra.Ring.GeomSum
import Mathlib.Data.List.Nodup
import SolverAudit.Proofs.Tree.Course

/-!
# Depth-first order

The visits of a walk are told apart by their paths, the places of the growths that lead from the
root to the node. A path comes before the paths that continue it, and these come before the paths of
the siblings to its right, so the order of the visits is the lexicographic order of the paths.
-/

namespace SolverAudit

variable {σ ι κ : Type}

/-- Whether the growth succeeds, and what it makes of an instance, is the same in all contexts. -/
def Growth.IgnoresContext (growth : Growth σ ι) : Prop :=
  ∀ x before before', ((growth.grow x).run before).1 = ((growth.grow x).run before').1

namespace Generator

section

variable (g : Generator σ ι) (start : Context σ)

/-- A sequence of visits and the context that it leaves. The first one is to the root. Each later
one is to what an effective growth makes of a node visited before, to which it applies, in the
context that the visits so far have left. -/
inductive Grown : List (Visit σ ι) → Context σ → Prop where
  | root {x : ι} {context : Context σ} (hroot : g.root.run start = (.ok x, context)) :
      Grown [⟨[], x, context⟩] context
  | grow {visits : List (Visit σ ι)} {before after : Context σ} {u : Visit σ ι} {place : Nat}
      {growth : Growth σ ι} {y : ι} (hgrown : Grown visits before) (hu : u ∈ visits)
      (hgrowth : g.effective[place]? = some growth) (happlies : growth.applies u.node = true)
      (hgrow : (growth.grow u.node).run before = (.ok y, after)) :
      Grown (visits ++ [⟨u.path ++ [place], y, after⟩]) after

/-- The visits of a depth-first walk of the tree down to a depth. -/
structure DepthFirst (depth : Nat) (finish : Context σ) (visits : List (Visit σ ι)) : Prop where
  grown : g.Grown start visits finish
  /-- A node above the last depth has one child for each effective growth that applies to it. -/
  child_iff : ∀ v ∈ visits, ∀ place,
    (∃ w ∈ visits, w.path = v.path ++ [place]) ↔
      v.depth < depth ∧ ∃ growth, g.effective[place]? = some growth ∧ growth.applies v.node = true
  ordered : visits.Pairwise fun v w => v.path < w.path

/-- What may stop a walk that has made some visits: the root or a visit fails, or a growth that
applies to a node visited before does. -/
inductive Stopped (visit : ι → Attempt κ Unit) (k : κ) : Failure → Context σ → κ → Prop where
  | root {cause : Failure} {context : Context σ}
      (hroot : g.root.run start = (.error cause, context)) :
      Stopped visit k (cause.during "while building the root instance") context k
  | visit {earlier : List (Visit σ ι)} {v : Visit σ ι} {failure : Failure} {k₁ k' : κ}
      (hgrown : g.Grown start (earlier ++ [v]) v.context)
      (hearlier : ((earlier.map Visit.node).forM visit).run k = (.ok (), k₁))
      (hvisit : (visit v.node).run k₁ = (.error failure, k')) :
      Stopped visit k failure v.context k'
  | growth {visits : List (Visit σ ι)} {before after : Context σ} {u : Visit σ ι}
      {growth : Growth σ ι} {cause : Failure} {k' : κ} (hgrown : g.Grown start visits before)
      (hvisits : ((visits.map Visit.node).forM visit).run k = (.ok (), k'))
      (hu : u ∈ visits) (hgrowth : growth ∈ g.effective) (happlies : growth.applies u.node = true)
      (hgrow : (growth.grow u.node).run before = (.error cause, after)) :
      Stopped visit k (cause.during s!"while applying translator {growth.name}") after k'

/-- The instances that a path may lead to: every growth on it applies and takes one instance to the
next, in whatever context. -/
inductive Leads : List Nat → ι → Prop where
  | root {x : ι} {context : Context σ} (hroot : g.root.run start = (.ok x, context)) : Leads [] x
  | step {path : List Nat} {x y : ι} {place : Nat} {growth : Growth σ ι} (hx : Leads path x)
      (hgrowth : g.effective[place]? = some growth) (happlies : growth.applies x = true)
      (htakes : growth.Takes x y) : Leads (path ++ [place]) y

end

variable {g : Generator σ ι} {start finish : Context σ} {visits : List (Visit σ ι)}

/-! ### Grown sequences -/

theorem Grown.root_or_child (hgrown : g.Grown start visits finish) {w : Visit σ ι}
    (hw : w ∈ visits) :
    (w.path = [] ∧ g.root.run start = (.ok w.node, w.context))
      ∨ ∃ u ∈ visits, ∃ place growth, w.path = u.path ++ [place]
          ∧ g.effective[place]? = some growth ∧ growth.applies u.node = true
          ∧ growth.Takes u.node w.node := by
  induction hgrown with
  | root hroot =>
      rw [List.mem_singleton.mp hw]
      exact .inl ⟨rfl, hroot⟩
  | grow _ hu hgrowth happlies hgrow ih =>
      rcases List.mem_append.mp hw with hw | hw
      · rcases ih hw with hroot | ⟨u', hu', hchild⟩
        · exact .inl hroot
        · exact .inr ⟨u', List.mem_append_left _ hu', hchild⟩
      · rw [List.mem_singleton.mp hw]
        exact .inr ⟨_, List.mem_append_left _ hu, _, _, rfl, hgrowth, happlies, _, _, hgrow⟩

/-- Whatever holds of a visit to the root, and of a visit to a child of a node of which it holds,
holds of all visits. -/
theorem Grown.induction {prop : Visit σ ι → Prop} (hgrown : g.Grown start visits finish)
    (hroot : ∀ v ∈ visits, v.path = [] → g.root.run start = (.ok v.node, v.context) → prop v)
    (hchild : ∀ u ∈ visits, prop u → ∀ v ∈ visits, ∀ place growth, v.path = u.path ++ [place] →
      g.effective[place]? = some growth → growth.applies u.node = true →
      growth.Takes u.node v.node → prop v) :
    ∀ v ∈ visits, prop v := by
  intro v hv
  induction hlength : v.path.length using Nat.strongRecOn generalizing v with
  | ind length ih =>
      rcases hgrown.root_or_child hv with
        ⟨hpath, hrun⟩ | ⟨u, hu, place, growth, hpath, hgrowth, happlies, htakes⟩
      · exact hroot v hv hpath hrun
      · have hshorter : u.path.length < length := by
          rw [← hlength, hpath, List.length_append]
          exact Nat.lt_succ_self _
        exact hchild u hu (ih _ hshorter u hu rfl) v hv place growth hpath hgrowth happlies htakes

theorem Grown.exists_root (hgrown : g.Grown start visits finish) :
    ∃ v ∈ visits, v.path = [] ∧ g.root.run start = (.ok v.node, v.context) := by
  induction hgrown with
  | root hroot => exact ⟨_, List.mem_singleton_self _, rfl, hroot⟩
  | grow _ _ _ _ _ ih =>
      obtain ⟨v, hv, hroot⟩ := ih
      exact ⟨v, List.mem_append_left _ hv, hroot⟩

/-- What comes before a visit in a grown sequence leads up to the context of that visit. -/
theorem Grown.upTo (hgrown : g.Grown start visits finish) {earlier later : List (Visit σ ι)}
    {v : Visit σ ι} (hsplit : visits = earlier ++ v :: later) :
    g.Grown start (earlier ++ [v]) v.context := by
  induction hgrown generalizing later with
  | root hroot =>
      obtain ⟨rfl, rfl, rfl⟩ : earlier = [] ∧ v = _ ∧ later = [] := by
        simpa [List.cons_eq_append_iff] using hsplit
      exact .root hroot
  | grow hgrown hu hgrowth happlies hgrow ih =>
      rcases List.eq_nil_or_concat later with rfl | ⟨later, last, rfl⟩
      · obtain ⟨rfl, hlast⟩ := List.append_inj' hsplit rfl
        obtain rfl := List.singleton_inj.mp hlast
        exact .grow hgrown hu hgrowth happlies hgrow
      · rw [List.concat_eq_append, ← List.cons_append, ← List.append_assoc] at hsplit
        exact ih (List.append_inj' hsplit rfl).1

/-- How a sequence of visits ends: it is complete, or a growth of a node visited before fails. -/
def Ends (g : Generator σ ι) (start : Context σ) (visits : List (Visit σ ι)) :
    Except Failure Unit → Context σ → Prop
  | .ok (), finish => g.Grown start visits finish
  | .error failure, finish => ∃ before u growth cause, g.Grown start visits before
      ∧ u ∈ visits ∧ growth ∈ g.effective ∧ growth.applies u.node = true
      ∧ (growth.grow u.node).run before = (.error cause, finish)
      ∧ failure = cause.during s!"while applying translator {growth.name}"

theorem Ends.exists_grown {ending : Except Failure Unit}
    (hends : g.Ends start visits ending finish) : ∃ context, g.Grown start visits context := by
  rcases ending with failure | _
  · obtain ⟨before, _, _, _, hgrown, _⟩ := hends
    exact ⟨before, hgrown⟩
  · exact ⟨finish, hends⟩

end Generator

namespace Course

/-! ### A course grows node by node -/

/-- Earlier visits and those of a course are a sequence that ends as the course does. -/
def Extends (g : Generator σ ι) (start : Context σ) (earlier : List (Visit σ ι))
    (course : Course σ ι) : Prop :=
  g.Ends start (earlier ++ course.visits) course.ending course.context

section

variable {g : Generator σ ι} {start : Context σ}

theorem Extends.andThen {earlier : List (Visit σ ι)} {first : Course σ ι}
    {rest : Context σ → Course σ ι} (hfirst : first.Extends g start earlier)
    (hrest : g.Grown start (earlier ++ first.visits) first.context →
      (rest first.context).Extends g start (earlier ++ first.visits)) :
    (first.andThen rest).Extends g start earlier := by
  cases hending : first.ending with
  | error failure =>
      rw [andThen_of_error hending]
      exact hfirst
  | ok _ =>
      rw [Extends, hending] at hfirst
      have hboth := hrest hfirst
      rw [Extends, List.append_assoc] at hboth
      rw [andThen_of_ok hending]
      exact hboth

theorem extends_below {descend : Visit σ ι → Course σ ι}
    (hdescend : ∀ earlier v, g.Grown start (earlier ++ [v]) v.context →
      (descend v).Extends g start earlier)
    {v : Visit σ ι} {growths : List (Growth σ ι × Nat)} {context : Context σ}
    (hgrowths : ∀ entry ∈ growths, g.effective[entry.2]? = some entry.1)
    {earlier : List (Visit σ ι)} (hgrown : g.Grown start earlier context) (hv : v ∈ earlier) :
    (below descend v growths context).Extends g start earlier := by
  refine below_induction (motive := fun growths context course =>
    (∀ entry ∈ growths, g.effective[entry.2]? = some entry.1) →
    ∀ earlier, g.Grown start earlier context → v ∈ earlier → course.Extends g start earlier)
    ?nil ?stop ?grow ?skip growths context hgrowths earlier hgrown hv
  case nil =>
    intro context _ earlier hgrown _
    rw [Extends, finished, List.append_nil]
    exact hgrown
  case stop =>
    intro growth place rest before cause after happlies hgrow hgrowths earlier hgrown hv
    rw [Extends, stopped, List.append_nil]
    have hgrowth := List.mem_of_getElem? (hgrowths _ List.mem_cons_self)
    exact ⟨before, v, growth, cause, hgrown, hv, hgrowth, happlies, hgrow, rfl⟩
  case grow =>
    intro growth place rest before child after happlies hgrow ih hgrowths earlier hgrown hv
    obtain ⟨hgrowth, hrest⟩ := List.forall_mem_cons.mp hgrowths
    refine (hdescend earlier _ (hgrown.grow hv hgrowth happlies hgrow)).andThen fun hchild => ?_
    exact ih _ hrest _ hchild (List.mem_append_left _ hv)
  case skip =>
    intro growth place rest context _ ih hgrowths
    exact ih (List.forall_mem_cons.mp hgrowths).2

theorem extends_ofNode {levels : Nat} {earlier : List (Visit σ ι)} {v : Visit σ ι}
    (hv : g.Grown start (earlier ++ [v]) v.context) :
    (ofNode g.effective levels v).Extends g start earlier := by
  induction levels generalizing earlier v with
  | zero => exact hv
  | succ levels ih =>
      have hbelow : (below (ofNode g.effective levels) v g.effective.zipIdx v.context).Extends
          g start (earlier ++ [v]) :=
        extends_below (fun _ _ hv => ih hv)
          (fun _ hentry => List.mem_zipIdx_iff_getElem?.mp hentry) hv (by simp)
      rw [Extends, List.append_assoc] at hbelow
      exact hbelow

end

/-! ### Paths -/

variable {growths : List (Growth σ ι)} {levels : Nat}

theorem path_of_mem_below {descend : Visit σ ι → Course σ ι}
    (hdescend : ∀ u, ∀ w ∈ (descend u).visits,
      ∃ tail, w.path = u.path ++ tail ∧ tail.length ≤ levels)
    {v w : Visit σ ι} {growths : List (Growth σ ι × Nat)} {context : Context σ}
    (hw : w ∈ (below descend v growths context).visits) :
    ∃ entry ∈ growths, ∃ tail, w.path = v.path ++ entry.2 :: tail ∧ tail.length ≤ levels := by
  refine below_induction (motive := fun growths _ course => w ∈ course.visits →
    ∃ entry ∈ growths, ∃ tail, w.path = v.path ++ entry.2 :: tail ∧ tail.length ≤ levels)
    ?nil ?stop ?grow ?skip growths context hw
  case nil => exact fun _ hw => absurd hw List.not_mem_nil
  case stop => exact fun _ _ _ _ _ _ _ _ hw => absurd hw List.not_mem_nil
  case grow =>
    intro growth place rest before child after _ _ ih hw
    rcases mem_visits_andThen hw with hw | hw
    · obtain ⟨tail, hpath, hlength⟩ := hdescend _ w hw
      refine ⟨_, List.mem_cons_self, tail, ?_, hlength⟩
      rw [hpath, List.append_assoc, List.singleton_append]
    · obtain ⟨entry, hentry, htail⟩ := ih _ hw
      exact ⟨entry, List.mem_cons_of_mem _ hentry, htail⟩
  case skip =>
    intro growth place rest context _ ih hw
    obtain ⟨entry, hentry, htail⟩ := ih hw
    exact ⟨entry, List.mem_cons_of_mem _ hentry, htail⟩

/-- The visits of a subtree go through its root, and not deeper than its levels. -/
theorem path_of_mem_ofNode {v w : Visit σ ι} (hw : w ∈ (ofNode growths levels v).visits) :
    ∃ tail, w.path = v.path ++ tail ∧ tail.length ≤ levels := by
  induction levels generalizing v w with
  | zero =>
      rw [List.mem_singleton.mp hw]
      exact ⟨[], (List.append_nil _).symm, Nat.le_refl 0⟩
  | succ levels ih =>
      rcases List.mem_cons.mp hw with rfl | hw
      · exact ⟨[], (List.append_nil _).symm, Nat.zero_le _⟩
      · obtain ⟨entry, -, tail, hpath, hlength⟩ := path_of_mem_below (fun _ _ => ih) hw
        exact ⟨entry.2 :: tail, hpath, Nat.succ_le_succ hlength⟩

/-- A node with a child in the subtree is not at the last level. -/
theorem depth_lt_of_child_mem_ofNode {u v w : Visit σ ι} (hw : w ∈ (ofNode growths levels v).visits)
    {place : Nat} (hpath : w.path = u.path ++ [place]) : u.depth < v.depth + levels := by
  obtain ⟨tail, htail, hlength⟩ := path_of_mem_ofNode hw
  have hdeeper := congrArg List.length (hpath.symm.trans htail)
  rw [List.length_append, List.length_append, List.length_singleton] at hdeeper
  rw [Visit.depth, Visit.depth]
  omega

theorem path_lt_of_place_lt {path tail tail' : List Nat} {place place' : Nat}
    (hplace : place < place') : path ++ place :: tail < path ++ place' :: tail' :=
  List.append_left_lt (List.cons_lt_cons_iff.mpr (.inl hplace))

theorem path_lt_append {path tail : List Nat} {place : Nat} : path < path ++ place :: tail := by
  conv_lhs => rw [← List.append_nil path]
  exact List.append_left_lt (List.nil_lt_cons place tail)

def Ordered (course : Course σ ι) : Prop :=
  course.visits.Pairwise fun v w => v.path < w.path

theorem Ordered.andThen {first : Course σ ι} {rest : Context σ → Course σ ι}
    (hfirst : first.Ordered) (hrest : (rest first.context).Ordered)
    (hcross : ∀ v ∈ first.visits, ∀ w ∈ (rest first.context).visits, v.path < w.path) :
    (first.andThen rest).Ordered := by
  cases hending : first.ending with
  | error failure =>
      rw [andThen_of_error hending]
      exact hfirst
  | ok _ =>
      rw [andThen_of_ok hending]
      exact List.pairwise_append.mpr ⟨hfirst, hrest, hcross⟩

theorem ordered_below {v : Visit σ ι} {entries : List (Growth σ ι × Nat)} {context : Context σ}
    (hdescend : ∀ u, (ofNode growths levels u).Ordered)
    (hentries : entries.Pairwise fun a b => a.2 < b.2) :
    (below (ofNode growths levels) v entries context).Ordered := by
  refine below_induction (motive := fun entries _ course =>
    (entries.Pairwise fun a b => a.2 < b.2) → course.Ordered)
    ?nil ?stop ?grow ?skip entries context hentries
  case nil => exact fun _ _ => .nil
  case stop => exact fun _ _ _ _ _ _ _ _ _ => .nil
  case grow =>
    intro growth place rest before child after _ _ ih hentries
    obtain ⟨hplace, hrest⟩ := List.pairwise_cons.mp hentries
    refine (hdescend _).andThen (ih _ hrest) fun u hu w hw => ?_
    obtain ⟨tail, hu, -⟩ := path_of_mem_ofNode hu
    obtain ⟨entry, hentry, tail', hw, -⟩ := path_of_mem_below (fun _ _ => path_of_mem_ofNode) hw
    rw [hu, hw, List.append_assoc, List.singleton_append]
    exact path_lt_of_place_lt (hplace entry hentry)
  case skip =>
    intro growth place rest context _ ih hentries
    exact ih (List.pairwise_cons.mp hentries).2

theorem pairwise_zipIdx (growths : List (Growth σ ι)) :
    growths.zipIdx.Pairwise fun a b => a.2 < b.2 := by
  rw [← List.pairwise_map (R := (· < ·)), List.zipIdx_map_snd]
  exact List.pairwise_lt_range' 1

theorem ordered_ofNode (growths : List (Growth σ ι)) (levels : Nat) (v : Visit σ ι) :
    (ofNode growths levels v).Ordered := by
  induction levels generalizing v with
  | zero => exact List.pairwise_singleton _ _
  | succ levels ih =>
      refine List.pairwise_cons.mpr ⟨fun w hw => ?_, ordered_below ih (pairwise_zipIdx growths)⟩
      obtain ⟨entry, -, tail, hpath, -⟩ := path_of_mem_below (fun _ _ => path_of_mem_ofNode) hw
      rw [hpath]
      exact path_lt_append

/-! ### Children -/

/-- No growth that applies is left out below a node when none fails. -/
theorem exists_child_of_mem_below {descend : Visit σ ι → Course σ ι}
    (hroot : ∀ u, u ∈ (descend u).visits) {v : Visit σ ι} {entries : List (Growth σ ι × Nat)}
    {context : Context σ} (hending : (below descend v entries context).ending = .ok ())
    {growth : Growth σ ι} {place : Nat} (hentry : (growth, place) ∈ entries)
    (happlies : growth.applies v.node = true) :
    ∃ u ∈ (below descend v entries context).visits, u.path = v.path ++ [place] := by
  refine below_induction (motive := fun entries _ course => course.ending = .ok () →
    (growth, place) ∈ entries → ∃ u ∈ course.visits, u.path = v.path ++ [place])
    ?nil ?stop ?grow ?skip entries context hending hentry
  case nil => exact fun _ _ hentry => absurd hentry List.not_mem_nil
  case stop => exact fun _ _ _ _ _ _ _ _ hending => nomatch hending
  case grow =>
    intro growth' place' rest before child after _ _ ih hending hentry
    obtain ⟨hfirst, hrest⟩ := ending_andThen_eq_ok.mp hending
    rcases List.mem_cons.mp hentry with hhead | hentry
    · obtain ⟨rfl, rfl⟩ := Prod.mk.injEq .. ▸ hhead
      exact ⟨_, mem_visits_andThen_left (hroot _), rfl⟩
    · obtain ⟨u, hu, hpath⟩ := ih _ hrest hentry
      exact ⟨u, mem_visits_andThen_right hfirst hu, hpath⟩
  case skip =>
    intro growth' place' rest context hskip ih hending hentry
    rcases List.mem_cons.mp hentry with hhead | hentry
    · obtain ⟨rfl, rfl⟩ := Prod.mk.injEq .. ▸ hhead
      exact absurd happlies (Bool.not_eq_true _ ▸ hskip)
    · exact ih hending hentry

/-- A visit below a node belongs to the subtree of one of the children, which is whole. -/
theorem exists_subtree_of_mem_below {descend : Visit σ ι → Course σ ι} {v w : Visit σ ι}
    {entries : List (Growth σ ι × Nat)} {context : Context σ}
    (hending : (below descend v entries context).ending = .ok ())
    (hw : w ∈ (below descend v entries context).visits) :
    ∃ child : Visit σ ι, child.path.length = v.path.length + 1 ∧ w ∈ (descend child).visits
      ∧ (descend child).ending = .ok ()
      ∧ ∀ u ∈ (descend child).visits, u ∈ (below descend v entries context).visits := by
  refine below_induction (motive := fun entries _ course => course.ending = .ok () →
    w ∈ course.visits → ∃ child : Visit σ ι, child.path.length = v.path.length + 1
      ∧ w ∈ (descend child).visits ∧ (descend child).ending = .ok ()
      ∧ ∀ u ∈ (descend child).visits, u ∈ course.visits)
    ?nil ?stop ?grow ?skip entries context hending hw
  case nil => exact fun _ _ hw => absurd hw List.not_mem_nil
  case stop => exact fun _ _ _ _ _ _ _ _ hending => nomatch hending
  case grow =>
    intro growth place rest before child after _ _ ih hending hw
    obtain ⟨hfirst, hrest⟩ := ending_andThen_eq_ok.mp hending
    rcases mem_visits_andThen hw with hw | hw
    · refine ⟨_, ?_, hw, hfirst, fun u hu => mem_visits_andThen_left hu⟩
      simp
    · obtain ⟨u, hlength, hw, hu, hsub⟩ := ih _ hrest hw
      exact ⟨u, hlength, hw, hu, fun x hx => mem_visits_andThen_right hfirst (hsub x hx)⟩
  case skip => exact fun _ _ _ _ _ ih => ih

theorem mem_visits_ofNode (growths : List (Growth σ ι)) (levels : Nat) (v : Visit σ ι) :
    v ∈ (ofNode growths levels v).visits := by
  cases levels <;> exact List.mem_cons_self

theorem exists_child_of_mem_ofNode {v w : Visit σ ι}
    (hending : (ofNode growths levels v).ending = .ok ())
    (hw : w ∈ (ofNode growths levels v).visits) (hlength : w.path.length < v.path.length + levels)
    {growth : Growth σ ι} {place : Nat} (hgrowth : growths[place]? = some growth)
    (happlies : growth.applies w.node = true) :
    ∃ u ∈ (ofNode growths levels v).visits, u.path = w.path ++ [place] := by
  induction levels generalizing v with
  | zero =>
      rw [List.mem_singleton.mp hw] at hlength
      exact absurd hlength (Nat.lt_irrefl _)
  | succ levels ih =>
      change (below (ofNode growths levels) v growths.zipIdx v.context).ending = _ at hending
      rcases List.mem_cons.mp hw with rfl | hw
      · have hentry : (growth, place) ∈ growths.zipIdx := List.mem_zipIdx_iff_getElem?.mpr hgrowth
        obtain ⟨u, hu, hpath⟩ :=
          exists_child_of_mem_below (mem_visits_ofNode growths levels) hending hentry happlies
        exact ⟨u, List.mem_cons_of_mem _ hu, hpath⟩
      · obtain ⟨child, hchild, hw, hending, hsub⟩ := exists_subtree_of_mem_below hending hw
        obtain ⟨u, hu, hpath⟩ := ih hending hw (by omega)
        exact ⟨u, List.mem_cons_of_mem _ (hsub u hu), hpath⟩

/-! ### The number of visits -/

theorem length_below {descend : Visit σ ι → Course σ ι} {size : Nat}
    (hdescend : ∀ u, (descend u).ending = .ok () → (descend u).visits.length = size)
    {v : Visit σ ι} {entries : List (Growth σ ι × Nat)} {context : Context σ}
    (hending : (below descend v entries context).ending = .ok ())
    (happlies : ∀ entry ∈ entries, entry.1.applies v.node = true) :
    (below descend v entries context).visits.length = entries.length * size := by
  refine below_induction (motive := fun entries _ course => course.ending = .ok () →
    (∀ entry ∈ entries, entry.1.applies v.node = true) →
    course.visits.length = entries.length * size)
    ?nil ?stop ?grow ?skip entries context hending happlies
  case nil => exact fun _ _ _ => (Nat.zero_mul _).symm
  case stop => exact fun _ _ _ _ _ _ _ _ hending => nomatch hending
  case grow =>
    intro growth place rest before child after _ _ ih hending happlies
    obtain ⟨hfirst, hrest⟩ := ending_andThen_eq_ok.mp hending
    rw [andThen_of_ok hfirst, List.length_append, hdescend _ hfirst,
      ih _ hrest (List.forall_mem_cons.mp happlies).2, List.length_cons, Nat.succ_mul, Nat.add_comm]
  case skip =>
    intro growth place rest context hskip _ _ happlies
    exact absurd (List.forall_mem_cons.mp happlies).1 (Bool.not_eq_true _ ▸ hskip)

theorem length_ofNode (happlies : ∀ growth ∈ growths, ∀ x, growth.applies x = true)
    {v : Visit σ ι} (hending : (ofNode growths levels v).ending = .ok ()) :
    (ofNode growths levels v).visits.length =
      ∑ i ∈ Finset.range (levels + 1), growths.length ^ i := by
  induction levels generalizing v with
  | zero => simp [ofNode, after, finished]
  | succ levels ih =>
      change (below (ofNode growths levels) v growths.zipIdx v.context).ending = _ at hending
      have hbelow := length_below (fun _ hu => ih hu) hending
        fun entry hentry => happlies _ (List.fst_mem_of_mem_zipIdx hentry) v.node
      rw [geom_sum_succ, ofNode, after, List.length_cons, hbelow, List.length_zipIdx]

end Course

namespace Generator

variable {g : Generator σ ι} {start finish : Context σ} {visits : List (Visit σ ι)} {levels : Nat}

/-! ### The walk of a generator -/

theorem course_of_root {x : ι} {context : Context σ} (hroot : g.root.run start = (.ok x, context)) :
    g.course levels start = Course.ofNode g.effective levels ⟨[], x, context⟩ := by
  rw [course, hroot]

theorem course_of_root_error {cause : Failure} {context : Context σ}
    (hroot : g.root.run start = (.error cause, context)) :
    g.course levels start =
      ⟨[], .error (cause.during "while building the root instance"), context⟩ := by
  rw [course, hroot]

theorem extends_course (levels : Nat) {x : ι} {context : Context σ}
    (hroot : g.root.run start = (.ok x, context)) :
    (g.course levels start).Extends g start [] := by
  rw [course_of_root hroot]
  exact Course.extends_ofNode (.root hroot)

theorem exists_root_of_course (hending : (g.course levels start).ending = .ok ()) :
    ∃ x context, g.root.run start = (.ok x, context) := by
  rcases hroot : g.root.run start with ⟨cause | x, context⟩
  · rw [course_of_root_error hroot] at hending
    cases hending
  · exact ⟨x, context, rfl⟩

theorem eq_of_path_eq (hordered : visits.Pairwise fun v w => v.path < w.path) {v w : Visit σ ι}
    (hv : v ∈ visits) (hw : w ∈ visits) (hpath : v.path = w.path) : v = w := by
  have hpaths : (visits.map Visit.path).Nodup :=
    List.pairwise_map.mpr (hordered.imp fun {a b} (hlt : a.path < b.path) heq => by
      rw [heq] at hlt
      exact List.lt_irrefl _ hlt)
  exact List.inj_on_of_nodup_map hpaths hv hw hpath

/-- A visit one step further than another one is to what the growth there made of its node. -/
theorem Grown.takes_of_path (hgrown : g.Grown start visits finish)
    (hordered : visits.Pairwise fun v w => v.path < w.path) {v w : Visit σ ι} (hv : v ∈ visits)
    (hw : w ∈ visits) {place : Nat} (hpath : w.path = v.path ++ [place]) :
    ∃ growth, g.effective[place]? = some growth ∧ growth.applies v.node = true
      ∧ growth.Takes v.node w.node := by
  rcases hgrown.root_or_child hw with ⟨hroot, -⟩ | ⟨u, hu, place', growth, hpath', hgrowth⟩
  · rw [hroot] at hpath
    exact absurd hpath.symm (by simp)
  · obtain ⟨hsame, hplace⟩ := List.append_inj' (hpath.symm.trans hpath') rfl
    obtain rfl := List.singleton_inj.mp hplace
    obtain rfl := eq_of_path_eq hordered hv hu hsame
    exact ⟨growth, hgrowth⟩

theorem depthFirst_course (hending : (g.course levels start).ending = .ok ()) :
    g.DepthFirst start (levels + 1) (g.course levels start).context
      (g.course levels start).visits := by
  obtain ⟨x, context, hroot⟩ := exists_root_of_course hending
  have hgrown : g.Grown start (g.course levels start).visits (g.course levels start).context := by
    have hextends := extends_course levels hroot
    rwa [Course.Extends, hending] at hextends
  rw [course_of_root hroot] at hending hgrown ⊢
  have hordered := Course.ordered_ofNode g.effective levels ⟨[], x, context⟩
  refine ⟨hgrown, fun v hv place => ⟨?_, ?_⟩, hordered⟩
  · rintro ⟨w, hw, hpath⟩
    obtain ⟨growth, hgrowth, happlies, -⟩ := hgrown.takes_of_path hordered hv hw hpath
    have hdepth := Course.depth_lt_of_child_mem_ofNode hw hpath
    exact ⟨Nat.add_comm 1 levels ▸ hdepth, growth, hgrowth, happlies⟩
  · rintro ⟨hdepth, growth, hgrowth, happlies⟩
    refine Course.exists_child_of_mem_ofNode hending hv ?_ hgrowth happlies
    rw [Visit.depth] at hdepth
    simpa using hdepth

/-! ### Depths and words -/

theorem DepthFirst.depth_le {depth : Nat} (h : g.DepthFirst start depth finish visits)
    (hdepth : 1 ≤ depth) {v : Visit σ ι} (hv : v ∈ visits) : v.depth ≤ depth := by
  rcases h.grown.root_or_child hv with ⟨hroot, -⟩ | ⟨u, hu, place, growth, hpath, -⟩
  · rw [Visit.depth, hroot]
    exact hdepth
  · have hparent := ((h.child_iff u hu place).mp ⟨v, hv, hpath⟩).1
    rw [Visit.depth, hpath, List.length_append]
    exact hparent

theorem Grown.leads (hgrown : g.Grown start visits finish) {w : Visit σ ι} (hw : w ∈ visits) :
    g.Leads start w.path w.node := by
  induction hgrown generalizing w with
  | root hroot =>
      rw [List.mem_singleton.mp hw]
      exact .root hroot
  | grow _ hu hgrowth happlies hgrow ih =>
      rcases List.mem_append.mp hw with hw | hw
      · exact ih hw
      · rw [List.mem_singleton.mp hw]
        exact (ih hu).step hgrowth happlies ⟨_, _, hgrow⟩

/-- Growths that ignore the context lead along each path to one instance at most. -/
theorem DepthFirst.exists_visit_iff_leads {depth : Nat}
    (h : g.DepthFirst start depth finish visits) (hdepth : 1 ≤ depth)
    (hignore : ∀ growth ∈ g.effective, growth.IgnoresContext) (path : List Nat) (x : ι) :
    (∃ v ∈ visits, v.path = path ∧ v.node = x) ↔ path.length < depth ∧ g.Leads start path x := by
  constructor
  · rintro ⟨v, hv, rfl, rfl⟩
    exact ⟨h.depth_le hdepth hv, h.grown.leads hv⟩
  · rintro ⟨hlength, hleads⟩
    induction hleads with
    | root hroot =>
        obtain ⟨v, hv, hpath, hroot'⟩ := h.grown.exists_root
        exact ⟨v, hv, hpath, Except.ok.inj (Prod.mk.inj (hroot'.symm.trans hroot)).1⟩
    | step _ hgrowth happlies htakes ih =>
        rw [List.length_append, List.length_singleton] at hlength
        obtain ⟨v, hv, rfl, rfl⟩ := ih (Nat.lt_of_succ_lt hlength)
        obtain ⟨w, hw, hpath⟩ := (h.child_iff v hv _).mpr ⟨hlength, _, hgrowth, happlies⟩
        obtain ⟨growth, hgrowth', -, before, after, hgrow⟩ :=
          h.grown.takes_of_path h.ordered hv hw hpath
        obtain rfl := Option.some.inj (hgrowth.symm.trans hgrowth')
        obtain ⟨before', after', hgrow'⟩ := htakes
        -- The walk grew the node in one context, the path in another one.
        have hsame := hignore _ (List.mem_of_getElem? hgrowth) v.node before before'
        rw [hgrow, hgrow'] at hsame
        exact ⟨w, hw, hpath, Except.ok.inj hsame⟩

theorem length_course (hending : (g.course levels start).ending = .ok ())
    (happlies : ∀ growth ∈ g.effective, ∀ x, growth.applies x = true) :
    (g.course levels start).visits.length =
      ∑ i ∈ Finset.range (levels + 1), g.effective.length ^ i := by
  obtain ⟨x, context, hroot⟩ := exists_root_of_course hending
  rw [course_of_root hroot] at hending ⊢
  exact Course.length_ofNode happlies hending

/-! ### Main statement -/

/-- What stops a walk is a failure of the root, of a visit or of a growth. -/
theorem stopped_of_run_walk {visit : ι → Attempt κ Unit} {k k' : κ} {failure : Failure}
    (hrun : (g.walk visit (levels + 1)).run (start, k) = (.error failure, finish, k')) :
    g.Stopped start visit k failure finish k' := by
  rw [run_walk] at hrun
  rcases hroot : g.root.run start with ⟨cause | x, context⟩
  · rw [course_of_root_error hroot] at hrun
    cases hrun
    exact .root hroot
  · have hextends := extends_course levels hroot
    rcases Course.replay_eq_error hrun with
      ⟨earlier, v, later, k₁, hsplit, hearlier, hv, rfl⟩ | ⟨hending, rfl, hvisits⟩
    · obtain ⟨context, hgrown⟩ := hextends.exists_grown
      exact .visit (hgrown.upTo hsplit) hearlier hv
    · rw [Course.Extends, hending] at hextends
      obtain ⟨before, u, growth, cause, hgrown, hu, hgrowth, happlies, hgrow, rfl⟩ := hextends
      exact .growth hgrown hvisits hu hgrowth happlies hgrow

/-- **A walk visits the tree depth first.** When nothing fails, the visits are made to the nodes of
a depth-first sequence, which is also the list of instances. With growths that ignore the context
these are the instances that the applicable words of less than the depth lead to, and growths that
always apply make as many as there are words. A walk that does not get through was stopped by the
root, by a visit or by a growth. -/
theorem walk_visits_depth_first (g : Generator σ ι) {depth : Nat} (hdepth : 1 ≤ depth)
    (start : Context σ) (visit : ι → Attempt κ Unit) (k : κ) :
    (∀ finish k', (g.walk visit depth).run (start, k) = (.ok (), finish, k') →
      ∃ visits, g.DepthFirst start depth finish visits
        ∧ ((visits.map Visit.node).forM visit).run k = (.ok (), k')
        ∧ g.instances depth start = (.ok (visits.map Visit.node), finish)
        ∧ ((∀ growth ∈ g.effective, growth.IgnoresContext) →
          ∀ path x, (∃ v ∈ visits, v.path = path ∧ v.node = x) ↔
            path.length < depth ∧ g.Leads start path x)
        ∧ ((∀ growth ∈ g.effective, ∀ x, growth.applies x = true) →
          visits.length = ∑ i ∈ Finset.range depth, g.effective.length ^ i))
      ∧ ∀ failure finish k', (g.walk visit depth).run (start, k) = (.error failure, finish, k') →
        g.Stopped start visit k failure finish k' := by
  obtain ⟨levels, rfl⟩ := Nat.exists_eq_add_of_le' hdepth
  refine ⟨fun finish k' hrun => ?_, fun failure finish k' hrun => stopped_of_run_walk hrun⟩
  rw [run_walk, Course.replay_eq_ok] at hrun
  obtain ⟨hending, rfl, hvisits⟩ := hrun
  have hfirst := depthFirst_course hending
  have hinstances := g.instances_eq levels start
  rw [hending] at hinstances
  exact ⟨_, hfirst, hvisits, hinstances,
    fun hignore => hfirst.exists_visit_iff_leads hdepth hignore, length_course hending⟩

/-- The words over the numbers below a bound, without any choice. -/
def words (bound : Nat) : Generator Unit (List Nat) where
  root := pure []
  growths := (List.range bound).map fun letter =>
    { name := s!"append {letter}", applies := fun _ => true
      grow := fun word => pure (word ++ [letter]) }

theorem walk_words_depth_first :
    ∃ visits, (words 2).DepthFirst (.fresh ()) 3 (.fresh ()) visits
      ∧ visits.map Visit.node = [[], [0], [0, 0], [0, 1], [1], [1, 0], [1, 1]]
      ∧ (∃ v ∈ visits, v.path = [1, 0] ∧ v.node = [1, 0])
      ∧ visits.length = 1 + 2 + 2 ^ 2 := by
  obtain ⟨hsuccess, -⟩ :=
    walk_visits_depth_first (words 2) (by decide : 1 ≤ 3) (.fresh ()) remember []
  obtain ⟨visits, hfirst, -, hinstances, hleads, hlength⟩ := hsuccess (.fresh ()) _ rfl
  have hnodes : visits.map Visit.node = [[], [0], [0, 0], [0, 1], [1], [1, 0], [1, 1]] :=
    (Except.ok.inj (Prod.mk.inj hinstances).1).symm
  have happend : ∀ growth ∈ (words 2).effective, growth.IgnoresContext ∧
      ∀ x, growth.applies x = true := by
    intro growth hgrowth
    obtain ⟨letter, -, rfl⟩ := List.mem_map.mp hgrowth
    exact ⟨fun _ _ _ => rfl, fun _ => rfl⟩
  refine ⟨visits, hfirst, hnodes, ?_, hlength fun growth hgrowth => (happend growth hgrowth).2⟩
  refine (hleads (fun growth hgrowth => (happend growth hgrowth).1) _ _).mpr ⟨by decide, ?_⟩
  have hroot : (words 2).Leads (.fresh ()) [] [] := .root rfl
  exact (hroot.step rfl rfl ⟨.fresh (), .fresh (), rfl⟩).step rfl rfl
    ⟨.fresh (), .fresh (), rfl⟩

end Generator

end SolverAudit
