import SolverAudit.Proofs.Argument.Shape

/-!
# One registry for all branches

The branches of a tree share the registry. It grows along the first branch, where every step adds an
argument, and every other branch only asks for labels that it holds by then. So after the walk it
has one argument for each level below the root, and each framework has the first ones of them.
-/

namespace SolverAudit

/-! ### Arguments of a numbered registry -/

namespace Registry

variable {r : Registry}

theorem Numbered.arguments_eq (h : r.Numbered) :
    r.arguments = (List.range r.size).map fun place => ⟨place, placeLabel place⟩ := by
  have hlength : r.labels.length = r.size := rfl
  refine List.ext_getElem (by simp [arguments, hlength]) fun place hleft hright => ?_
  simp [arguments, List.getElem_of_eq h]

end Registry

namespace Framework

variable {σ : Type} [Source σ] {selfAttacks : Bool} {source : σ} {depth : Nat}
  {start finish : Context σ} {visits : List (Visit σ Framework)}

theorem Numbered.arguments_eq_take {registry : Registry} {af : Framework}
    (h : Numbered registry af) : af.arguments = registry.arguments.take af.size := by
  rw [h.known.arguments_eq, ← List.map_take, List.take_range, Nat.min_eq_left h.size_le]
  exact h.arguments_eq

theorem Numbered.eq_of_argument? {registry : Registry} {af : Framework}
    (h : Numbered registry af) {place : Nat} {a : Argument} (ha : af.argument? place = some a) :
    a = ⟨place, placeLabel place⟩ := by
  obtain ⟨hplace, rfl⟩ := List.getElem?_eq_some_iff.mp ha
  simp [List.getElem_of_eq h.arguments_eq]

theorem Numbered.exists_eq_of_mem {registry : Registry} {af : Framework}
    (h : Numbered registry af) {a : Argument} (ha : a ∈ af.arguments) :
    ∃ place, a = ⟨place, placeLabel place⟩ := by
  obtain ⟨place, hplace⟩ := List.mem_iff_getElem?.mp ha
  exact ⟨place, h.eq_of_argument? hplace⟩

/-! ### How far the registry grows -/

theorem numbered_of_grown {visits : List (Visit σ Framework)}
    (h : (generator selfAttacks).Grown (.fresh source) visits finish) :
    ∀ v ∈ visits, Numbered finish.registry v.node :=
  (maintains_numbered selfAttacks source 0).of_grown h

/-- The registry has no more arguments than some framework that was visited. -/
theorem exists_size_eq_of_grown
    (h : (generator selfAttacks).Grown (.fresh source) visits finish) :
    ∃ v ∈ visits, v.node.size = finish.registry.size := by
  induction h with
  | root hroot =>
      cases hroot
      exact ⟨_, List.mem_singleton_self _, rfl⟩
  | @grow visits before after u place growth y hgrown hu hgrowth happlies hgrow ih =>
      obtain ⟨v, hv, hsize⟩ := ih
      have hnumbered := numbered_of_grown hgrown u hu
      have hmem := List.mem_of_getElem? hgrowth
      simp only [generator, List.mem_cons, List.not_mem_nil, or_false] at hmem
      rcases hmem with rfl | rfl
      · obtain ⟨hadd, rfl⟩ := run_newArgument_eq_ok.mp hgrow
        obtain ⟨-, -, hregistry⟩ := hnumbered.known.intern hnumbered.size_le
        obtain ⟨-, harguments, -⟩ := addArgument_eq_ok hadd
        have hlength : y.size = u.node.size + 1 := by simp [size, harguments]
        rcases Nat.le_total before.registry.size (u.node.size + 1) with hle | hle
        · refine ⟨_, List.mem_append_right _ (List.mem_singleton_self _), ?_⟩
          rw [hregistry, Nat.max_eq_right hle]
          exact hlength
        · refine ⟨v, List.mem_append_left _ hv, ?_⟩
          rw [hregistry, Nat.max_eq_left hle]
          exact hsize
      · obtain ⟨_, _, _, _, -, -, hrun, hregistry⟩ := exists_run_newAttack happlies before
        rw [hgrow] at hrun
        cases hrun
        exact ⟨v, List.mem_append_left _ hv, hregistry ▸ hsize⟩

/-- On the first branch every step adds an argument. -/
theorem exists_size_eq_of_lt (h : (generator selfAttacks).DepthFirst start depth finish visits)
    {size : Nat} (hsize : size < depth) :
    ∃ v ∈ visits, v.path = List.replicate size 0 ∧ v.node.size = size := by
  induction size with
  | zero =>
      obtain ⟨v, hv, hpath, hrun⟩ := h.grown.exists_root
      have hnode : ∅ = v.node := (Attempt.run_pure_eq_ok.mp hrun).1
      exact ⟨v, hv, hpath, congrArg Framework.size hnode.symm⟩
  | succ size ih =>
      obtain ⟨u, hu, hpath, hlength⟩ := ih (Nat.lt_of_succ_lt hsize)
      have hdepth : u.depth < depth := by rwa [Visit.depth, hpath, List.length_replicate]
      obtain ⟨v, hv, hchild⟩ := (h.child_iff u hu 0).mpr ⟨hdepth, newArgument, rfl, rfl⟩
      obtain ⟨growth, hgrowth, -, htakes⟩ := h.grown.takes_of_path h.ordered hu hv hchild
      obtain rfl : newArgument = growth := Option.some.inj hgrowth
      refine ⟨v, hv, ?_, ?_⟩
      · rw [hchild, hpath, List.replicate_succ']
      · rw [← hlength]
        exact congrArg Prod.fst (shape_of_newArgument htakes)

/-- The registry of a whole walk has an argument for each level below the root. -/
theorem size_registry (h : (generator selfAttacks).DepthFirst (.fresh source) depth finish visits)
    (hdepth : 1 ≤ depth) : finish.registry.size = depth - 1 := by
  apply Nat.le_antisymm
  · obtain ⟨v, hv, hsize⟩ := exists_size_eq_of_grown h.grown
    have hsized := (sized_of_mem_visits h v hv).1
    have hshallow := h.depth_le hdepth hv
    dsimp only [shape] at hsized
    omega
  · obtain ⟨v, hv, -, hsize⟩ := exists_size_eq_of_lt h (Nat.sub_one_lt_of_le hdepth (Nat.le_refl _))
    rw [← hsize]
    exact (numbered_of_grown h.grown v hv).size_le

/-! ### Main statement -/

/-- **The branches share one registry.** After a whole walk from a fresh context it has one argument
for each level below the root, labelled with the places in order, and every framework of the tree
has its first arguments. So the number of an argument is its place in all of them, and arguments of
different branches are equal if their labels are. All walks whose visits do not fail leave the same
registry. -/
theorem branches_share_registry (selfAttacks : Bool) (source : σ) {depth : Nat}
    (hdepth : 1 ≤ depth) :
    let g : Generator σ Framework := generator selfAttacks
    ∃ nodes finish, g.instances depth (.fresh source) = (.ok nodes, finish)
      ∧ finish.registry.arguments =
        (List.range (depth - 1)).map (fun place => ⟨place, s!"a{place}"⟩)
      ∧ (∀ af ∈ nodes, af.arguments = finish.registry.arguments.take af.size)
      ∧ (∀ af ∈ nodes, ∀ place a, af.argument? place = some a → a.id = place)
      ∧ (∀ af ∈ nodes, ∀ bf ∈ nodes, ∀ a ∈ af.arguments, ∀ b ∈ bf.arguments,
        a.label = b.label → a = b)
      ∧ ∀ {κ : Type} (visit : Framework → Attempt κ Unit),
        (∀ x before, ∃ after, (visit x).run before = (.ok (), after)) →
        ∀ k, ∃ k', (g.walk visit depth).run (.fresh source, k) = (.ok (), finish, k') := by
  intro g
  obtain ⟨visits, finish, hfirst, hinstances, hwalk⟩ :=
    (maintains_numbered selfAttacks source _).unfailing.exists_visits hdepth (Nat.le_succ _)
  have hnumbered : ∀ af ∈ visits.map Visit.node, Numbered finish.registry af := by
    intro af haf
    obtain ⟨v, hv, rfl⟩ := List.mem_map.mp haf
    exact numbered_of_grown hfirst.grown v hv
  obtain ⟨root, hroot, -⟩ := hfirst.grown.exists_root
  have hknown := (numbered_of_grown hfirst.grown root hroot).known
  refine ⟨_, finish, hinstances, ?_, fun af haf => (hnumbered af haf).arguments_eq_take,
    fun af haf place a ha => ?_, fun af haf bf hbf a ha b hb hlabel => ?_, hwalk⟩
  · rw [hknown.arguments_eq, size_registry hfirst hdepth]
    rfl
  · rw [(hnumbered af haf).eq_of_argument? ha]
  · obtain ⟨i, rfl⟩ := (hnumbered af haf).exists_eq_of_mem ha
    obtain ⟨j, rfl⟩ := (hnumbered bf hbf).exists_eq_of_mem hb
    rw [placeLabel_injective hlabel]

theorem branches_share_registry_forbidden :
    let g : Generator Script Framework := generator false
    1 ≤ 4 ∧ ∃ nodes finish, g.instances 4 (.fresh ⟨[1, 0]⟩) = (.ok nodes, finish)
      ∧ nodes.length = 1 + 1 + 1 + 2
      ∧ finish.registry.arguments = [⟨0, "a0"⟩, ⟨1, "a1"⟩, ⟨2, "a2"⟩]
      ∧ (∀ af ∈ nodes, af.arguments = finish.registry.arguments.take af.size)
      ∧ ∀ k : List Framework, ∃ k',
        (g.walk Generator.remember 4).run (.fresh ⟨[1, 0]⟩, k) = (.ok (), finish, k') := by
  intro g
  obtain ⟨nodes, finish, hinstances, hregistry, hfirst, -, -, hwalk⟩ :=
    branches_share_registry false (Script.mk [1, 0]) (by decide : 1 ≤ 4)
  have hcount : ((g.instances 4 (.fresh ⟨[1, 0]⟩)).1.map List.length).toOption = some 5 := by
    decide +kernel
  rw [hinstances] at hcount
  exact ⟨by decide, nodes, finish, hinstances, Option.some.inj hcount, hregistry, hfirst,
    hwalk Generator.remember fun node before => ⟨before ++ [node], rfl⟩⟩

end Framework

end SolverAudit
