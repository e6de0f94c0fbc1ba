import SolverAudit.Formula.Weighted
import SolverAudit.Proofs.Formula.Growth
import SolverAudit.Proofs.Tree.Progress

/-!
# Growing formulas succeed

A growth of formulas that applies has something to choose from, so it succeeds or, with more
variables than masks allow for, the growth by a literal overflows. A weighted formula is rebuilt
over the result: its weights are positive and given to its own variables, of which the larger
formula has no fewer, so they are never rejected.
-/

namespace SolverAudit

/-! ### Formulas -/

namespace Formula

variable {f g : Formula}

theorem Enlarged.varCount_bounds (h : Enlarged f g) :
    f.varCount ≤ g.varCount ∧ g.varCount ≤ f.varCount + 1 := by
  cases h with
  | addVariable => exact ⟨Nat.le_succ _, Nat.le_refl _⟩
  | addUnit => exact ⟨Nat.le_refl _, Nat.le_succ _⟩
  | widen => exact ⟨Nat.le_refl _, Nat.le_succ _⟩

/-- The growth by a literal applies when a clause is open. -/
theorem exists_openClauses_iff :
    (f.clauses.any fun clause => !(f.absentFrom clause).isEmpty) = true ↔ f.openClauses ≠ [] := by
  simp only [List.any_eq_true, Bool.not_eq_true', List.isEmpty_eq_false_iff]
  constructor
  · rintro ⟨clause, hclause, habsent⟩
    obtain ⟨place, hplace⟩ := List.mem_iff_getElem?.mp hclause
    exact List.ne_nil_of_mem (mem_openClauses.mpr ⟨clause, hplace, rfl, habsent⟩)
  · intro hne
    obtain ⟨⟨place, absent⟩, hopen⟩ := List.exists_mem_of_ne_nil _ hne
    obtain ⟨clause, hclause, rfl, habsent⟩ := mem_openClauses.mp hopen
    exact ⟨clause, List.mem_of_getElem? hclause, habsent⟩

variable {σ : Type} [Source σ]

theorem applies_newClause_iff :
    (newClause : Growth σ Formula).applies f = true ↔
      f.satisfiable = true ∧ f.freeLiterals ≠ [] := by
  rw [newClause, Bool.and_eq_true, Bool.not_eq_true', List.isEmpty_eq_false_iff]

theorem exists_run_newClause (hfree : f.freeLiterals ≠ [])
    (before : Context σ) : ∃ g after, (newClause.grow f).run before = (.ok g, after) := by
  obtain ⟨first, others, hcandidates⟩ := List.exists_cons_of_ne_nil hfree
  simp only [newClause, hcandidates, Attempt.run_bind, Context.run_choose]
  exact ⟨_, _, rfl⟩

/-- With a clause to choose, the growth by a literal does what widening some clause does. -/
theorem exists_run_newLiteral (hopen : f.openClauses ≠ []) (before : Context σ) :
    ∃ place l after, (newLiteral.grow f).run before = (orFail (f.widen? place l), after) := by
  obtain ⟨first, others, hcandidates⟩ := List.exists_cons_of_ne_nil hopen
  have hpicked := Source.mem_pick first others before.source
  rw [← hcandidates] at hpicked
  simp only [newLiteral, hcandidates, Attempt.run_bind, Context.run_choose]
  generalize Source.pick first others before.source = picked at hpicked ⊢
  obtain ⟨⟨place, absent⟩, between⟩ := picked
  obtain ⟨clause, -, -, hne⟩ := mem_openClauses.mp hpicked
  obtain ⟨first, others, rfl⟩ := List.exists_cons_of_ne_nil hne
  simp only [Attempt.run_bind, Context.run_choose]
  exact ⟨_, _, _, rfl⟩

theorem succeeds_newLiteral (hcount : f.varCount < 128) (hopen : f.openClauses ≠ [])
    (before : Context σ) : newLiteral.Succeeds f before := by
  obtain ⟨place, l, after, hrun⟩ := exists_run_newLiteral hopen before
  rw [widen?_of_lt hcount] at hrun
  exact ⟨_, after, hrun⟩

theorem overflows_newLiteral (hcount : 128 ≤ f.varCount) (hopen : f.openClauses ≠ [])
    (before : Context σ) : newLiteral.Overflows f before := by
  obtain ⟨place, l, after, hrun⟩ := exists_run_newLiteral hopen before
  rw [widen?_of_le hcount] at hrun
  exact ⟨_, congrArg Prod.fst hrun, rfl⟩

/-- A growth that applies succeeds, or it overflows as the formula has too many variables. -/
theorem exists_run_of_applies {growth : Growth σ Formula} (hgrowth : growth ∈ generator.growths)
    (happlies : growth.applies f = true) (before : Context σ) :
    (∃ g after, (growth.grow f).run before = (.ok g, after) ∧ Enlarged f g)
      ∨ 128 ≤ f.varCount ∧ growth.Overflows f before := by
  have hcases : growth.Succeeds f before ∨ 128 ≤ f.varCount ∧ growth.Overflows f before := by
    simp only [generator, List.mem_cons, List.not_mem_nil, or_false] at hgrowth
    rcases hgrowth with rfl | rfl | rfl
    · exact .inl ⟨_, _, rfl⟩
    · exact .inl (exists_run_newClause (applies_newClause_iff.mp happlies).2 before)
    · have hopen := exists_openClauses_iff.mp happlies
      rcases Nat.lt_or_ge f.varCount 128 with hcount | hcount
      · exact .inl (succeeds_newLiteral hcount hopen before)
      · exact .inr ⟨hcount, overflows_newLiteral hcount hopen before⟩
  rcases hcases with ⟨g, after, hrun⟩ | hoverflows
  · have hgrows : Grows f g := ⟨σ, inferInstance, growth, hgrowth, before, after, hrun⟩
    exact .inl ⟨g, after, hrun, hgrows.enlarged⟩
  · exact .inr hoverflows

/-- A formula has fewer variables than its depth in the tree. -/
theorem keeps_varCount_lt {growth : Growth σ Formula} (hgrowth : growth ∈ generator.growths) :
    growth.Keeps 128 fun _ depth f => f.varCount < depth := by
  intro before depth f hlt happlies
  rcases exists_run_of_applies hgrowth happlies before with
    ⟨g, after, hrun, henlarged⟩ | ⟨hcount, hoverflows⟩
  · have hbounds := henlarged.varCount_bounds
    exact .inl ⟨g, after, hrun, by omega, fun _ _ hother => hother⟩
  · exact .inr ⟨Nat.lt_of_le_of_lt hcount hlt, hoverflows⟩

end Formula

/-! ### Weighted formulas -/

namespace WeightedFormula

/-- Only literals of the formula have weights of their own, and these are positive. -/
def Valid (w : WeightedFormula) : Prop :=
  ∀ binding ∈ w.weights.bindings, 0 < binding.2 ∧ binding.1.index < w.formula.varCount

/-- Only literals of the formula have weights of their own, which are from one to nine. -/
def Weighed (w : WeightedFormula) : Prop :=
  ∀ binding ∈ w.weights.bindings,
    binding.1.index < w.formula.varCount ∧ 1 ≤ binding.2 ∧ binding.2 ≤ 9

variable {w : WeightedFormula}

theorem weigh_eq_ok {f : Formula} {weights : OrderedMap Literal Nat} :
    weigh f weights = .ok w ↔ w = ⟨f, weights⟩ ∧ Valid ⟨f, weights⟩ := by
  unfold weigh
  split
  · rename_i l weight hfind
    have hmem := List.mem_of_find?_eq_some hfind
    have hrejected := List.find?_some hfind
    simp only [Bool.or_eq_true, beq_iff_eq, decide_eq_true_eq] at hrejected
    constructor
    · intro h
      cases h
    · rintro ⟨-, hvalid⟩
      obtain ⟨hpositive, hindex⟩ := hvalid _ hmem
      dsimp only at hpositive hindex
      omega
  · rename_i hfind
    have hvalid : Valid ⟨f, weights⟩ := fun binding hbinding => by
      simpa [Nat.pos_iff_ne_zero] using List.find?_eq_none.mp hfind binding hbinding
    constructor
    · intro h
      exact ⟨(Except.ok.inj h).symm, hvalid⟩
    · rintro ⟨rfl, -⟩
      rfl

theorem Valid.rebuild_eq_ok (h : w.Valid) {f : Formula} (hle : w.formula.varCount ≤ f.varCount) :
    adaptation.rebuild w f = .ok ⟨f, w.weights⟩ := by
  refine congrArg orFail (weigh_eq_ok.mpr ⟨rfl, fun binding hbinding => ?_⟩)
  exact (h binding hbinding).imp_right fun hindex => Nat.lt_of_lt_of_le hindex hle

theorem Weighed.mono (h : w.Weighed) {g : Formula} (hle : w.formula.varCount ≤ g.varCount) :
    Weighed ⟨g, w.weights⟩ :=
  fun binding hbinding => ⟨Nat.lt_of_lt_of_le (h binding hbinding).1 hle, (h binding hbinding).2⟩

theorem Weighed.valid (h : w.Weighed) : w.Valid :=
  fun binding hbinding => ⟨(h binding hbinding).2.1, (h binding hbinding).1⟩

theorem Weighed.rebuild_eq_ok (h : w.Weighed) {f : Formula} (hf : w.formula.Enlarged f) :
    adaptation.rebuild w f = .ok ⟨f, w.weights⟩ :=
  h.valid.rebuild_eq_ok hf.varCount_bounds.1

theorem Weighed.setWeight (h : w.Weighed) {l : Literal} {weight : Nat}
    (hl : l.index < w.formula.varCount) (hweight : 1 ≤ weight ∧ weight ≤ 9) :
    (w.setWeight l weight).Weighed := by
  intro binding hbinding
  rcases OrderedMap.mem_bindings_insert hbinding with rfl | hbinding
  · exact ⟨hl, hweight⟩
  · exact h binding hbinding

theorem mem_unweighted {l : Literal} :
    l ∈ w.unweighted ↔ l.index < w.formula.varCount ∧ w.isExplicit l = false := by
  simp [unweighted, Formula.literals, mem_literals]

theorem unweighted_ne_nil_iff :
    w.unweighted ≠ [] ↔ (w.formula.literals.any fun l => !w.isExplicit l) = true := by
  rw [unweighted, ne_eq, List.filter_eq_nil_iff, List.any_eq_true]
  simp

variable {σ : Type}

/-- The weights are in order and the formula has fewer variables than its depth in the tree. -/
def Sane (_ : Context σ) (depth : Nat) (w : WeightedFormula) : Prop :=
  w.Weighed ∧ w.formula.varCount < depth

theorem sane_root {context : Context σ} : Sane context 1 ⟨.root, ∅⟩ :=
  ⟨fun _ hbinding => absurd hbinding List.not_mem_nil, Nat.zero_lt_one⟩

variable [Source σ]

theorem exists_run_newWeight
    (happlies : (w.formula.literals.any fun l => !w.isExplicit l) = true) (before : Context σ) :
    ∃ l weight after, l ∈ w.unweighted ∧ (1 ≤ weight ∧ weight ≤ 9)
      ∧ (newWeight.grow w).run before = (.ok (w.setWeight l weight), after) := by
  obtain ⟨first, others, hcandidates⟩ :=
    List.exists_cons_of_ne_nil (unweighted_ne_nil_iff.mpr happlies)
  have hpicked := Source.mem_pick first others before.source
  simp only [newWeight, hcandidates, Attempt.run_bind, Context.run_choose]
  exact ⟨_, _, _, hpicked, ⟨Nat.le_add_left _ _, Nat.succ_le_of_lt (Fin.isLt _)⟩, rfl⟩

theorem keeps_newWeight : (newWeight : Growth σ WeightedFormula).Keeps 128 Sane := by
  rintro before depth w ⟨hweighed, hlt⟩ happlies
  obtain ⟨l, weight, after, hl, hweight, hrun⟩ := exists_run_newWeight happlies before
  exact .inl ⟨_, after, hrun, ⟨hweighed.setWeight (mem_unweighted.mp hl).1 hweight,
    Nat.lt_succ_of_lt hlt⟩, fun _ _ hother => hother⟩

/-- An adapted growth does to the formula what the growth does, and the weights are kept. -/
theorem Weighed.run_adapt (h : w.Weighed) {growth : Growth σ Formula}
    (hgrowth : growth ∈ Formula.generator.growths) (before : Context σ) :
    ((growth.adapt adaptation).grow w).run before =
      (((growth.grow w.formula).run before).1.map (⟨·, w.weights⟩),
        ((growth.grow w.formula).run before).2) := by
  change (growth.grow w.formula >>= fun f => Attempt.lift (adaptation.rebuild w f)).run before = _
  rw [Attempt.run_bind]
  rcases hrun : (growth.grow w.formula).run before with ⟨failure | f, after⟩
  · rfl
  · have hgrows : w.formula.Grows f := ⟨σ, inferInstance, growth, hgrowth, before, after, hrun⟩
    dsimp only
    rw [Attempt.run_lift, h.rebuild_eq_ok hgrows.enlarged]
    rfl

theorem keeps_adapt {growth : Growth σ Formula} (hgrowth : growth ∈ Formula.generator.growths) :
    (growth.adapt adaptation).Keeps 128 Sane := by
  rintro before depth w ⟨hweighed, hlt⟩ happlies
  have hrun := hweighed.run_adapt hgrowth before
  rcases Formula.exists_run_of_applies (f := w.formula) hgrowth happlies before with
    ⟨g, after, hgrow, henlarged⟩ | ⟨hcount, failure, hfails, hkind⟩
  · have hbounds := henlarged.varCount_bounds
    rw [hgrow] at hrun
    refine .inl ⟨⟨g, w.weights⟩, after, hrun, ⟨hweighed.mono hbounds.1, ?_⟩,
      fun _ _ hother => hother⟩
    dsimp only
    omega
  · rw [hfails] at hrun
    exact .inr ⟨Nat.lt_of_le_of_lt hcount hlt, failure, congrArg Prod.fst hrun, hkind⟩

theorem keeps_of_mem_growths {growth : Growth σ WeightedFormula}
    (hgrowth : growth ∈ generator.growths) : growth.Keeps 128 Sane := by
  rcases List.mem_append.mp hgrowth with hgrowth | hgrowth
  · obtain ⟨base, hbase, rfl⟩ := List.mem_map.mp hgrowth
    exact keeps_adapt hbase
  · rw [List.mem_singleton.mp hgrowth]
    exact keeps_newWeight

end WeightedFormula

end SolverAudit
