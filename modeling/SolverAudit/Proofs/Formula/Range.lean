import SolverAudit.Proofs.Formula.Weight

/-!
# Ranges of weights and counts

With weights from one to nine, a model weighs at most nine to the power of the number of variables.
All assignments together weigh the product, over the variables, of what the two literals of each
weigh, since the assignments are the models of a formula without clauses, which grows by variables
alone. So a weighted count is at most eighteen to the power of the number of variables, and no
partial product or partial sum on the way to it is larger.
-/

namespace SolverAudit

/-- A total assignment has one literal for each variable. -/
theorem Assignment.Total.size_eq {varCount : Nat} {m : Assignment} (hm : m.Total varCount) :
    m.size = varCount := by
  rw [hm.eq_ofChoice, ofChoice, OrderedSet.size, (OrderedSet.perm_ofList ?_).length_eq]
  · simp
  · refine List.Nodup.map (fun i j hsame => ?_) List.nodup_range
    exact congrArg Literal.index hsame

namespace Formula

/-- A formula without clauses, whose models are all assignments to its variables. -/
def clauseless : Nat → Formula
  | 0 => root
  | varCount + 1 => (clauseless varCount).addVariable

theorem varCount_clauseless (varCount : Nat) : (clauseless varCount).varCount = varCount := by
  induction varCount with
  | zero => rfl
  | succ varCount ih => exact congrArg Nat.succ ih

theorem clauses_clauseless (varCount : Nat) : (clauseless varCount).clauses = [] := by
  induction varCount with
  | zero => rfl
  | succ varCount ih => exact ih

theorem sound_clauseless (varCount : Nat) : (clauseless varCount).Sound := by
  suffices h : (clauseless varCount).Coherent from h.sound
  induction varCount with
  | zero => exact coherent_root
  | succ varCount ih => exact ih.addVariable

theorem mem_models_clauseless {varCount : Nat} {m : Assignment} :
    m ∈ (clauseless varCount).models ↔ m.Total varCount := by
  rw [sound_clauseless, clauses_clauseless, varCount_clauseless]
  simp

theorem Sound.subperm_models {f : Formula} (hf : f.Sound) :
    f.models.toList.Subperm (clauseless f.varCount).models.toList := by
  refine f.models.nodup_toList.subperm fun m hm => ?_
  exact mem_models_clauseless.mpr (hf.total hm)

end Formula

namespace WeightedFormula

variable {w : WeightedFormula}

/-! ### Products -/

theorem Weighed.literalWeight_bounds (h : w.Weighed) (l : Literal) :
    1 ≤ w.literalWeight l ∧ w.literalWeight l ≤ 9 := by
  cases hget : w.weights.get? l with
  | none => simp [literalWeight, hget, commonWeight]
  | some weight =>
      have hbounds := (h _ ((OrderedMap.get?_eq_some ..).mp hget)).2
      simpa [literalWeight, hget] using hbounds

theorem Weighed.productOver_bounds (h : w.Weighed) (ls : List Literal) :
    1 ≤ w.productOver ls ∧ w.productOver ls ≤ 9 ^ ls.length := by
  constructor
  · refine List.one_le_prod_of_one_le fun weight hweight => ?_
    obtain ⟨l, -, rfl⟩ := List.mem_map.mp hweight
    exact (h.literalWeight_bounds l).1
  · rw [← List.length_map w.literalWeight]
    refine List.prod_le_pow_card _ _ fun weight hweight => ?_
    obtain ⟨l, -, rfl⟩ := List.mem_map.mp hweight
    exact (h.literalWeight_bounds l).2

theorem Weighed.productOver_le_of_sublist (h : w.Weighed) {varCount : Nat} {m : Assignment}
    (hm : m.Total varCount) {ls : List Literal} (hls : ls.Sublist m.toList) :
    w.productOver ls ≤ 9 ^ varCount := by
  calc
    w.productOver ls ≤ 9 ^ ls.length := (h.productOver_bounds ls).2
    _ ≤ 9 ^ m.size := Nat.pow_le_pow_right (by decide) hls.length_le
    _ = 9 ^ varCount := by rw [hm.size_eq]

theorem Weighed.modelWeight_bounds (h : w.Weighed) {varCount : Nat} {m : Assignment}
    (hm : m.Total varCount) : 1 ≤ w.modelWeight m ∧ w.modelWeight m ≤ 9 ^ varCount := by
  rw [modelWeight_eq]
  exact ⟨(h.productOver_bounds _).1, h.productOver_le_of_sublist hm (List.Sublist.refl _)⟩

/-! ### Sums -/

theorem Weighed.length_le_sumOver (h : w.Weighed) (ms : List Assignment) :
    ms.length ≤ w.sumOver ms := by
  rw [← List.length_map w.modelWeight]
  refine List.length_le_sum_of_one_le _ fun weight hweight => ?_
  obtain ⟨m, -, rfl⟩ := List.mem_map.mp hweight
  rw [modelWeight_eq]
  exact (h.productOver_bounds _).1

theorem sumOver_le_of_subperm (w : WeightedFormula) {ms ms' : List Assignment}
    (h : ms.Subperm ms') : w.sumOver ms ≤ w.sumOver ms' := by
  obtain ⟨between, hperm, hsub⟩ := h
  rw [← w.sumOver_perm hperm]
  exact (hsub.map w.modelWeight).sum_le_sum fun _ _ => Nat.zero_le _

/-- The assignments together weigh a product of sums, with one factor for each variable. -/
theorem sumOver_clauseless (w : WeightedFormula) (varCount : Nat) :
    w.sumOver (Formula.clauseless varCount).models.toList =
      ∏ i ∈ Finset.range varCount, (w.literalWeight ⟨i, false⟩ + w.literalWeight ⟨i, true⟩) := by
  induction varCount with
  | zero =>
      have hroot : Formula.root.models.toList.Perm [∅] :=
        OrderedSet.perm_ofList (List.nodup_singleton _)
      exact (w.sumOver_perm hroot).trans rfl
  | succ varCount ih =>
      have hsplit := w.sumOver_addVariable (Formula.sound_clauseless varCount)
      rw [Formula.varCount_clauseless, ih, Nat.mul_comm] at hsplit
      rw [Finset.prod_range_succ]
      exact hsplit

theorem Weighed.count_le (h : w.Weighed) (hsound : w.formula.Sound) :
    w.count ≤ 18 ^ w.formula.varCount := by
  have hfactor : ∀ i ∈ Finset.range w.formula.varCount,
      w.literalWeight ⟨i, false⟩ + w.literalWeight ⟨i, true⟩ ≤ 18 := fun i _ =>
    Nat.add_le_add (h.literalWeight_bounds ⟨i, false⟩).2 (h.literalWeight_bounds ⟨i, true⟩).2
  calc
    w.count = w.sumOver w.formula.models.toList := count_eq w
    _ ≤ w.sumOver (Formula.clauseless w.formula.varCount).models.toList :=
      w.sumOver_le_of_subperm hsound.subperm_models
    _ = ∏ i ∈ Finset.range w.formula.varCount,
          (w.literalWeight ⟨i, false⟩ + w.literalWeight ⟨i, true⟩) := w.sumOver_clauseless _
    _ ≤ 18 ^ (Finset.range w.formula.varCount).card := Finset.prod_le_pow_card _ _ _ hfactor
    _ = 18 ^ w.formula.varCount := by rw [Finset.card_range]

theorem Weighed.sumOver_le_of_sublist (h : w.Weighed) (hsound : w.formula.Sound)
    {ms : List Assignment} (hms : ms.Sublist w.formula.models.toList) :
    w.sumOver ms ≤ 18 ^ w.formula.varCount := by
  calc
    w.sumOver ms ≤ w.sumOver w.formula.models.toList := w.sumOver_le_of_subperm hms.subperm
    _ = w.count := (count_eq w).symm
    _ ≤ 18 ^ w.formula.varCount := h.count_le hsound

end WeightedFormula

end SolverAudit
