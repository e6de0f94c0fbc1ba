import Mathlib
import SolverAudit.Formula.Counting
import SolverAudit.Proofs.Formula.Models
import SolverAudit.Proofs.Formula.Progress
import SolverAudit.Proofs.Ordered.Map
import SolverAudit.Proofs.Ordered.Set

/-!
# Laws of weighted counts

The weighted count is a sum over the models of products over their literals. A new variable makes
two models of each, which weigh twice as much, a unit clause and the one of the opposite literal
share the models out among them, and a weight changes one factor in the products of the models that
contain its literal. So counts and weighted counts follow the growth of a formula, as long as its
models are all total assignments that satisfy the clauses.
-/

namespace SolverAudit

namespace Formula

variable {f : Formula}

/-! ### The models of larger formulas -/

theorem Sound.total (hf : f.Sound) {m : Assignment} (hm : m ∈ f.models) : m.Total f.varCount :=
  ((hf m).mp hm).1

theorem Sound.perm_models_addVariable (hf : f.Sound) :
    f.addVariable.models.toList.Perm (f.models.toList.flatMap fun m =>
      [m.insert ⟨f.varCount, false⟩, m.insert ⟨f.varCount, true⟩]) := by
  refine OrderedSet.perm_ofList (List.nodup_flatMap.mpr ⟨fun m hm => ?_, ?_⟩)
  · have hne : m.insert ⟨f.varCount, false⟩ ≠ m.insert ⟨f.varCount, true⟩ := fun hsame => by
      simpa using ((hf.total hm).of_insert_eq (hf.total hm) hsame).2
    simpa using hne
  · refine List.Pairwise.imp_of_mem ?_ f.models.nodup_toList
    intro m m' hm hm' hne
    have hapart : ∀ b b', m'.insert ⟨f.varCount, b⟩ ≠ m.insert ⟨f.varCount, b'⟩ := fun b b' hsame =>
      hne ((hf.total hm').of_insert_eq (hf.total hm) hsame).1.symm
    simp [Function.onFun, hapart]

/-- A model satisfies either the unit clause of a literal or the one of its negation. -/
theorem Sound.perm_models_addUnit (hf : f.Sound) {l : Literal} (hl : l.index < f.varCount) :
    ((f.addUnit l).models.toList ++ (f.addUnit l.negate).models.toList).Perm f.models.toList := by
  have hnegate : f.models.toList.filter (fun m => decide (l.negate ∈ m)) =
      f.models.toList.filter fun m => !decide (l ∈ m) := by
    refine List.filter_congr fun m hm => ?_
    rw [← decide_not]
    exact decide_eq_decide.mpr ((hf.total hm).negate_mem_iff hl)
  change (f.models.toList.filter (fun m => decide (l ∈ m)) ++
    f.models.toList.filter fun m => decide (l.negate ∈ m)).Perm f.models.toList
  rw [hnegate]
  exact List.filter_append_perm _ _

theorem Sound.size_addVariable (hf : f.Sound) :
    f.addVariable.models.size = 2 * f.models.size := by
  have hlength := hf.perm_models_addVariable.length_eq
  rw [List.length_flatMap] at hlength
  simpa [OrderedSet.size, Nat.mul_comm] using hlength

theorem Sound.size_addUnit_add (hf : f.Sound) {l : Literal} (hl : l.index < f.varCount) :
    (f.addUnit l).models.size + (f.addUnit l.negate).models.size = f.models.size := by
  have hlength := (hf.perm_models_addUnit hl).length_eq
  rwa [List.length_append] at hlength

end Formula

namespace WeightedFormula

variable {w : WeightedFormula}

/-! ### Products and sums -/

def productOver (w : WeightedFormula) (ls : List Literal) : Nat := (ls.map w.literalWeight).prod

def sumOver (w : WeightedFormula) (ms : List Assignment) : Nat := (ms.map w.modelWeight).sum

theorem productOver_cons (w : WeightedFormula) (l : Literal) (ls : List Literal) :
    w.productOver (l :: ls) = w.literalWeight l * w.productOver ls :=
  List.prod_cons

theorem sumOver_cons (w : WeightedFormula) (m : Assignment) (ms : List Assignment) :
    w.sumOver (m :: ms) = w.modelWeight m + w.sumOver ms :=
  List.sum_cons

theorem sumOver_append (w : WeightedFormula) (ms ms' : List Assignment) :
    w.sumOver (ms ++ ms') = w.sumOver ms + w.sumOver ms' := by
  rw [sumOver, List.map_append, List.sum_append]
  rfl

theorem productOver_perm (w : WeightedFormula) {ls ls' : List Literal} (h : ls.Perm ls') :
    w.productOver ls = w.productOver ls' :=
  (h.map _).prod_eq

theorem sumOver_perm (w : WeightedFormula) {ms ms' : List Assignment} (h : ms.Perm ms') :
    w.sumOver ms = w.sumOver ms' :=
  (h.map _).sum_eq

theorem modelWeight_eq (w : WeightedFormula) (m : Assignment) :
    w.modelWeight m = w.productOver m.toList := by
  rw [productOver, List.prod_eq_foldr, List.foldr_map]
  rfl

theorem count_eq (w : WeightedFormula) : w.count = w.sumOver w.formula.models.toList := by
  rw [sumOver, List.sum_eq_foldr, List.foldr_map]
  rfl

/-- What models weigh does not depend on the formula that they are models of. -/
theorem count_with (w : WeightedFormula) (f : Formula) :
    (⟨f, w.weights⟩ : WeightedFormula).count = w.sumOver f.models.toList :=
  count_eq _

theorem modelWeight_insert {m : Assignment} {l : Literal} (hl : l ∉ m) :
    w.modelWeight (m.insert l) = w.literalWeight l * w.modelWeight m := by
  rw [modelWeight_eq, w.productOver_perm (OrderedSet.perm_insert hl), productOver_cons,
    ← modelWeight_eq]

theorem Valid.literalWeight_of_le (h : w.Valid) {l : Literal} (hl : w.formula.varCount ≤ l.index) :
    w.literalWeight l = 2 := by
  cases hget : w.weights.get? l with
  | none => simp [literalWeight, hget, commonWeight]
  | some weight =>
      have hindex := (h _ ((OrderedMap.get?_eq_some ..).mp hget)).2
      exact absurd hindex (Nat.not_lt.mpr hl)

/-! ### What growing does to the counts -/

theorem sumOver_flatMap {first second : Assignment → Assignment} {a b : Nat}
    {ms : List Assignment} (hfirst : ∀ m ∈ ms, w.modelWeight (first m) = a * w.modelWeight m)
    (hsecond : ∀ m ∈ ms, w.modelWeight (second m) = b * w.modelWeight m) :
    w.sumOver (ms.flatMap fun m => [first m, second m]) = (a + b) * w.sumOver ms := by
  induction ms with
  | nil => rfl
  | cons m ms ih =>
      obtain ⟨hfirst, hfirsts⟩ := List.forall_mem_cons.mp hfirst
      obtain ⟨hsecond, hseconds⟩ := List.forall_mem_cons.mp hsecond
      rw [List.flatMap_cons, List.cons_append, List.singleton_append, sumOver_cons, sumOver_cons,
        sumOver_cons, ih hfirsts hseconds, hfirst, hsecond]
      ring

/-- Of each model a new variable makes two, one for each of its literals. -/
theorem sumOver_addVariable (w : WeightedFormula) {f : Formula} (hf : f.Sound) :
    w.sumOver f.addVariable.models.toList =
      (w.literalWeight ⟨f.varCount, false⟩ + w.literalWeight ⟨f.varCount, true⟩) *
        w.sumOver f.models.toList := by
  have hmodel : ∀ b, ∀ m ∈ f.models.toList, w.modelWeight (m.insert ⟨f.varCount, b⟩) =
      w.literalWeight ⟨f.varCount, b⟩ * w.modelWeight m := fun b m hm =>
    modelWeight_insert ((hf.total hm).last_not_mem b)
  rw [w.sumOver_perm hf.perm_models_addVariable]
  exact sumOver_flatMap (hmodel false) (hmodel true)

theorem count_addVariable (hsound : w.formula.Sound) (hvalid : w.Valid) :
    (⟨w.formula.addVariable, w.weights⟩ : WeightedFormula).count = 4 * w.count := by
  have hnew : ∀ b, w.literalWeight ⟨w.formula.varCount, b⟩ = 2 := fun b =>
    hvalid.literalWeight_of_le (Nat.le_refl _)
  calc
    (⟨w.formula.addVariable, w.weights⟩ : WeightedFormula).count =
        w.sumOver w.formula.addVariable.models.toList := w.count_with _
    _ = (2 + 2) * w.sumOver w.formula.models.toList := by
      rw [w.sumOver_addVariable hsound, hnew, hnew]
    _ = 4 * w.count := by rw [count_eq]

theorem count_addUnit_add (hsound : w.formula.Sound) {l : Literal}
    (hl : l.index < w.formula.varCount) :
    (⟨w.formula.addUnit l, w.weights⟩ : WeightedFormula).count +
      (⟨w.formula.addUnit l.negate, w.weights⟩ : WeightedFormula).count = w.count := by
  calc
    (⟨w.formula.addUnit l, w.weights⟩ : WeightedFormula).count +
        (⟨w.formula.addUnit l.negate, w.weights⟩ : WeightedFormula).count =
        w.sumOver ((w.formula.addUnit l).models.toList ++
          (w.formula.addUnit l.negate).models.toList) := by
      rw [count_with, count_with, sumOver_append]
    _ = w.sumOver w.formula.models.toList := w.sumOver_perm (hsound.perm_models_addUnit hl)
    _ = w.count := (count_eq w).symm

/-! ### What a weight does to the products -/

variable {l : Literal} {m : Assignment} {weight : Nat}

theorem productOver_setWeight_of_not_mem {ls : List Literal} (hl : l ∉ ls) :
    (w.setWeight l weight).productOver ls = w.productOver ls := by
  refine congrArg List.prod (List.map_congr_left fun other hother => ?_)
  have hne : other ≠ l := fun hsame => hl (hsame ▸ hother)
  rw [literalWeight, setWeight, OrderedMap.get?_insert, if_neg hne]
  rfl

theorem modelWeight_setWeight_of_not_mem (hl : l ∉ m) :
    (w.setWeight l weight).modelWeight m = w.modelWeight m := by
  rw [modelWeight_eq, modelWeight_eq]
  exact productOver_setWeight_of_not_mem hl

/-- The weights of the other literals make up the factor that stays. -/
theorem exists_modelWeight_setWeight (hl : l ∈ m) (hnew : w.isExplicit l = false) :
    ∃ x, w.modelWeight m = 2 * x ∧ (w.setWeight l weight).modelWeight m = weight * x := by
  have hperm : m.toList.Perm (l :: m.toList.erase l) := List.perm_cons_erase hl
  have hrest : l ∉ m.toList.erase l := m.nodup_toList.not_mem_erase
  have hget : w.weights.get? l = none := by simpa [isExplicit, OrderedMap.contains] using hnew
  have hbefore : w.literalWeight l = 2 := by simp [literalWeight, hget, commonWeight]
  have hafter : (w.setWeight l weight).literalWeight l = weight := by
    rw [literalWeight, setWeight, OrderedMap.get?_insert, if_pos rfl]
    rfl
  refine ⟨w.productOver (m.toList.erase l), ?_, ?_⟩
  · rw [modelWeight_eq, productOver_perm _ hperm, productOver_cons, hbefore]
  · rw [modelWeight_eq, productOver_perm _ hperm, productOver_cons, hafter,
      productOver_setWeight_of_not_mem hrest]

/-- **Counts follow growth.** Let weights be accepted for a formula whose models are the total
assignments that satisfy its clauses. A new variable, for which the weights are accepted again,
makes twice as many models of four times the weight. The unit clauses of a literal and of its
negation share out the models and their weight. A weight for a literal that has none of its own
changes the weight of the models with this literal alone, in which it takes the place of the common
weight two. -/
theorem counts_follow_growth {f : Formula} {weights : OrderedMap Literal Nat} (hsound : f.Sound)
    (hweigh : weigh f weights = .ok w) :
    (∀ {σ : Type} (before : Context σ), ∃ v : WeightedFormula,
        ((Formula.newVariable.adapt adaptation).grow w).run before = (.ok v, before)
        ∧ CountingProblem.count ⟨v.formula⟩ = 2 * CountingProblem.count ⟨w.formula⟩
        ∧ v.count = 4 * w.count)
      ∧ (∀ l : Literal, l.index < w.formula.varCount → ∃ v v' : WeightedFormula,
        adaptation.rebuild w (w.formula.addUnit l) = .ok v
        ∧ adaptation.rebuild w (w.formula.addUnit l.negate) = .ok v'
        ∧ CountingProblem.count ⟨v.formula⟩ + CountingProblem.count ⟨v'.formula⟩ =
          CountingProblem.count ⟨w.formula⟩
        ∧ v.count + v'.count = w.count)
      ∧ ∀ l weight, w.isExplicit l = false → ∀ m : Assignment,
        (l ∉ m → (w.setWeight l weight).modelWeight m = w.modelWeight m)
        ∧ (l ∈ m → ∃ x, w.modelWeight m = 2 * x
          ∧ (w.setWeight l weight).modelWeight m = weight * x) := by
  obtain ⟨rfl, hvalid⟩ := weigh_eq_ok.mp hweigh
  refine ⟨fun {σ} before => ⟨⟨f.addVariable, weights⟩, ?_, ?_, ?_⟩,
    fun l hl => ⟨⟨f.addUnit l, weights⟩, ⟨f.addUnit l.negate, weights⟩, ?_, ?_, ?_, ?_⟩,
    fun l weight hnew m => ⟨modelWeight_setWeight_of_not_mem, fun hl =>
      exists_modelWeight_setWeight hl hnew⟩⟩
  · exact Prod.ext (hvalid.rebuild_eq_ok (Nat.le_succ _)) rfl
  · exact hsound.size_addVariable
  · exact count_addVariable hsound hvalid
  · exact hvalid.rebuild_eq_ok (Nat.le_refl _)
  · exact hvalid.rebuild_eq_ok (Nat.le_refl _)
  · exact hsound.size_addUnit_add hl
  · exact count_addUnit_add hsound hl

theorem counts_follow_growth_clause :
    let clauses : List Clause := [[⟨0, true⟩, ⟨1, true⟩]]
    let f : Formula := ⟨2, clauses, .ofList (solutions 2 clauses)⟩
    let weights : OrderedMap Literal Nat :=
      ((∅ : OrderedMap Literal Nat).insert ⟨1, true⟩ 5).insert ⟨0, false⟩ 3
    let w : WeightedFormula := ⟨f, weights⟩
    f.Sound ∧ weigh f weights = .ok w ∧ w.count = 29
      ∧ (∃ v : WeightedFormula,
        ((Formula.newVariable.adapt adaptation).grow w).run (.fresh ()) = (.ok v, .fresh ())
        ∧ v.count = 116)
      ∧ (∃ v v' : WeightedFormula,
        adaptation.rebuild w (f.addUnit ⟨1, true⟩) = .ok v
        ∧ adaptation.rebuild w (f.addUnit ⟨1, false⟩) = .ok v'
        ∧ v.count + v'.count = 29)
      ∧ (w.setWeight ⟨0, true⟩ 9).modelWeight (.ofList [⟨0, true⟩, ⟨1, true⟩]) = 45
      ∧ (w.setWeight ⟨0, true⟩ 9).modelWeight (.ofList [⟨0, false⟩, ⟨1, true⟩]) = 15 := by
  intro clauses f weights w
  have hclauses : Formula.ofClauses 2 clauses = .ok f :=
    Formula.ofClauses_eq_ok.mpr ⟨by decide, by decide, rfl⟩
  have hsound : f.Sound := (Formula.coherent_of_ofClauses hclauses).sound
  have hweigh : weigh f weights = .ok w := rfl
  have hcount : w.count = 29 := by cbv
  obtain ⟨hvariable, hunits, hweight⟩ := counts_follow_growth hsound hweigh
  obtain ⟨v, hgrow, -, hfour⟩ := hvariable (.fresh ())
  obtain ⟨u, u', hunit, hopposite, -, hsum⟩ := hunits ⟨1, true⟩ (by decide)
  obtain ⟨hkept, -⟩ := hweight ⟨0, true⟩ 9 rfl (.ofList [⟨0, false⟩, ⟨1, true⟩])
  obtain ⟨-, hchanged⟩ := hweight ⟨0, true⟩ 9 rfl (.ofList [⟨0, true⟩, ⟨1, true⟩])
  obtain ⟨x, hbefore, hafter⟩ := hchanged (by simp)
  have hten : w.modelWeight (.ofList [⟨0, true⟩, ⟨1, true⟩]) = 10 := by cbv
  refine ⟨hsound, hweigh, hcount, ⟨v, hgrow, by rw [hfour, hcount]⟩,
    ⟨u, u', hunit, hopposite, hsum.trans hcount⟩, ?_, ?_⟩
  · omega
  · exact (hkept (by simp)).trans (by cbv)

end WeightedFormula

end SolverAudit
