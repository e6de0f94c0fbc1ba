import SolverAudit.Proofs.Formula.Models
import SolverAudit.Proofs.Formula.Progress

/-!
# Which clauses and literals are added

The growths of a formula list anew what they choose from. The growth by a unit clause may add any
literal that has none yet, and the growth by a literal any literal of a variable that some clause
does not mention. With nothing to choose from they fail in an invalid state. The growth by a literal
applies otherwise, but with too many variables it overflows; the growth by a unit clause only
applies to formulas that have a model.
-/

namespace SolverAudit.Formula

/-- The second formula has the variables of the first one, the given clauses and their models. -/
structure WithClauses (f : Formula) (clauses : List Clause) (g : Formula) : Prop where
  varCount_eq : g.varCount = f.varCount
  clauses_eq : g.clauses = clauses
  sound : g.Sound

variable {f g : Formula}

theorem WithClauses.unique {clauses : List Clause} {h : Formula} (hg : WithClauses f clauses g)
    (hh : WithClauses f clauses h) : g = h := by
  have hvars : g.varCount = h.varCount := hg.varCount_eq.trans hh.varCount_eq.symm
  have hclauses : g.clauses = h.clauses := hg.clauses_eq.trans hh.clauses_eq.symm
  have hmodels : g.models = h.models := OrderedSet.ext fun m => by
    rw [hg.sound m, hh.sound m, hvars, hclauses]
  cases g
  cases h
  congr

theorem Coherent.withClauses_addUnit (hf : f.Coherent) {l : Literal} (hl : l.index < f.varCount) :
    WithClauses f (f.clauses ++ [[l]]) (f.addUnit l) :=
  ⟨rfl, rfl, (hf.addUnit hl).sound⟩

theorem Coherent.withClauses_widen (hf : f.Coherent) {place : Nat} {clause : Clause} {l : Literal}
    (hclause : f.clauses[place]? = some clause) (hl : l.index < f.varCount) :
    WithClauses f (f.clauses.set place (clause ++ [l])) (f.widen place l) where
  varCount_eq := rfl
  clauses_eq := by
    change f.clauses.modify place (· ++ [l]) = _
    rw [List.modify_eq_set_getElem?, hclause]
    rfl
  sound := (hf.widen hclause hl).sound

/-! ### When there is nothing to choose from -/

theorem freeLiterals_ne_nil :
    f.freeLiterals ≠ [] ↔ ∃ l, l.index < f.varCount ∧ [l] ∉ f.clauses := by
  rw [← List.isEmpty_eq_false_iff, List.isEmpty_eq_false_iff_exists_mem]
  exact exists_congr fun _ => mem_freeLiterals

theorem openClauses_ne_nil :
    f.openClauses ≠ [] ↔
      ∃ clause ∈ f.clauses, ∃ i, i < f.varCount ∧ ∀ l ∈ clause, l.index ≠ i := by
  rw [← exists_openClauses_iff, List.any_eq_true]
  refine exists_congr fun clause => and_congr_right fun _ => ?_
  rw [Bool.not_eq_true', List.isEmpty_eq_false_iff_exists_mem]
  exact exists_congr fun _ => mem_absentFrom

variable {σ : Type} [Source σ]

theorem refuses_newClause (hnone : ¬ f.freeLiterals ≠ []) (before : Context σ) :
    newClause.Refuses f before := by
  refine ⟨.of Saturated.everyLiteralPinned, ?_, rfl⟩
  simp only [newClause, not_not.mp hnone]
  rfl

theorem refuses_newLiteral (hnone : ¬ f.openClauses ≠ []) (before : Context σ) :
    newLiteral.Refuses f before := by
  refine ⟨.of Saturated.everyClauseFull, ?_, rfl⟩
  simp only [newLiteral, not_not.mp hnone]
  rfl

theorem succeeds_newClause_iff (before : Context σ) :
    newClause.Succeeds f before ↔ f.freeLiterals ≠ [] :=
  Growth.succeeds_iff (exists_run_newClause · before) (refuses_newClause · before)

theorem refuses_newClause_iff (before : Context σ) :
    newClause.Refuses f before ↔ ¬ f.freeLiterals ≠ [] :=
  Growth.refuses_iff (exists_run_newClause · before) (refuses_newClause · before)

theorem refuses_newLiteral_iff (before : Context σ) :
    newLiteral.Refuses f before ↔ ¬ f.openClauses ≠ [] := by
  refine ⟨fun hrefuses hopen => ?_, (refuses_newLiteral · before)⟩
  rcases Nat.lt_or_ge f.varCount 128 with hcount | hcount
  · exact (succeeds_newLiteral hcount hopen before).not_refuses hrefuses
  · exact (overflows_newLiteral hcount hopen before).not_refuses hrefuses

theorem succeeds_newLiteral_iff (before : Context σ) :
    newLiteral.Succeeds f before ↔ f.varCount < 128 ∧ ¬ newLiteral.Refuses f before := by
  rw [refuses_newLiteral_iff, not_not]
  refine ⟨fun hsucceeds => ⟨Nat.lt_of_not_le fun hcount => ?_, ?_⟩, fun h =>
    succeeds_newLiteral h.1 h.2 before⟩
  · by_cases hopen : f.openClauses ≠ []
    · exact hsucceeds.not_overflows (overflows_newLiteral hcount hopen before)
    · exact hsucceeds.not_refuses (refuses_newLiteral hopen before)
  · exact not_not.mp fun hnone => hsucceeds.not_refuses (refuses_newLiteral hnone before)

theorem overflows_newLiteral_iff (before : Context σ) :
    newLiteral.Overflows f before ↔ 128 ≤ f.varCount ∧ ¬ newLiteral.Refuses f before := by
  refine ⟨fun hoverflows => ⟨Nat.le_of_not_lt fun hcount => ?_, hoverflows.not_refuses⟩, ?_⟩
  · have hsucceeds := (succeeds_newLiteral_iff before).mpr ⟨hcount, hoverflows.not_refuses⟩
    exact hsucceeds.not_overflows hoverflows
  · rintro ⟨hcount, hopen⟩
    rw [refuses_newLiteral_iff, not_not] at hopen
    exact overflows_newLiteral hcount hopen before

/-! ### What there is to choose from -/

theorem offers_addUnit (hfull : Source.Full σ) {l : Literal} (hl : l.index < f.varCount)
    (hfree : [l] ∉ f.clauses) (registry : Registry) :
    (newClause : Growth σ Formula).Offers registry f (f.addUnit l) := by
  have hmem : l ∈ f.freeLiterals := mem_freeLiterals.mpr ⟨hl, hfree⟩
  obtain ⟨first, others, hcandidates⟩ := List.exists_cons_of_ne_nil (List.ne_nil_of_mem hmem)
  obtain ⟨later⟩ := hfull.inhabited
  rw [hcandidates] at hmem
  obtain ⟨early, hpick⟩ := hfull.exists_pick hmem later
  refine ⟨early, ⟨later, registry⟩, ?_⟩
  simp only [newClause, hcandidates, Attempt.run_bind, Context.run_choose, hpick]
  rfl

theorem offers_newClause_iff (hf : f.Coherent) (hfull : Source.Full σ) (registry : Registry) :
    (newClause : Growth σ Formula).Offers registry f g ↔
      ∃ l, l.index < f.varCount ∧ [l] ∉ f.clauses ∧ WithClauses f (f.clauses ++ [[l]]) g := by
  constructor
  · intro hoffers
    obtain ⟨l, hl, hfree, rfl⟩ := exists_of_newClause hoffers.takes
    exact ⟨l, hl, hfree, hf.withClauses_addUnit hl⟩
  · rintro ⟨l, hl, hfree, hg⟩
    rw [hg.unique (hf.withClauses_addUnit hl)]
    exact offers_addUnit hfull hl hfree registry

theorem offers_newLiteral_iff (hf : f.Coherent) (hfree : Source.Free σ) (registry : Registry) :
    (newLiteral : Growth σ Formula).Offers registry f g ↔
      f.varCount < 128 ∧ ∃ place clause l, f.clauses[place]? = some clause ∧ l.index < f.varCount
        ∧ (∀ other ∈ clause, other.index ≠ l.index)
        ∧ WithClauses f (f.clauses.set place (clause ++ [l])) g := by
  constructor
  · intro hoffers
    obtain ⟨hcount, place, clause, l, hclause, hl, habsent, rfl⟩ :=
      exists_of_newLiteral hoffers.takes
    exact ⟨hcount, place, clause, l, hclause, hl, habsent, hf.withClauses_widen hclause hl⟩
  · rintro ⟨hcount, place, clause, l, hclause, hl, habsent, hg⟩
    rw [hg.unique (hf.withClauses_widen hclause hl)]
    exact offers_widen hfree hcount hclause hl habsent registry

/-- A formula with so many variables, of which the first two are each to be both true and false. -/
def contradictory (varCount : Nat) : Formula where
  varCount := varCount
  clauses := [[⟨0, true⟩], [⟨0, false⟩], [⟨1, true⟩], [⟨1, false⟩]]
  models := ∅

theorem initial_contradictory : (contradictory 2).Initial := by
  have hclauses : ofClauses 2 (contradictory 2).clauses = .ok (contradictory 2) :=
    ofClauses_eq_ok.mpr ⟨by decide, by decide, by cbv⟩
  exact .ofClauses hclauses

/-- There are no models to split. -/
theorem addVariable_contradictory (n : Nat) :
    (contradictory n).addVariable = contradictory (n + 1) := by
  have hmodels : OrderedSet.ofList ([] : List Assignment) = ∅ := OrderedSet.ext fun m => by simp
  exact congrArg (Formula.mk (n + 1) _) hmodels

theorem grown_contradictory (n : Nat) :
    Relation.ReflTransGen Grows (contradictory 2) (contradictory (2 + n)) := by
  induction n with
  | zero => exact .refl
  | succ n ih =>
      have hvariable : Grows (contradictory (2 + n)) (contradictory (2 + n)).addVariable :=
        ⟨Script, inferInstance, newVariable, by simp [generator], .fresh ⟨[]⟩, _, rfl⟩
      rw [addVariable_contradictory] at hvariable
      exact ih.tail hvariable

end SolverAudit.Formula
