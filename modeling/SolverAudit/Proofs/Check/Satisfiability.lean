import SolverAudit.Check.Checker
import SolverAudit.Proofs.Formula.Dimacs
import SolverAudit.Proofs.Formula.Models
import SolverAudit.Proofs.Status.Satisfiability

/-!
# Checking satisfiability

The checker tests the literals that an answer gives clause by clause, while the models of a formula
are total assignments. Both say the same: literals that satisfy every clause leave the open
variables free, and literals that leave a clause open can be completed to an assignment that
falsifies it, as no clause of a grown formula mentions a variable twice.
-/

namespace SolverAudit

open Status

namespace Formula

variable {f : Formula} {values : List Literal}

/-- The literals stand for models: they are consistent, they mention only variables of the formula,
and each total assignment in which they are true is a model. -/
structure Certifies (f : Formula) (values : List Literal) : Prop where
  consistent : ∀ l ∈ values, l.negate ∉ values
  within : ∀ l ∈ values, l.var ≤ f.varCount
  extended : ∀ m : Assignment, m.Total f.varCount → (∀ l ∈ values, l ∈ m) → m ∈ f.models

/-! ### The test of the literals -/

theorem judgeModel_eq_success_iff :
    f.judgeModel values = .success ↔
      (∀ l ∈ values, l.negate ∉ values) ∧ (∀ l ∈ values, l.var ≤ f.varCount)
        ∧ ∀ clause ∈ f.clauses, satisfies (.ofList values) clause = true := by
  have hboth : ((OrderedSet.ofList values).toList.find? fun l =>
      l.negate ∈ OrderedSet.ofList values) = none ↔ ∀ l ∈ values, l.negate ∉ values := by
    simp [List.find?_eq_none, ← OrderedSet.mem_def]
  have hbounds : ((OrderedSet.ofList values).toList.find? fun l => f.varCount ≤ l.index) = none ↔
      ∀ l ∈ values, l.var ≤ f.varCount := by
    simp only [List.find?_eq_none, ← OrderedSet.mem_def, OrderedSet.mem_ofList, decide_eq_true_eq,
      Nat.not_le]
    rfl
  have hclauses : (f.clauses.find? fun clause => !satisfies (.ofList values) clause) = none ↔
      ∀ clause ∈ f.clauses, satisfies (.ofList values) clause = true := by
    simp [List.find?_eq_none]
  rw [← hboth, ← hbounds, ← hclauses]
  unfold judgeModel
  constructor
  · intro h
    dsimp only at h
    split at h
    · cases h
    · rename_i hnone
      split at h
      · cases h
      · rename_i hnone'
        split at h
        · cases h
        · rename_i hnone''
          exact ⟨hnone, hnone', hnone''⟩
  · rintro ⟨hnone, hnone', hnone''⟩
    simp only [hnone, hnone', hnone'']

/-- Consistent literals that leave a clause open can be completed so that the clause is false: what
they leave open is decided against the clause. -/
theorem exists_total_not_satisfies (hconsistent : ∀ l ∈ values, l.negate ∉ values)
    (hwithin : ∀ l ∈ values, l.var ≤ f.varCount) {clause : Clause}
    (hdistinct : ∀ l ∈ clause, l.negate ∉ clause) (hopen : ∀ l ∈ clause, l ∉ values) :
    ∃ m : Assignment, m.Total f.varCount ∧ (∀ l ∈ values, l ∈ m)
      ∧ satisfies m clause = false := by
  let choice : Nat → Bool := fun i =>
    decide ((⟨i, true⟩ : Literal) ∈ values ∨ (⟨i, false⟩ : Literal) ∉ values
      ∧ (⟨i, true⟩ : Literal) ∉ clause)
  have hchoice : ∀ l ∈ values, choice l.index = l.positive := by
    rintro ⟨index, positive⟩ hl
    have hneg := hconsistent _ hl
    cases positive <;> simp_all [choice, Literal.negate]
  have hagainst : ∀ l ∈ clause, choice l.index ≠ l.positive := by
    rintro ⟨index, positive⟩ hl
    have hfree := hopen _ hl
    have hneg := hdistinct _ hl
    cases positive <;> simp_all [choice, Literal.negate]
  refine ⟨.ofChoice f.varCount choice, Assignment.total_ofChoice choice, fun l hl => ?_, ?_⟩
  · exact Assignment.mem_ofChoice.mpr ⟨hwithin l hl, hchoice l hl⟩
  · rw [Bool.eq_false_iff]
    intro hsat
    obtain ⟨l, hl, hm⟩ := satisfies_iff.mp hsat
    exact hagainst l hl (Assignment.mem_ofChoice.mp hm).2

theorem judgeModel_eq_success_iff_certifies (hf : f.Coherent) (hdistinct : f.DistinctVariables) :
    f.judgeModel values = .success ↔ f.Certifies values := by
  rw [judgeModel_eq_success_iff]
  constructor
  · rintro ⟨hconsistent, hwithin, hsat⟩
    refine ⟨hconsistent, hwithin, fun m hm hsub => (hf.sound m).mpr ⟨hm, fun clause hclause => ?_⟩⟩
    refine satisfies_mono (fun l _ hl => ?_) (hsat clause hclause)
    exact hsub l (OrderedSet.mem_ofList.mp hl)
  · intro h
    refine ⟨h.consistent, h.within, fun clause hclause => ?_⟩
    by_contra hunsat
    have hopen : ∀ l ∈ clause, l ∉ values := fun l hl hvalue =>
      hunsat (satisfies_iff.mpr ⟨l, hl, OrderedSet.mem_ofList.mpr hvalue⟩)
    obtain ⟨m, hm, hsub, hfalse⟩ := exists_total_not_satisfies h.consistent h.within
      (fun l hl => hdistinct.negate_not_mem hclause hl) hopen
    have hsat := ((hf.sound m).mp (h.extended m hm hsub)).2 clause hclause
    rw [hfalse] at hsat
    cases hsat

/-! ### Verdicts -/

theorem judge_eq_success_iff {answer : Satisfiability} :
    f.judge answer = .success ↔
      answer = .unsatisfiable ∧ f.satisfiable = false
        ∨ ∃ values, answer = .satisfiable values ∧ f.satisfiable = true
          ∧ f.judgeModel values = .success := by
  cases answer with
  | satisfiable values => by_cases h : f.satisfiable = true <;> simp [judge, h]
  | unsatisfiable => by_cases h : f.satisfiable = true <;> simp [judge, h]
  | unknown => simp [judge]

theorem check_eq_success_iff {output : String} :
    f.check output = .ok .success ↔
      ∃ answer, Gives (rows output) answer ∧ f.judge answer = .success := by
  simp only [← readSatisfiability_eq_ok_iff_gives, Formula.check]
  cases readSatisfiability output <;> simp [Except.map]

theorem check_eq_success_iff_certifies (hf : f.Coherent) (hdistinct : f.DistinctVariables)
    {output : String} :
    f.check output = .ok .success ↔
      (¬ ∃ m, f.IsModel m) ∧ Gives (rows output) .unsatisfiable
        ∨ (∃ m, f.IsModel m)
          ∧ ∃ values, Gives (rows output) (.satisfiable values) ∧ f.Certifies values := by
  rw [check_eq_success_iff, ← hf.satisfiable_iff, Bool.not_eq_true]
  simp only [judge_eq_success_iff, judgeModel_eq_success_iff_certifies hf hdistinct]
  constructor
  · rintro ⟨answer, hgives, ⟨rfl, hunsat⟩ | ⟨values, rfl, hsat, hcertifies⟩⟩
    · exact .inl ⟨hunsat, hgives⟩
    · exact .inr ⟨hsat, values, hgives, hcertifies⟩
  · rintro (⟨hunsat, hgives⟩ | ⟨hsat, values, hgives, hcertifies⟩)
    · exact ⟨_, hgives, .inl ⟨rfl, hunsat⟩⟩
    · exact ⟨_, hgives, .inr ⟨values, rfl, hsat, hcertifies⟩⟩

/-- A model stands for itself. -/
theorem IsModel.certifies (hf : f.Coherent) {m : Assignment} (hm : f.IsModel m) :
    f.Certifies m.toList where
  consistent := hm.1.consistent
  within l hl := hm.1.within l hl
  extended m' hm' hsub := by
    refine (hf.sound m').mpr ⟨hm', fun clause hclause => ?_⟩
    exact satisfies_mono (fun l _ hl => hsub l hl) (hm.2 clause hclause)

end Formula

/-! ### Answers made of a model -/

/-- The answer that gives an assignment as the payload of the models writes it. -/
def modelAnswer (m : Assignment) : String :=
  String.ofList (unlines
    [Announcement.satisfiable.line, ['v', ' '] ++ Dimacs.zeroTerminated m.toList])

theorem rows_modelAnswer (m : Assignment) :
    rows (modelAnswer m) =
      [Announcement.satisfiable.line, ['v', ' '] ++ Dimacs.zeroTerminated m.toList] := by
  have hnewline : ∀ row ∈ [Announcement.satisfiable.line,
      ['v', ' '] ++ Dimacs.zeroTerminated m.toList], '\n' ∉ row := by
    have hstatus : '\n' ∉ Announcement.satisfiable.line := by decide
    simp [hstatus, Dimacs.newline_not_mem_zeroTerminated]
  have hstatus : trimEnd Announcement.satisfiable.line = Announcement.satisfiable.line := by decide
  have hvalues : trimEnd (['v', ' '] ++ Dimacs.zeroTerminated m.toList) =
      ['v', ' '] ++ Dimacs.zeroTerminated m.toList := by
    rw [Dimacs.zeroTerminated, ← List.append_assoc]
    exact trimEnd_concat rfl
  have hrelevant : isRelevant Announcement.satisfiable.line = true := by decide
  rw [rows_eq_filter, modelAnswer, String.toList_ofList, lines_unlines hnewline]
  simp only [List.cons_append, List.nil_append, List.map_cons, List.map_nil, hstatus]
  simp only [List.cons_append, List.nil_append] at hvalues
  rw [hvalues, List.filter_cons_of_pos hrelevant, List.filter_cons_of_pos rfl]
  rfl

theorem spells_zeroTerminated {ls : List Literal} (hrange : ∀ l ∈ ls, l.var < Numeral.capacity 63) :
    Spells (wordsBy isAsciiBlank (Dimacs.zeroTerminated ls)) ls := by
  rw [Dimacs.words_zeroTerminated]
  induction ls with
  | nil => exact .zero rfl
  | cons l ls ih =>
      obtain ⟨hl, hrest⟩ := List.forall_mem_cons.mp hrange
      exact .literal (Literal.signed?_text hl) (ih hrest)

theorem gives_modelAnswer {m : Assignment} (hrange : ∀ l ∈ m, l.var < Numeral.capacity 63) :
    Gives (rows (modelAnswer m)) (.satisfiable m.toList) := by
  have hvalue : IsValueLine (['v', ' '] ++ Dimacs.zeroTerminated m.toList) := .inr ⟨_, rfl⟩
  have hwords : valueWords (['v', ' '] ++ Dimacs.zeroTerminated m.toList) =
      wordsBy isAsciiBlank (Dimacs.zeroTerminated m.toList) := wordsBy_cons rfl _
  rw [rows_modelAnswer]
  refine .satisfiable ⟨[], _, rfl, rfl, List.forall_mem_singleton.mpr hvalue⟩ ?_
  rw [List.nil_append, List.flatMap_singleton, hwords]
  exact spells_zeroTerminated hrange

/-! ### Formulas that have grown -/

namespace Formula

end Formula

end SolverAudit
