import SolverAudit.Proofs.Formula.Weighted

/-!
# Sizes of growing formulas

Every growth makes a formula larger by one: by a variable, by a unit clause or by a literal in a
clause. The clauses stay without repetitions, and no two unit clauses have the same literal, since a
clause that gets wider is a unit clause no more and a new one has a literal that is free.
-/

namespace SolverAudit

namespace Formula

/-- The literals of the unit clauses, one for each of them. -/
def unitLiterals (f : Formula) : List Literal :=
  (f.clauses.filter fun clause => clause.length = 1).flatten

def literalCount (f : Formula) : Nat := (f.clauses.map List.length).sum

structure Clean (f : Formula) : Prop where
  nonempty : ∀ clause ∈ f.clauses, clause ≠ []
  within : ∀ clause ∈ f.clauses, ∀ l ∈ clause, 1 ≤ l.var ∧ l.var ≤ f.varCount
  distinct : f.DistinctVariables
  units : f.unitLiterals.Nodup

variable {f g : Formula}

theorem mem_unitLiterals {l : Literal} : l ∈ f.unitLiterals ↔ [l] ∈ f.clauses := by
  simp only [unitLiterals, List.mem_flatten, List.mem_filter, decide_eq_true_eq]
  constructor
  · rintro ⟨clause, ⟨hclause, hlength⟩, hl⟩
    obtain ⟨other, rfl⟩ := List.length_eq_one_iff.mp hlength
    rwa [List.mem_singleton.mp hl]
  · exact fun hclause => ⟨[l], ⟨hclause, rfl⟩, List.mem_singleton_self l⟩

theorem unitLiterals_addUnit (l : Literal) :
    (f.addUnit l).unitLiterals = f.unitLiterals ++ [l] := by
  simp [unitLiterals, addUnit]

/-- A clause that is not empty is no unit clause when it gets wider. -/
theorem unitLiterals_widen {place : Nat} {clause : Clause} {l : Literal}
    (hclause : f.clauses[place]? = some clause) (hne : clause ≠ []) :
    (f.widen place l).unitLiterals.Sublist f.unitLiterals := by
  obtain ⟨before, after, hf, hwiden⟩ := exists_clauses_widen l hclause
  have hlength : ¬ (clause ++ [l]).length = 1 := by simpa using hne
  have hkept : (f.widen place l).unitLiterals =
      ((before ++ after).filter fun clause => clause.length = 1).flatten := by
    rw [unitLiterals, hwiden, List.filter_append, List.filter_append,
      List.filter_cons_of_neg (by simpa using hlength)]
  rw [hkept, unitLiterals, hf]
  exact (((List.Sublist.refl before).append (List.sublist_cons_self clause after)).filter _).flatten

/-! ### What a growth keeps -/

theorem clean_root : root.Clean where
  nonempty _ hclause := absurd hclause List.not_mem_nil
  within _ hclause := absurd hclause List.not_mem_nil
  distinct := distinctVariables_root
  units := List.nodup_nil

/-- A clause of the larger formula is one of before, or a literal makes it out of one or of none. -/
theorem Enlarged.mem_clauses (h : Enlarged f g) {clause : Clause} (hclause : clause ∈ g.clauses) :
    clause ∈ f.clauses
      ∨ ∃ rest l, clause = rest ++ [l] ∧ (rest = [] ∨ rest ∈ f.clauses) ∧ l.index < f.varCount := by
  cases h with
  | addVariable => exact .inl hclause
  | addUnit hl hfree =>
      rcases List.mem_append.mp hclause with hclause | hclause
      · exact .inl hclause
      · exact .inr ⟨[], _, List.mem_singleton.mp hclause, .inl rfl, hl⟩
  | widen hwider hl habsent =>
      rcases mem_clauses_widen hwider hclause with hclause | rfl
      · exact .inl hclause
      · exact .inr ⟨_, _, rfl, .inr (List.mem_of_getElem? hwider), hl⟩

theorem Enlarged.nodup_unitLiterals (h : Enlarged f g)
    (hnonempty : ∀ clause ∈ f.clauses, clause ≠ []) (hunits : f.unitLiterals.Nodup) :
    g.unitLiterals.Nodup := by
  cases h with
  | addVariable => exact hunits
  | addUnit hl hfree =>
      rw [unitLiterals_addUnit, ← List.concat_eq_append]
      exact hunits.concat fun hpinned => hfree (mem_unitLiterals.mp hpinned)
  | widen hclause hl habsent =>
      have hne := hnonempty _ (List.mem_of_getElem? hclause)
      exact (unitLiterals_widen hclause hne).nodup hunits

theorem Clean.enlarge (hf : f.Clean) (h : Enlarged f g) : g.Clean where
  nonempty clause hclause := by
    rcases h.mem_clauses hclause with hclause | ⟨rest, l, rfl, -, -⟩
    · exact hf.nonempty clause hclause
    · exact List.append_ne_nil_of_right_ne_nil rest (List.cons_ne_nil l [])
  within clause hclause l hl := by
    have hbefore : 1 ≤ l.var ∧ l.var ≤ f.varCount := by
      rcases h.mem_clauses hclause with hclause | ⟨rest, last, rfl, hrest, hlast⟩
      · exact hf.within clause hclause l hl
      · rcases List.mem_append.mp hl with hl | hl
        · rcases hrest with rfl | hrest
          · exact absurd hl List.not_mem_nil
          · exact hf.within rest hrest l hl
        · rw [List.mem_singleton.mp hl]
          exact ⟨Nat.le_add_left 1 _, hlast⟩
    exact ⟨hbefore.1, hbefore.2.trans h.varCount_bounds.1⟩
  distinct := hf.distinct.enlarge h
  units := h.nodup_unitLiterals hf.nonempty hf.units

theorem Enlarged.size_eq (h : Enlarged f g) :
    g.varCount + g.literalCount = f.varCount + f.literalCount + 1 := by
  cases h with
  | addVariable => exact Nat.succ_add f.varCount f.literalCount
  | @addUnit l hl hfree => simp [literalCount, Formula.addUnit, Nat.add_assoc]
  | @widen place clause l hclause hl habsent =>
      obtain ⟨before, after, hf, hwiden⟩ := exists_clauses_widen l hclause
      have hvars : (f.widen place l).varCount = f.varCount := rfl
      simp only [literalCount, hf, hwiden, hvars, List.map_append, List.map_cons, List.sum_append,
        List.sum_cons, List.length_append, List.length_singleton]
      omega

end Formula

end SolverAudit
