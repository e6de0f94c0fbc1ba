import Mathlib.Logic.Relation
import SolverAudit.Proofs.Formula.Assignment
import SolverAudit.Proofs.Formula.Growth
import SolverAudit.Proofs.Tree.Script

/-!
# The models of a growing formula

Each way of enlarging a formula brings its models up to date by a rule of its own: a new variable
splits every model, a unit clause filters them, a wider clause adds the assignments found by a new
enumeration. The stored models stay what they are for a formula built from scratch, namely all total
assignments that satisfy every clause. Splitting is only right if no clause mentions the variable
that is about to be added, so the invariant also bounds the literals of the clauses.
-/

namespace SolverAudit.Formula

/-- A total assignment that satisfies every clause. -/
def IsModel (f : Formula) (m : Assignment) : Prop :=
  m.Total f.varCount ∧ ∀ clause ∈ f.clauses, satisfies m clause = true

/-- The formulas from which growing may start: the root and those made of given clauses. -/
inductive Initial : Formula → Prop where
  | root : Initial root
  | ofClauses {varCount : Nat} {clauses : List Clause} {f : Formula}
      (h : ofClauses varCount clauses = .ok f) : Initial f

/-- The clauses only mention variables of the formula, whose models are the stored ones. -/
structure Coherent (f : Formula) : Prop where
  within : ∀ clause ∈ f.clauses, ∀ l ∈ clause, l.index < f.varCount
  sound : f.Sound

variable {f g : Formula}

/-! ### The start -/

theorem coherent_root : root.Coherent where
  within := by simp [root]
  sound m := by
    simp only [root, OrderedSet.mem_ofList, List.mem_singleton, List.not_mem_nil, false_implies,
      implies_true, and_true]
    constructor
    · rintro rfl
      exact ⟨by simp, by simp, by simp⟩
    · intro hm
      refine OrderedSet.ext fun l => ⟨fun hl => ?_, by simp⟩
      exact absurd (hm.within l hl) (Nat.not_lt_zero _)

/-- Given clauses make a formula if they are about its variables, of which there are fewer than a
mask has bits. -/
theorem ofClauses_eq_ok {varCount : Nat} {clauses : List Clause} :
    ofClauses varCount clauses = .ok f ↔
      varCount < 128 ∧ (∀ clause ∈ clauses, ∀ l ∈ clause, l.index < varCount)
        ∧ ⟨varCount, clauses, .ofList (solutions varCount clauses)⟩ = f := by
  unfold ofClauses
  split
  · rename_i l hfind
    obtain ⟨clause, hclause, hl⟩ := List.mem_flatten.mp (List.mem_of_find?_eq_some hfind)
    have hbeyond := List.find?_some hfind
    constructor
    · intro h
      cases h
    · rintro ⟨-, hwithin, -⟩
      have hindex := hwithin clause hclause l hl
      simp only [decide_eq_true_eq] at hbeyond
      omega
  · rename_i hfind
    have hwithin : ∀ clause ∈ clauses, ∀ l ∈ clause, l.index < varCount := by
      intro clause hclause l hl
      simpa using List.find?_eq_none.mp hfind l (List.mem_flatten.mpr ⟨clause, hclause, hl⟩)
    rw [and_iff_right hwithin]
    rcases Nat.lt_or_ge varCount 128 with hcount | hcount
    · rw [solutions?_of_lt hcount, and_iff_right hcount]
      change (Except.ok _ : Except Failure Formula) = .ok f ↔ _
      rw [Except.ok.injEq]
    · rw [solutions?_of_le hcount]
      constructor
      · intro h
        cases h
      · exact fun h => absurd h.1 (Nat.not_lt_of_le hcount)

theorem coherent_of_ofClauses {varCount : Nat} {clauses : List Clause}
    (h : ofClauses varCount clauses = .ok f) : f.Coherent := by
  obtain ⟨-, hwithin, rfl⟩ := ofClauses_eq_ok.mp h
  exact ⟨hwithin, fun m => OrderedSet.mem_ofList.trans mem_solutions⟩

theorem Initial.coherent (h : f.Initial) : f.Coherent := by
  cases h with
  | root => exact coherent_root
  | ofClauses h => exact coherent_of_ofClauses h

theorem satisfiable_iff : f.satisfiable = true ↔ ∃ m, m ∈ f.models := by
  rw [satisfiable, OrderedSet.isEmpty, Bool.not_eq_true']
  exact List.isEmpty_eq_false_iff_exists_mem

theorem Coherent.satisfiable_iff (hf : f.Coherent) : f.satisfiable = true ↔ ∃ m, f.IsModel m :=
  Formula.satisfiable_iff.trans (exists_congr hf.sound)

/-! ### The three ways to grow -/

/-- Splitting the models on a variable that no clause mentions gives the models again. -/
theorem Coherent.addVariable (hf : f.Coherent) : f.addVariable.Coherent where
  within clause hclause l hl := Nat.lt_succ_of_lt (hf.within clause hclause l hl)
  sound m := by
    have hsplit : m ∈ f.addVariable.models ↔
        ∃ m' ∈ f.models, ∃ positive, m = m'.insert ⟨f.varCount, positive⟩ := by
      simp only [Formula.addVariable, OrderedSet.mem_ofList, List.mem_flatMap, List.mem_cons,
        List.not_mem_nil, or_false, ← OrderedSet.mem_def, Bool.exists_bool]
    rw [hsplit]
    change _ ↔ m.Total (f.varCount + 1) ∧ ∀ clause ∈ f.clauses, satisfies m clause = true
    constructor
    · rintro ⟨m', hm', positive, rfl⟩
      obtain ⟨htotal, hsat⟩ := (hf.sound m').mp hm'
      refine ⟨htotal.insert positive, fun clause hclause => ?_⟩
      exact satisfies_mono (fun l _ hl => OrderedSet.mem_insert.mpr (.inr hl)) (hsat clause hclause)
    · rintro ⟨htotal, hsat⟩
      obtain ⟨positive, hm⟩ := htotal.eq_insert_restrict
      refine ⟨_, (hf.sound _).mpr ⟨htotal.restrict, fun clause hclause => ?_⟩, positive, hm⟩
      refine satisfies_mono (fun l hl hmem => ?_) (hsat clause hclause)
      exact OrderedSet.mem_filter.mpr ⟨hmem, by simpa using hf.within clause hclause l hl⟩

theorem Coherent.addUnit (hf : f.Coherent) {l : Literal} (hl : l.index < f.varCount) :
    (f.addUnit l).Coherent where
  within clause hclause other hother := by
    rcases List.mem_append.mp hclause with hclause | hclause
    · exact hf.within clause hclause other hother
    · rw [List.mem_singleton.mp hclause, List.mem_singleton] at hother
      exact hother ▸ hl
  sound m := by
    have hunit : satisfies m [l] = true ↔ l ∈ m := by simp [satisfies_iff]
    change m ∈ f.models.filter (l ∈ ·) ↔
      m.Total f.varCount ∧ ∀ clause ∈ f.clauses ++ [[l]], satisfies m clause = true
    rw [OrderedSet.mem_filter, hf.sound m, decide_eq_true_iff, List.forall_mem_append,
      List.forall_mem_singleton, hunit, and_assoc]

/-- A wider clause loses no model, and the enumeration finds those that it wins. -/
theorem Coherent.widen (hf : f.Coherent) {place : Nat} {clause : Clause} {l : Literal}
    (hclause : f.clauses[place]? = some clause) (hl : l.index < f.varCount) :
    (f.widen place l).Coherent where
  within c hc other hother := by
    rcases mem_clauses_widen hclause hc with hc | rfl
    · exact hf.within c hc other hother
    · rcases List.mem_append.mp hother with hother | hother
      · exact hf.within clause (List.mem_of_getElem? hclause) other hother
      · exact List.mem_singleton.mp hother ▸ hl
  sound m := by
    change m ∈ f.models.union (.ofList (solutions f.varCount (f.widen place l).clauses)) ↔
      m.Total f.varCount ∧ ∀ c ∈ (f.widen place l).clauses, satisfies m c = true
    rw [OrderedSet.mem_union, OrderedSet.mem_ofList, mem_solutions, or_iff_right_of_imp]
    intro hm
    obtain ⟨htotal, hsat⟩ := (hf.sound m).mp hm
    refine ⟨htotal, fun c hc => ?_⟩
    rcases mem_clauses_widen hclause hc with hc | rfl
    · exact hsat c hc
    · obtain ⟨other, hother, hmem⟩ := satisfies_iff.mp (hsat clause (List.mem_of_getElem? hclause))
      exact satisfies_iff.mpr ⟨other, List.mem_append_left _ hother, hmem⟩

theorem Coherent.enlarge (hf : f.Coherent) (h : Enlarged f g) : g.Coherent := by
  cases h with
  | addVariable => exact hf.addVariable
  | addUnit hl hfree => exact hf.addUnit hl
  | widen hclause hl habsent => exact hf.widen hclause hl

theorem Coherent.grown (hf : f.Coherent) (h : Relation.ReflTransGen Grows f g) : g.Coherent := by
  induction h with
  | refl => exact hf
  | tail _ hgrows ih => exact ih.enlarge hgrows.enlarged

end SolverAudit.Formula
