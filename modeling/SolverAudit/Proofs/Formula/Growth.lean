import Mathlib.Data.List.Nodup
import Mathlib.Logic.Relation
import SolverAudit.Formula.Growth
import SolverAudit.Proofs.Formula.Mask
import SolverAudit.Proofs.Result
import SolverAudit.Proofs.Tree.Script

/-!
# What growing formulas can do

Whatever the random choices, and whether or not the growth applies, a formula grows in one of three
ways: by a variable, by a unit clause of a literal that has none, or by a literal in a clause that
does not mention its variable. The last of these is the only one that looks at all assignments, so
it only happens to formulas with fewer variables than a mask has bits.
-/

namespace SolverAudit.Formula

/-- One of the growths of formulas, with some random choices, takes one formula to the other. -/
def Grows (f g : Formula) : Prop :=
  ∃ (σ : Type) (_ : Source σ), (generator : Generator σ Formula).Grows f g

/-- The formula with one more literal in the clause at a place, however many variables it has. -/
def widen (f : Formula) (place : Nat) (l : Literal) : Formula :=
  let clauses := f.clauses.modify place (· ++ [l])
  { f with clauses, models := f.models.union (.ofList (solutions f.varCount clauses)) }

inductive Enlarged (f : Formula) : Formula → Prop where
  | addVariable : Enlarged f f.addVariable
  | addUnit {l : Literal} (hl : l.index < f.varCount) (hfree : [l] ∉ f.clauses) :
      Enlarged f (f.addUnit l)
  | widen {place : Nat} {clause : Clause} {l : Literal} (hclause : f.clauses[place]? = some clause)
      (hl : l.index < f.varCount) (habsent : ∀ other ∈ clause, other.index ≠ l.index) :
      Enlarged f (f.widen place l)

variable {f g : Formula}

section

variable {place : Nat} {l : Literal}

theorem widen?_of_lt (hcount : f.varCount < 128) : f.widen? place l = .ok (f.widen place l) := by
  rw [widen?, solutions?_of_lt hcount]
  rfl

theorem widen?_of_le (hcount : 128 ≤ f.varCount) : f.widen? place l = .error .noSuchPlace := by
  rw [widen?, solutions?_of_le hcount]
  rfl

theorem widen?_eq_ok : f.widen? place l = .ok g ↔ f.varCount < 128 ∧ f.widen place l = g := by
  rcases Nat.lt_or_ge f.varCount 128 with hcount | hcount
  · rw [widen?_of_lt hcount, Except.ok.injEq, and_iff_right hcount]
  · rw [widen?_of_le hcount]
    constructor
    · intro h
      cases h
    · exact fun h => absurd h.1 (Nat.not_lt_of_le hcount)

end

theorem mem_freeLiterals {l : Literal} :
    l ∈ f.freeLiterals ↔ l.index < f.varCount ∧ [l] ∉ f.clauses := by
  simp [freeLiterals, literals, mem_literals]

theorem mem_absentFrom {clause : Clause} {i : Nat} :
    i ∈ f.absentFrom clause ↔ i < f.varCount ∧ ∀ l ∈ clause, l.index ≠ i := by
  simp [absentFrom]

theorem mem_openClauses {place : Nat} {absent : List Nat} :
    (place, absent) ∈ f.openClauses ↔
      ∃ clause, f.clauses[place]? = some clause ∧ f.absentFrom clause = absent ∧ absent ≠ [] := by
  simp only [openClauses, List.mem_filter, List.mem_map, Prod.exists, Prod.mk.injEq,
    List.mem_zipIdx_iff_getElem?, Bool.not_eq_true', List.isEmpty_eq_false_iff]
  constructor
  · rintro ⟨⟨clause, _, hclause, rfl, habsent⟩, hne⟩
    exact ⟨clause, hclause, habsent, hne⟩
  · rintro ⟨clause, hclause, habsent, hne⟩
    exact ⟨⟨clause, place, hclause, rfl, habsent⟩, hne⟩

section

variable {σ : Type}

theorem enlarged_of_newVariable (h : (newVariable : Growth σ Formula).Takes f g) :
    Enlarged f g := by
  obtain ⟨before, after, hrun⟩ := h
  obtain ⟨rfl, -⟩ := Attempt.run_pure_eq_ok.mp hrun
  exact .addVariable

variable [Source σ]

theorem exists_of_newClause (h : (newClause : Growth σ Formula).Takes f g) :
    ∃ l, l.index < f.varCount ∧ [l] ∉ f.clauses ∧ g = f.addUnit l := by
  obtain ⟨before, after, hrun⟩ := h
  simp only [newClause] at hrun
  split at hrun
  · exact absurd hrun Attempt.run_throw_eq_ok
  · rename_i first others hfree
    obtain ⟨l, between, hchoice, hrest⟩ := Attempt.run_bind_eq_ok.mp hrun
    obtain ⟨rfl, -⟩ := Context.run_choose_eq_ok.mp hchoice
    obtain ⟨rfl, -⟩ := Attempt.run_pure_eq_ok.mp hrest
    have hpicked := Source.mem_pick first others before.source
    rw [← hfree] at hpicked
    obtain ⟨hl, hunit⟩ := mem_freeLiterals.mp hpicked
    exact ⟨_, hl, hunit, rfl⟩

/-- The clause is chosen among those that lack a variable, then the variable, then its side. -/
theorem run_newLiteral_of_picks {first : Nat × List Nat} {others : List (Nat × List Nat)}
    {place index₁ index : Nat} {indices : List Nat} {positive : Bool} {early middle late later : σ}
    (hcount : f.varCount < 128) (hcandidates : f.openClauses = first :: others)
    (hclause : Source.pick first others early = ((place, index₁ :: indices), middle))
    (hindex : Source.pick index₁ indices middle = (index, late))
    (hcoin : Source.coin late = (positive, later)) (registry : Registry) :
    (newLiteral.grow f).run ⟨early, registry⟩ =
      (.ok (f.widen place ⟨index, positive⟩), ⟨later, registry⟩) := by
  simp only [newLiteral, hcandidates, Attempt.run_bind, Context.run_choose, hclause, hindex, hcoin,
    widen?_of_lt hcount]
  rfl

/-- Any literal of a variable that a clause does not mention may be added to this clause. -/
theorem offers_widen (hfree : Source.Free σ) (hcount : f.varCount < 128) {place : Nat}
    {clause : Clause} {l : Literal} (hclause : f.clauses[place]? = some clause)
    (hl : l.index < f.varCount) (habsent : ∀ other ∈ clause, other.index ≠ l.index)
    (registry : Registry) :
    (newLiteral : Growth σ Formula).Offers registry f (f.widen place l) := by
  have hindex : l.index ∈ f.absentFrom clause := mem_absentFrom.mpr ⟨hl, habsent⟩
  have hplace : (place, f.absentFrom clause) ∈ f.openClauses :=
    mem_openClauses.mpr ⟨clause, hclause, rfl, List.ne_nil_of_mem hindex⟩
  obtain ⟨index₁, indices, hindices⟩ := List.exists_cons_of_ne_nil (List.ne_nil_of_mem hindex)
  obtain ⟨first, others, hcandidates⟩ := List.exists_cons_of_ne_nil (List.ne_nil_of_mem hplace)
  rw [hindices] at hindex hplace
  rw [hcandidates] at hplace
  -- The last choice is settled first, as a free source goes on to any other one.
  obtain ⟨later⟩ := hfree.inhabited
  obtain ⟨late, hcoin⟩ := hfree.coin l.positive later
  obtain ⟨middle, hpick⟩ := hfree.exists_pick hindex late
  obtain ⟨early, hpick'⟩ := hfree.exists_pick hplace middle
  exact ⟨early, _, run_newLiteral_of_picks hcount hcandidates hpick' hpick hcoin registry⟩

theorem exists_of_newLiteral (h : (newLiteral : Growth σ Formula).Takes f g) :
    f.varCount < 128
      ∧ ∃ place clause l, f.clauses[place]? = some clause ∧ l.index < f.varCount
        ∧ (∀ other ∈ clause, other.index ≠ l.index) ∧ g = f.widen place l := by
  obtain ⟨before, after, hrun⟩ := h
  simp only [newLiteral] at hrun
  split at hrun
  · exact absurd hrun Attempt.run_throw_eq_ok
  · rename_i first others hopen
    obtain ⟨⟨place, absent⟩, between, hchoice, hrest⟩ := Attempt.run_bind_eq_ok.mp hrun
    have hpicked := Source.mem_pick first others before.source
    rw [(Context.run_choose_eq_ok.mp hchoice).1, ← hopen] at hpicked
    obtain ⟨clause, hclause, habsent, -⟩ := mem_openClauses.mp hpicked
    dsimp only at hrest
    split at hrest
    · exact absurd hrest Attempt.run_throw_eq_ok
    · rename_i first others
      obtain ⟨index, _, hindex, hrest⟩ := Attempt.run_bind_eq_ok.mp hrest
      obtain ⟨positive, _, -, hrest⟩ := Attempt.run_bind_eq_ok.mp hrest
      obtain ⟨hcount, rfl⟩ := widen?_eq_ok.mp (mapError_eq_ok.mp (Prod.mk.inj hrest).1)
      have hpicked := Source.mem_pick first others between.source
      rw [(Context.run_choose_eq_ok.mp hindex).1, ← habsent] at hpicked
      obtain ⟨hl, hother⟩ := mem_absentFrom.mp hpicked
      exact ⟨hcount, place, clause, ⟨index, positive⟩, hclause, hl, hother, rfl⟩

end

theorem Grows.enlarged (h : Grows f g) : Enlarged f g := by
  obtain ⟨σ, _, growth, hgrowth, htakes⟩ := h
  simp only [generator, List.mem_cons, List.not_mem_nil, or_false] at hgrowth
  rcases hgrowth with rfl | rfl | rfl
  · exact enlarged_of_newVariable htakes
  · obtain ⟨l, hl, hfree, rfl⟩ := exists_of_newClause htakes
    exact .addUnit hl hfree
  · obtain ⟨-, place, clause, l, hclause, hl, habsent, rfl⟩ := exists_of_newLiteral htakes
    exact .widen hclause hl habsent

/-! ### The clauses of a larger formula -/

theorem exists_clauses_widen {place : Nat} {clause : Clause} (l : Literal)
    (hclause : f.clauses[place]? = some clause) :
    ∃ before after, f.clauses = before ++ clause :: after
      ∧ (f.widen place l).clauses = before ++ (clause ++ [l]) :: after := by
  obtain ⟨hplace, hget⟩ := List.getElem?_eq_some_iff.mp hclause
  obtain ⟨before, clause', after, hsplit, hlength, hwiden⟩ :=
    List.exists_of_modify (· ++ [l]) hplace
  obtain rfl : clause' = clause := by
    rw [← List.getElem_of_append hsplit hlength]
    exact hget
  exact ⟨before, after, hsplit, hwiden⟩

/-- Widening keeps all clauses but one, which gets the literal at its end. -/
theorem mem_clauses_widen {place : Nat} {l : Literal} {clause c : Clause}
    (hclause : f.clauses[place]? = some clause) (hc : c ∈ (f.widen place l).clauses) :
    c ∈ f.clauses ∨ c = clause ++ [l] := by
  obtain ⟨before, after, hf, hwiden⟩ := exists_clauses_widen l hclause
  rw [hwiden, List.mem_append, List.mem_cons] at hc
  rw [hf, List.mem_append, List.mem_cons]
  tauto

def DistinctVariables (f : Formula) : Prop :=
  ∀ clause ∈ f.clauses, (clause.map Literal.index).Nodup

theorem distinctVariables_root : root.DistinctVariables :=
  fun _ hclause => absurd hclause List.not_mem_nil

theorem DistinctVariables.enlarge (hf : f.DistinctVariables) (h : Enlarged f g) :
    g.DistinctVariables := by
  cases h with
  | addVariable => exact hf
  | addUnit hl hfree =>
      intro clause hclause
      rcases List.mem_append.mp hclause with hclause | hclause
      · exact hf clause hclause
      · rw [List.mem_singleton.mp hclause]
        exact List.nodup_singleton _
  | @widen place clause l hclause hl habsent =>
      intro c hc
      rcases mem_clauses_widen hclause hc with hc | rfl
      · exact hf c hc
      · have hnew : l.index ∉ clause.map Literal.index := by
          rintro hmem
          obtain ⟨other, hother, hsame⟩ := List.mem_map.mp hmem
          exact habsent other hother hsame
        rw [List.map_append, List.map_singleton, ← List.concat_eq_append]
        exact (hf clause (List.mem_of_getElem? hclause)).concat hnew

theorem DistinctVariables.grown (hf : f.DistinctVariables) (h : Relation.ReflTransGen Grows f g) :
    g.DistinctVariables := by
  induction h with
  | refl => exact hf
  | tail _ hgrows ih => exact ih.enlarge hgrows.enlarged

theorem DistinctVariables.negate_not_mem (hf : f.DistinctVariables) {clause : Clause}
    (hclause : clause ∈ f.clauses) {l : Literal} (hl : l ∈ clause) : l.negate ∉ clause := by
  intro hneg
  have hsame : l = l.negate := List.inj_on_of_nodup_map (hf clause hclause) hl hneg rfl
  have hpositive : l.positive = !l.positive := congrArg Literal.positive hsame
  simp at hpositive

end SolverAudit.Formula
