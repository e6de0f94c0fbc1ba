import Mathlib.Algebra.Group.Nat.Defs
import Mathlib.Data.Nat.Init
import Mathlib.Tactic.Common
import SolverAudit.Formula.Assignment

/-!
# Total assignments

The assignments of any number of variables are numbered by the binary numerals whose digits, the
last one first, tell which variables are true. They are exactly the total ones: a total assignment
is determined by which variables it makes true, and every choice of true variables is the numeral of
some place in the list. So the solutions of a list of clauses are the total assignments that satisfy
each of them. This is what the masks of the count are measured against.
-/

namespace SolverAudit

/-- The assignment in which a variable is true exactly when the bit of its place is set. -/
def assignment (varCount bits : Nat) : Assignment :=
  .ofList ((List.range varCount).map fun i => ⟨i, bits.testBit i⟩)

/-- All assignments, the one without true variables first. -/
def assignments (varCount : Nat) : List Assignment :=
  (List.range (2 ^ varCount)).map (assignment varCount)

def solutions (varCount : Nat) (clauses : List Clause) : List Assignment :=
  (assignments varCount).filter fun m => clauses.all (satisfies m)

/-- The assignment that makes exactly the chosen variables true. -/
def Assignment.ofChoice (varCount : Nat) (choice : Nat → Bool) : Assignment :=
  .ofList ((List.range varCount).map fun i => ⟨i, choice i⟩)

namespace Assignment

variable {varCount : Nat} {m : Assignment}

theorem mem_ofChoice {choice : Nat → Bool} {l : Literal} :
    l ∈ ofChoice varCount choice ↔ l.index < varCount ∧ choice l.index = l.positive := by
  obtain ⟨index, positive⟩ := l
  simp only [ofChoice, OrderedSet.mem_ofList, List.mem_map, List.mem_range, Literal.mk.injEq]
  constructor
  · rintro ⟨i, hi, rfl, hchoice⟩
    exact ⟨hi, hchoice⟩
  · rintro ⟨hindex, hchoice⟩
    exact ⟨index, hindex, rfl, hchoice⟩

theorem ofChoice_congr {choice choice' : Nat → Bool}
    (hsame : ∀ i < varCount, choice i = choice' i) :
    ofChoice varCount choice = ofChoice varCount choice' := by
  apply OrderedSet.ext
  intro l
  rw [mem_ofChoice, mem_ofChoice]
  exact and_congr_right fun hl => by rw [hsame l.index hl]

theorem total_ofChoice (choice : Nat → Bool) : (ofChoice varCount choice).Total varCount where
  within l hl := (mem_ofChoice.mp hl).1
  decided i hi := ⟨choice i, mem_ofChoice.mpr ⟨hi, rfl⟩⟩
  consistent l hl hneg := by
    have hsame := (mem_ofChoice.mp hl).2.symm.trans (mem_ofChoice.mp hneg).2
    simp [Literal.negate] at hsame

theorem Total.negate_mem_iff (hm : m.Total varCount) {l : Literal} (hl : l.index < varCount) :
    l.negate ∈ m ↔ l ∉ m := by
  constructor
  · intro hneg hmem
    exact hm.consistent l hmem hneg
  · intro hmissing
    obtain ⟨positive, hmem⟩ := hm.decided l.index hl
    by_cases hsame : positive = l.positive
    · subst hsame
      exact absurd hmem hmissing
    · rw [Literal.negate, ← Bool.eq_not_of_ne hsame]
      exact hmem

theorem Total.eq_ofChoice (hm : m.Total varCount) :
    m = ofChoice varCount fun i => decide (⟨i, true⟩ ∈ m) := by
  apply OrderedSet.ext
  rintro ⟨index, positive⟩
  rw [mem_ofChoice]
  by_cases hindex : index < varCount
  · have hflip := hm.negate_mem_iff (l := ⟨index, true⟩) hindex
    cases positive <;> simp_all [Literal.negate]
  · simp only [hindex, false_and, iff_false]
    exact fun hmem => hindex (hm.within _ hmem)

theorem Total.last_not_mem (hm : m.Total varCount) (b : Bool) : (⟨varCount, b⟩ : Literal) ∉ m :=
  fun hb => Nat.lt_irrefl varCount (hm.within _ hb)

theorem Total.insert (hm : m.Total varCount) (positive : Bool) :
    Assignment.Total (varCount + 1) (m.insert ⟨varCount, positive⟩) := by
  constructor
  · intro l hl
    rcases OrderedSet.mem_insert.mp hl with rfl | hl
    · exact Nat.lt_succ_self varCount
    · exact Nat.lt_succ_of_lt (hm.within l hl)
  · intro i hi
    rcases Nat.lt_succ_iff_lt_or_eq.mp hi with hi | rfl
    · obtain ⟨b, hb⟩ := hm.decided i hi
      exact ⟨b, OrderedSet.mem_insert.mpr (.inr hb)⟩
    · exact ⟨positive, OrderedSet.mem_insert.mpr (.inl rfl)⟩
  · intro l hl hneg
    rcases OrderedSet.mem_insert.mp hl with rfl | hl
    · rcases OrderedSet.mem_insert.mp hneg with hneg | hneg
      · simp [Literal.negate] at hneg
      · exact hm.last_not_mem _ hneg
    · rcases OrderedSet.mem_insert.mp hneg with hneg | hneg
      · have hl' : l = ⟨varCount, !positive⟩ := by
          rw [← l.negate_negate, hneg, Literal.negate]
        exact hm.last_not_mem _ (hl' ▸ hl)
      · exact hm.consistent l hl hneg

/-- The last variable can be taken away again from assignments to which it was added. -/
theorem Total.of_insert_eq {m' : Assignment} {b b' : Bool} (hm : m.Total varCount)
    (hm' : m'.Total varCount) (h : m.insert ⟨varCount, b⟩ = m'.insert ⟨varCount, b'⟩) :
    m = m' ∧ b = b' := by
  have hmem : ∀ l, (l = ⟨varCount, b⟩ ∨ l ∈ m) ↔ (l = ⟨varCount, b'⟩ ∨ l ∈ m') := fun l => by
    rw [← OrderedSet.mem_insert, h, OrderedSet.mem_insert]
  refine ⟨OrderedSet.ext fun l => ⟨fun hl => ?_, fun hl => ?_⟩, ?_⟩
  · rcases (hmem l).mp (.inr hl) with rfl | hl'
    · exact absurd hl (hm.last_not_mem b')
    · exact hl'
  · rcases (hmem l).mpr (.inr hl) with rfl | hl'
    · exact absurd hl (hm'.last_not_mem b)
    · exact hl'
  · rcases (hmem _).mp (.inl rfl) with hsame | hb
    · exact congrArg Literal.positive hsame
    · exact absurd hb (hm'.last_not_mem b)

theorem Total.restrict (hm : m.Total (varCount + 1)) :
    Assignment.Total varCount (m.filter (·.index < varCount)) := by
  constructor
  · intro l hl
    simpa using (OrderedSet.mem_filter.mp hl).2
  · intro i hi
    obtain ⟨b, hb⟩ := hm.decided i (Nat.lt_succ_of_lt hi)
    exact ⟨b, OrderedSet.mem_filter.mpr ⟨hb, by simpa using hi⟩⟩
  · intro l hl hneg
    exact hm.consistent l (OrderedSet.mem_filter.mp hl).1 (OrderedSet.mem_filter.mp hneg).1

theorem Total.eq_insert_restrict (hm : m.Total (varCount + 1)) :
    ∃ positive, m = (m.filter (·.index < varCount)).insert ⟨varCount, positive⟩ := by
  obtain ⟨positive, hlast⟩ := hm.decided varCount (Nat.lt_succ_self varCount)
  refine ⟨positive, OrderedSet.ext fun l => ?_⟩
  simp only [OrderedSet.mem_insert, OrderedSet.mem_filter, decide_eq_true_eq]
  constructor
  · intro hl
    rcases Nat.lt_succ_iff_lt_or_eq.mp (hm.within l hl) with hindex | hindex
    · exact .inr ⟨hl, hindex⟩
    · left
      by_contra hne
      obtain ⟨index, b⟩ := l
      obtain rfl : index = varCount := hindex
      have hb : b ≠ positive := by
        intro hsame
        exact hne (by rw [hsame])
      rw [Bool.eq_not_of_ne hb] at hl
      exact hm.consistent _ hlast hl
  · rintro (rfl | ⟨hl, -⟩)
    · exact hlast
    · exact hl

end Assignment

/-! ### The listed assignments -/

theorem assignment_eq_ofChoice (varCount bits : Nat) :
    assignment varCount bits = .ofChoice varCount bits.testBit := rfl

theorem length_assignments (varCount : Nat) : (assignments varCount).length = 2 ^ varCount := by
  simp [assignments]

theorem mem_assignments {varCount : Nat} {m : Assignment} :
    m ∈ assignments varCount ↔ m.Total varCount := by
  simp only [assignments, List.mem_map, List.mem_range]
  constructor
  · rintro ⟨bits, -, rfl⟩
    exact Assignment.total_ofChoice bits.testBit
  · intro hm
    refine ⟨Nat.ofBits fun i : Fin varCount => decide ((⟨i, true⟩ : Literal) ∈ m),
      Nat.ofBits_lt_two_pow _, ?_⟩
    rw [assignment_eq_ofChoice]
    refine (Assignment.ofChoice_congr fun i hi => ?_).trans hm.eq_ofChoice.symm
    exact Nat.testBit_ofBits_lt _ i hi

/-! ### Clauses -/

theorem satisfies_iff {m : Assignment} {clause : Clause} :
    satisfies m clause = true ↔ ∃ l ∈ clause, l ∈ m := by
  simp [satisfies]

theorem satisfies_mono {m m' : Assignment} {clause : Clause} (hsub : ∀ l ∈ clause, l ∈ m → l ∈ m')
    (h : satisfies m clause = true) : satisfies m' clause = true := by
  obtain ⟨l, hl, hm⟩ := satisfies_iff.mp h
  exact satisfies_iff.mpr ⟨l, hl, hsub l hl hm⟩

theorem mem_solutions {varCount : Nat} {clauses : List Clause} {m : Assignment} :
    m ∈ solutions varCount clauses ↔
      m.Total varCount ∧ ∀ clause ∈ clauses, satisfies m clause = true := by
  simp [solutions, mem_assignments]

end SolverAudit
