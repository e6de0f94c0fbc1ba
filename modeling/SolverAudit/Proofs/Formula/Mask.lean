import Mathlib.Data.Nat.Bitwise
import SolverAudit.Proofs.Formula.Assignment
import SolverAudit.Proofs.Ordered.Set

/-!
# Assignments counted off

A mask is the numeral of its place in the count, and looking up a bit of it is looking up a binary
digit, as long as the bit is there. With fewer variables than bits no assignment is lost, then, and
since different numerals differ in a digit, none is met twice. With more variables the limit of the
count overflows, and with it every search for solutions.
-/

namespace SolverAudit

variable {varCount : Nat}

namespace Mask

theorem toNat_single {place : Nat} (hplace : place < 128) : (single place).toNat = 2 ^ place := by
  change (BitVec.twoPow 128 place).toNat = 2 ^ place
  rw [BitVec.toNat_twoPow, Nat.mod_eq_of_lt (Nat.pow_lt_pow_right (by decide) hplace)]

theorem isSet_eq_getLsbD {place : Nat} (hplace : place < 128) (mask : Mask) :
    mask.isSet place = mask.getLsbD place := by
  have hsingle : single place ≠ 0 := by
    intro hzero
    have hnat := congrArg BitVec.toNat hzero
    rw [toNat_single hplace] at hnat
    exact (Nat.two_pow_pos place).ne' hnat
  have hand : mask &&& single place = if mask.getLsbD place = true then single place else 0 :=
    BitVec.and_twoPow mask place
  rw [isSet, hand]
  cases mask.getLsbD place with
  | false => rfl
  | true => exact bne_iff_ne.mpr hsingle

theorem isSet_ofNat {place : Nat} (hplace : place < 128) (bits : Nat) :
    isSet (BitVec.ofNat 128 bits) place = bits.testBit place := by
  rw [isSet_eq_getLsbD hplace, BitVec.getLsbD_ofNat, decide_eq_true hplace, Bool.true_and]

theorem assignment_ofNat (hcount : varCount ≤ 127) (bits : Nat) :
    assignment varCount (BitVec.ofNat 128 bits) = SolverAudit.assignment varCount bits := by
  have hliterals : (List.range' 1 varCount).map
      (fun var => (⟨var - 1, isSet (BitVec.ofNat 128 bits) (var - 1)⟩ : Literal)) =
        (List.range varCount).map fun i => ⟨i, bits.testBit i⟩ := by
    rw [List.range'_eq_map_range, List.map_map]
    refine List.map_congr_left fun i hi => ?_
    have hplace : i < 128 := by
      have := List.mem_range.mp hi
      omega
    simp [isSet_ofNat hplace]
  rw [assignment, SolverAudit.assignment, hliterals]

/-- The masks count off the assignments, as long as there are fewer variables than bits. -/
theorem assignments_eq (hcount : varCount ≤ 127) :
    assignments varCount = SolverAudit.assignments varCount := by
  rw [assignments, below, toNat_single (Nat.lt_succ_of_le hcount), List.map_map,
    SolverAudit.assignments]
  exact List.map_congr_left fun bits _ => assignment_ofNat hcount bits

theorem firstAssignments_eq_take (varCount count : Nat) :
    firstAssignments varCount count = (assignments varCount).take count := by
  rw [firstAssignments, assignments, below, List.map_map, ← List.map_take, List.take_range]
  rfl

theorem assignments?_of_lt (hcount : varCount < 128) :
    assignments? varCount = .ok (SolverAudit.assignments varCount) := by
  rw [assignments?, checkPlace, if_pos hcount, assignments_eq (Nat.le_of_lt_succ hcount)]
  rfl

theorem assignments?_of_le (hcount : 128 ≤ varCount) :
    assignments? varCount = .error .noSuchPlace := by
  rw [assignments?, checkPlace, if_neg (Nat.not_lt_of_le hcount)]
  rfl

end Mask

theorem solutions?_of_lt (hcount : varCount < 128) (clauses : List Clause) :
    solutions? varCount clauses = .ok (solutions varCount clauses) := by
  rw [solutions?, Mask.assignments?_of_lt hcount]
  rfl

theorem solutions?_of_le (hcount : 128 ≤ varCount) (clauses : List Clause) :
    solutions? varCount clauses = .error .noSuchPlace := by
  rw [solutions?, Mask.assignments?_of_le hcount]
  rfl

/-! ### The assignment of a numeral -/

/-- The literals of an assignment come in the order of the variables. -/
theorem toList_assignment (varCount bits : Nat) :
    (assignment varCount bits).toList =
      (List.range varCount).map fun i => ⟨i, bits.testBit i⟩ := by
  refine OrderedSet.toList_ofList (List.pairwise_map.mpr ?_)
  refine List.pairwise_lt_range.imp fun {i j} hlt => ?_
  change (compare i j).then _ = .lt
  rw [Nat.compare_eq_lt.mpr hlt]
  rfl

/-- Numerals of so many digits are told apart by the assignments. -/
theorem eq_of_assignment_eq {bits bits' : Nat} (hbits : bits < 2 ^ varCount)
    (hbits' : bits' < 2 ^ varCount)
    (hsame : assignment varCount bits = assignment varCount bits') : bits = bits' := by
  have hlists := congrArg OrderedSet.toList hsame
  rw [toList_assignment, toList_assignment, List.map_inj_left] at hlists
  refine Nat.eq_of_testBit_eq fun i => ?_
  by_cases hi : i < varCount
  · exact congrArg Literal.positive (hlists i (List.mem_range.mpr hi))
  · have hpow : 2 ^ varCount ≤ 2 ^ i := Nat.pow_le_pow_right (by decide) (Nat.le_of_not_lt hi)
    rw [Nat.testBit_lt_two_pow (Nat.lt_of_lt_of_le hbits hpow),
      Nat.testBit_lt_two_pow (Nat.lt_of_lt_of_le hbits' hpow)]

theorem map_var_assignment (varCount bits : Nat) :
    (assignment varCount bits).toList.map Literal.var = List.range' 1 varCount := by
  rw [toList_assignment, List.map_map, List.range'_eq_map_range]
  exact List.map_congr_left fun i _ => Nat.add_comm i 1

/-! ### The list of the assignments -/

theorem nodup_assignments (varCount : Nat) : (assignments varCount).Nodup :=
  List.nodup_range.map_on fun _ hbits _ hbits' =>
    eq_of_assignment_eq (List.mem_range.mp hbits) (List.mem_range.mp hbits')

theorem getElem?_assignments {bits : Nat} (hbits : bits < 2 ^ varCount) :
    (assignments varCount)[bits]? = some (assignment varCount bits) := by
  rw [assignments, List.getElem?_map, List.getElem?_range hbits]
  rfl

theorem mem_assignment_iff {bits : Nat} {l : Literal} (hl : l.index < varCount) :
    l ∈ assignment varCount bits ↔ bits.testBit l.index = l.positive := by
  rw [assignment_eq_ofChoice, Assignment.mem_ofChoice]
  exact and_iff_right hl

/-! ### Main statement -/

/-- **The assignments are counted off by the numerals.** Masks count off the assignments of up to
one hundred and twenty-seven variables, each total assignment once. The one of a numeral lists a
literal of each variable, in their order, and the variables whose digit is set are those that it
makes true. -/
theorem assignments_counted_off (hcount : varCount ≤ 127) :
    Mask.assignments varCount = assignments varCount
      ∧ (Mask.assignments varCount).length = 2 ^ varCount
      ∧ (Mask.assignments varCount).Nodup
      ∧ (∀ m, m ∈ Mask.assignments varCount ↔ m.Total varCount)
      ∧ ∀ bits < 2 ^ varCount, ∃ m, (Mask.assignments varCount)[bits]? = some m
        ∧ m.toList.map Literal.var = List.range' 1 varCount
        ∧ ∀ l : Literal, 1 ≤ l.var → l.var ≤ varCount →
          (l ∈ m ↔ l.positive = bits.testBit (l.var - 1)) := by
  rw [Mask.assignments_eq hcount]
  refine ⟨rfl, length_assignments varCount, nodup_assignments varCount,
    fun _ => mem_assignments, fun bits hbits => ?_⟩
  refine ⟨_, getElem?_assignments hbits, map_var_assignment varCount bits, fun l _ hl => ?_⟩
  exact (mem_assignment_iff hl).trans eq_comm

/-- The last variable is made true by the second half of the assignments. -/
theorem assignments_counted_off_last :
    127 ≤ 127 ∧ (Mask.assignments 127).length = 2 ^ 127
      ∧ ∃ m, (Mask.assignments 127)[2 ^ 126]? = some m ∧ (⟨126, true⟩ : Literal) ∈ m
        ∧ (⟨0, true⟩ : Literal) ∉ m := by
  obtain ⟨-, hlength, -, -, hnumerals⟩ := assignments_counted_off (Nat.le_refl 127)
  obtain ⟨m, hm, -, hmem⟩ := hnumerals (2 ^ 126) (by decide)
  refine ⟨Nat.le_refl 127, hlength, m, hm, ?_, ?_⟩
  · exact (hmem ⟨126, true⟩ (by decide) (by decide)).mpr (by decide)
  · exact fun hfirst => absurd ((hmem ⟨0, true⟩ (by decide) (by decide)).mp hfirst) (by decide)

end SolverAudit
