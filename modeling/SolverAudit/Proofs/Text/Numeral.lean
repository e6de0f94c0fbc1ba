import SolverAudit.Formula.Literal
import SolverAudit.Text.Basic

/-!
# Numerals read back

The digits of a number are read as that number, and the text of a literal as its integer, as far as
the range of the machine word allows.
-/

namespace SolverAudit

namespace Numeral

theorem isDigit_of_mem_digits {n : Nat} {c : Char} (hc : c ∈ digits n) : c.isDigit = true :=
  Nat.isDigit_of_mem_toDigits (by decide) (by decide) hc

theorem natural?_digits (n : Nat) : natural? (digits n) = some n := by
  have hdigits : digits n ≠ [] ∧ (digits n).all Char.isDigit = true := by
    refine ⟨Nat.toDigits_ne_nil, ?_⟩
    rw [List.all_eq_true]
    exact fun c hc => isDigit_of_mem_digits hc
  rw [natural?, if_pos hdigits]
  exact congrArg some Nat.ofDigitChars_ten_toDigits

theorem digits_injective : Function.Injective digits := by
  intro n m hsame
  have hread := congrArg natural? hsame
  rwa [natural?_digits, natural?_digits, Option.some.injEq] at hread

/-- Digits take one byte each. -/
theorem utf8ByteSize_ofList {text : List Char} (hdigits : ∀ c ∈ text, c.isDigit = true) :
    (String.ofList text).utf8ByteSize = text.length := by
  induction text with
  | nil => rfl
  | cons c rest ih =>
      obtain ⟨hc, hrest⟩ := List.forall_mem_cons.mp hdigits
      have hsize : c.utf8Size = 1 := by
        have hrange := (Char.isDigit_iff_toNat.mp hc).2
        rw [Char.utf8Size_eq_one_iff, UInt32.le_iff_toNat_le]
        exact Nat.le_trans hrange (by decide)
      rw [String.ofList_cons, String.utf8ByteSize_append, String.utf8ByteSize_singleton, hsize,
        ih hrest, List.length_cons, Nat.add_comm]

theorem value_eq_ofDigitChars (digits : List Char) :
    value digits = Nat.ofDigitChars 10 digits 0 :=
  Nat.ofDigitChars_eq_foldl.symm

theorem value_digits (n : Nat) : value (digits n) = n :=
  (value_eq_ofDigitChars _).trans Nat.ofDigitChars_ten_toDigits

theorem value_zeros_append (zeros : Nat) (text : List Char) :
    value (List.replicate zeros '0' ++ text) = value text := by
  rw [value_eq_ofDigitChars, value_eq_ofDigitChars, Nat.ofDigitChars_append,
    Nat.ofDigitChars_replicate_zero, Nat.mul_zero]

theorem natural?_eq_some_iff {text : List Char} {n : Nat} :
    natural? text = some n ↔
      text ≠ [] ∧ (∀ c ∈ text, c.isDigit = true) ∧ Nat.ofDigitChars 10 text 0 = n := by
  rw [natural?, Option.ite_none_right_eq_some, Option.some.injEq, List.all_eq_true,
    value_eq_ofDigitChars, and_assoc]

/-- The text is a number in ASCII digits, zeros allowed before it and a plus sign in front. -/
def Denotes (text : List Char) (n : Nat) : Prop :=
  ∃ digits, (text = digits ∨ text = '+' :: digits) ∧ digits ≠ []
    ∧ (∀ c ∈ digits, c.isDigit = true) ∧ Nat.ofDigitChars 10 digits 0 = n

theorem denotes_plus {digits : List Char} {n : Nat} :
    Denotes ('+' :: digits) n ↔ natural? digits = some n := by
  rw [natural?_eq_some_iff]
  constructor
  · rintro ⟨_, rfl | hsame, hdenotes⟩
    · exact absurd (hdenotes.2.1 '+' List.mem_cons_self) (by decide)
    · rwa [(List.cons.inj hsame).2]
  · exact fun hdenotes => ⟨digits, .inr rfl, hdenotes⟩

theorem denotes_of_unsigned {text : List Char} (hplus : ∀ digits, text ≠ '+' :: digits) {n : Nat} :
    Denotes text n ↔ natural? text = some n := by
  rw [natural?_eq_some_iff]
  constructor
  · rintro ⟨digits, rfl | hsame, hdenotes⟩
    · exact hdenotes
    · exact absurd hsame (hplus digits)
  · exact fun hdenotes => ⟨text, .inl rfl, hdenotes⟩

theorem unsigned?_eq_some_iff {bits : Nat} {text : List Char} {n : Nat} :
    unsigned? bits text = some n ↔ Denotes text n ∧ n < capacity bits := by
  unfold unsigned?
  split
  · rw [denotes_plus]
    simp
  · rename_i hplus
    rw [denotes_of_unsigned fun digits hsame => hplus digits hsame]
    simp

theorem signed?_digits {bits n : Nat} (hn : n < capacity (bits - 1)) :
    signed? bits (digits n) = some (n : Int) := by
  unfold signed?
  split
  · rename_i rest hsign
    have hdigit : '-'.isDigit = true := isDigit_of_mem_digits (n := n) (by rw [hsign]; simp)
    exact absurd hdigit (by decide)
  · rename_i rest hsign
    have hdigit : '+'.isDigit = true := isDigit_of_mem_digits (n := n) (by rw [hsign]; simp)
    exact absurd hdigit (by decide)
  · rw [natural?_digits, Option.bind_some, if_pos hn]

theorem signed?_neg_digits {bits n : Nat} (hn : n ≤ capacity (bits - 1)) :
    signed? bits ('-' :: digits n) = some (-(n : Int)) := by
  rw [signed?, natural?_digits, Option.bind_some, if_pos hn]

end Numeral

namespace Literal

theorem signed?_text {bits : Nat} {l : Literal} (hl : l.var < Numeral.capacity (bits - 1)) :
    Numeral.signed? bits l.text = some l.toInt := by
  unfold text toInt
  by_cases hpositive : l.positive = true
  · rw [if_pos hpositive, if_pos hpositive]
    exact Numeral.signed?_digits hl
  · rw [if_neg hpositive, if_neg hpositive]
    exact Numeral.signed?_neg_digits (Nat.le_of_lt hl)

theorem mem_text {l : Literal} {c : Char} (hc : c ∈ l.text) : c = '-' ∨ c.isDigit = true := by
  unfold text at hc
  split at hc
  · exact .inr (Numeral.isDigit_of_mem_digits hc)
  · exact (List.mem_cons.mp hc).imp_right Numeral.isDigit_of_mem_digits

theorem text_ne_nil (l : Literal) : l.text ≠ [] := by
  unfold text
  split
  · exact Nat.toDigits_ne_nil
  · exact List.cons_ne_nil _ _

theorem toInt_ne_zero (l : Literal) : l.toInt ≠ 0 := by
  unfold toInt var
  split <;> omega

theorem ofInt?_eq_some {n : Int} {l : Literal} : ofInt? n = some l ↔ n = l.toInt := by
  constructor
  · intro h
    unfold ofInt? at h
    split at h
    · cases h
    · cases h
      simp only [toInt, var, decide_eq_true_eq]
      split <;> omega
  · rintro rfl
    exact ofInt?_toInt l

theorem ofInt?_eq_none {n : Int} : ofInt? n = none ↔ n = 0 := by
  unfold ofInt?
  split <;> simp [*]

end Literal

end SolverAudit
