import Mathlib.Data.List.TakeDrop
import Mathlib.Data.List.TakeWhile
import SolverAudit.Decimal.Notation

/-!
# The form of decimal numbers

A number has a sign or none, digits with at most one point before, among or behind them, and an
exponent or none. The parts are told apart by their first characters, so there is at most one way
to take a text apart. Reading goes that way and succeeds exactly for the texts of this form.
-/

namespace SolverAudit.DecimalNotation

/-- The characters that have a meaning of their own in a number. -/
def marks : List Char := ['+', '-', '.', 'e', 'E']

def IsSign (text : List Char) : Prop := text = [] ∨ text = ['+'] ∨ text = ['-']

section

variable (isDigit : Char → Bool)

/-- Digits, at least one of them. -/
def IsDigits (text : List Char) : Prop := text ≠ [] ∧ ∀ c ∈ text, isDigit c = true

/-- Digits with at most one point, and at least one digit. -/
inductive IsMantissa : List Char → Prop
  | whole {whole : List Char} (hwhole : IsDigits isDigit whole) : IsMantissa whole
  | point {whole fraction : List Char} (hwhole : IsDigits isDigit whole)
      (hfraction : ∀ c ∈ fraction, isDigit c = true) : IsMantissa (whole ++ '.' :: fraction)
  | fraction {fraction : List Char} (hfraction : IsDigits isDigit fraction) :
      IsMantissa ('.' :: fraction)

inductive IsExponent : List Char → Prop
  | none : IsExponent []
  | some {mark : Char} {sign digits : List Char} (hmark : mark = 'e' ∨ mark = 'E')
      (hsign : IsSign sign) (hdigits : IsDigits isDigit digits) :
      IsExponent (mark :: (sign ++ digits))

/-- The text is a number in decimal notation. -/
def IsNumeral (text : List Char) : Prop :=
  ∃ sign mantissa exponent, text = sign ++ (mantissa ++ exponent) ∧ IsSign sign
    ∧ IsMantissa isDigit mantissa ∧ IsExponent isDigit exponent

def PlainDigits : Prop := ∀ c ∈ marks, isDigit c = false

end

variable {isDigit : Char → Bool} {text rest : List Char}

/-! ### Characters of numbers -/

theorem IsSign.mem_marks (h : IsSign text) {c : Char} (hc : c ∈ text) : c ∈ marks := by
  rcases h with rfl | rfl | rfl
  · cases hc
  · simp [marks, List.mem_singleton.mp hc]
  · simp [marks, List.mem_singleton.mp hc]

theorem IsMantissa.ne_nil (h : IsMantissa isDigit text) : text ≠ [] := by
  cases h with
  | whole hwhole => exact hwhole.1
  | point => simp
  | fraction => simp

theorem IsMantissa.isDigit_or (h : IsMantissa isDigit text) {c : Char} (hc : c ∈ text) :
    isDigit c = true ∨ c ∈ marks := by
  have hpoint : '.' ∈ marks := by simp [marks]
  cases h with
  | whole hwhole => exact .inl (hwhole.2 c hc)
  | point hwhole hfraction =>
      simp only [List.mem_append, List.mem_cons] at hc
      rcases hc with hc | rfl | hc
      · exact .inl (hwhole.2 c hc)
      · exact .inr hpoint
      · exact .inl (hfraction c hc)
  | fraction hfraction =>
      rcases List.mem_cons.mp hc with rfl | hc
      · exact .inr hpoint
      · exact .inl (hfraction.2 c hc)

theorem IsExponent.isDigit_or (h : IsExponent isDigit text) {c : Char} (hc : c ∈ text) :
    isDigit c = true ∨ c ∈ marks := by
  cases h with
  | none => cases hc
  | some hmark hsign hdigits =>
      simp only [List.mem_append, List.mem_cons] at hc
      rcases hc with rfl | hc | hc
      · exact .inr (by rcases hmark with rfl | rfl <;> simp [marks])
      · exact .inr (hsign.mem_marks hc)
      · exact .inl (hdigits.2 c hc)

theorem IsNumeral.ne_nil (h : IsNumeral isDigit text) : text ≠ [] := by
  obtain ⟨before, mantissa, exponent, rfl, -, hmantissa, -⟩ := h
  simp [hmantissa.ne_nil]

theorem IsNumeral.isDigit_or (h : IsNumeral isDigit text) {c : Char} (hc : c ∈ text) :
    isDigit c = true ∨ c ∈ marks := by
  obtain ⟨before, mantissa, exponent, rfl, hsign, hmantissa, hexponent⟩ := h
  simp only [List.mem_append] at hc
  rcases hc with hc | hc | hc
  · exact .inr (hsign.mem_marks hc)
  · exact hmantissa.isDigit_or hc
  · exact hexponent.isDigit_or hc

/-! ### Parts in front -/

theorem span_append_eq {front : List Char} (hfront : ∀ c ∈ front, isDigit c = true)
    (hrest : ∀ c ∈ rest.head?, isDigit c = false) :
    (front ++ rest).span isDigit = (front, rest) := by
  have htake : rest.takeWhile isDigit = [] := by
    cases rest with
    | nil => rfl
    | cons c rest => rw [List.takeWhile_cons, hrest c rfl, if_neg Bool.false_ne_true]
  have hdrop : rest.dropWhile isDigit = rest := by
    cases rest with
    | nil => rfl
    | cons c rest => rw [List.dropWhile_cons, hrest c rfl, if_neg Bool.false_ne_true]
  rw [List.span_eq_takeWhile_dropWhile, List.takeWhile_append_of_pos hfront,
    List.dropWhile_append_of_pos hfront, htake, hdrop, List.append_nil]

theorem eq_append_of_span_eq {front : List Char} (h : text.span isDigit = (front, rest)) :
    text = front ++ rest ∧ ∀ c ∈ front, isDigit c = true := by
  rw [List.span_eq_takeWhile_dropWhile] at h
  obtain ⟨rfl, rfl⟩ := Prod.mk.inj h
  exact ⟨List.takeWhile_append_dropWhile.symm, fun _ => List.mem_takeWhile_imp⟩

theorem exists_isSign_append (text : List Char) :
    ∃ before, IsSign before ∧ text = before ++ (sign text).2 := by
  unfold sign
  split
  · exact ⟨['-'], .inr (.inr rfl), rfl⟩
  · exact ⟨['+'], .inr (.inl rfl), rfl⟩
  · exact ⟨[], .inl rfl, rfl⟩

/-- A sign is taken off if no other one follows. -/
theorem sign_append {before : List Char} (hbefore : IsSign before)
    (hrest : ∀ c ∈ rest.head?, c ≠ '+' ∧ c ≠ '-') : (sign (before ++ rest)).2 = rest := by
  rcases hbefore with rfl | rfl | rfl
  · rw [List.nil_append]
    unfold sign
    split
    · exact absurd rfl (hrest '-' rfl).2
    · exact absurd rfl (hrest '+' rfl).1
    · rfl
  · rfl
  · rfl

/-- Digits do not start with a sign. -/
theorem IsDigits.unsigned (hplain : PlainDigits isDigit) (h : IsDigits isDigit text) {c : Char}
    (hc : c ∈ (text ++ rest).head?) : c ≠ '+' ∧ c ≠ '-' := by
  obtain ⟨first, text, rfl⟩ := List.exists_cons_of_ne_nil h.1
  obtain rfl := Option.some.inj hc
  have hmark : first ∉ marks := by
    intro hmark
    have hdigit := h.2 first List.mem_cons_self
    rw [hplain first hmark] at hdigit
    cases hdigit
  constructor
  · rintro rfl
    exact hmark (by simp [marks])
  · rintro rfl
    exact hmark (by simp [marks])

theorem sign_digits_append (hplain : PlainDigits isDigit) {before : List Char}
    (hbefore : IsSign before) (h : IsDigits isDigit text) (rest : List Char) :
    (sign (before ++ (text ++ rest))).2 = text ++ rest :=
  sign_append hbefore fun _ hc => h.unsigned hplain hc

/-! ### Exponents -/

theorem isSome_exponentOf?_iff (hplain : PlainDigits isDigit) :
    (exponentOf? isDigit text).isSome = true ↔ IsExponent isDigit text := by
  cases text with
  | nil => exact iff_of_true rfl .none
  | cons mark rest =>
      simp only [exponentOf?]
      rw [Option.isSome_ite]
      constructor
      · rintro ⟨hmark, hsome, hdigits⟩
        obtain ⟨before, hbefore, hrest⟩ := exists_isSign_append rest
        rw [hrest]
        exact .some hmark hbefore ⟨hsome, List.all_eq_true.mp hdigits⟩
      · rintro (_ | ⟨hmark, hsign, hdigits⟩)
        rename_i before digits
        have hrest : (sign (before ++ digits)).2 = digits := by
          simpa using sign_digits_append hplain hsign hdigits []
        rw [hrest]
        exact ⟨hmark, hdigits.1, List.all_eq_true.mpr hdigits.2⟩

/-- An exponent does not go on with the digits before it, nor does it start with a point. -/
theorem IsExponent.head_eq (hplain : PlainDigits isDigit) (h : IsExponent isDigit text) {c : Char}
    (hc : c ∈ text.head?) : isDigit c = false ∧ c ≠ '.' := by
  cases h with
  | none => cases hc
  | some hmark =>
      obtain rfl := Option.some.inj hc
      rcases hmark with rfl | rfl
      · exact ⟨hplain _ (by simp [marks]), by decide⟩
      · exact ⟨hplain _ (by simp [marks]), by decide⟩

/-! ### Numbers -/

/-- Reading succeeds if there are digits before or behind the point, and what remains is an
exponent. -/
theorem isSome_read?_of_parts {before whole fraction behind : List Char}
    (hsign : (sign text).2 = before) (hwhole : before.span isDigit = (whole, behind))
    (hfraction : fractionOf isDigit behind = (fraction, rest)) :
    (read? isDigit text).isSome = true ↔
      (whole ≠ [] ∨ fraction ≠ []) ∧ (exponentOf? isDigit rest).isSome = true := by
  rw [read?]
  dsimp only
  rw [hsign, hwhole]
  dsimp only
  rw [hfraction]
  by_cases hsome : whole ≠ [] ∨ fraction ≠ []
  · cases exponentOf? isDigit rest <;> simp [guard, hsome]
  · simp [guard, hsome, failure]

theorem fractionOf_of_ne_point (hrest : ∀ c ∈ rest.head?, c ≠ '.') :
    fractionOf isDigit rest = ([], rest) := by
  unfold fractionOf
  split
  · exact absurd rfl (hrest '.' rfl)
  · rfl

theorem isNumeral_of_isSome_read? (hplain : PlainDigits isDigit)
    (h : (read? isDigit text).isSome = true) : IsNumeral isDigit text := by
  obtain ⟨before, hbefore, htext⟩ := exists_isSign_append text
  obtain ⟨whole, behind, hwhole⟩ :
      ∃ whole behind, (sign text).2.span isDigit = (whole, behind) := ⟨_, _, rfl⟩
  obtain ⟨fraction, rest, hfraction⟩ :
      ∃ fraction rest, fractionOf isDigit behind = (fraction, rest) := ⟨_, _, rfl⟩
  obtain ⟨hsome, hexponent⟩ := (isSome_read?_of_parts rfl hwhole hfraction).mp h
  obtain ⟨hnumber, hdigits⟩ := eq_append_of_span_eq hwhole
  have hexponent := (isSome_exponentOf?_iff hplain).mp hexponent
  rw [hnumber] at htext
  unfold fractionOf at hfraction
  split at hfraction
  · obtain ⟨rfl, hdigits'⟩ := eq_append_of_span_eq hfraction
    by_cases hnone : whole = []
    · rw [hnone] at htext
      exact ⟨before, '.' :: fraction, rest, htext, hbefore,
        .fraction ⟨hsome.resolve_left fun hne => hne hnone, hdigits'⟩, hexponent⟩
    · exact ⟨before, whole ++ '.' :: fraction, rest, by simp [htext], hbefore,
        .point ⟨hnone, hdigits⟩ hdigits', hexponent⟩
  · cases hfraction
    exact ⟨before, whole, behind, htext, hbefore,
      .whole ⟨hsome.resolve_right fun hne => hne rfl, hdigits⟩, hexponent⟩

theorem IsNumeral.isSome_read? (hplain : PlainDigits isDigit) (h : IsNumeral isDigit text) :
    (read? isDigit text).isSome = true := by
  obtain ⟨before, mantissa, exponent, rfl, hbefore, hmantissa, hexponent⟩ := h
  have hrest := (isSome_exponentOf?_iff hplain).mpr hexponent
  have hends : ∀ c ∈ exponent.head?, isDigit c = false := fun c hc =>
    (hexponent.head_eq hplain hc).1
  have hpoint : isDigit '.' = false := hplain '.' (by simp [marks])
  -- Each form has its digits before the point, those behind it, and then the exponent.
  cases hmantissa with
  | whole hwhole =>
      have hsign := sign_digits_append hplain hbefore hwhole exponent
      have hfraction : fractionOf isDigit exponent = ([], exponent) :=
        fractionOf_of_ne_point fun c hc => (hexponent.head_eq hplain hc).2
      exact (isSome_read?_of_parts hsign (span_append_eq hwhole.2 hends) hfraction).mpr
        ⟨.inl hwhole.1, hrest⟩
  | @point whole fraction hwhole hdigits =>
      have hsign := sign_digits_append hplain hbefore hwhole ('.' :: (fraction ++ exponent))
      have hspan : (whole ++ '.' :: (fraction ++ exponent)).span isDigit =
          (whole, '.' :: (fraction ++ exponent)) :=
        span_append_eq hwhole.2 (by simp [hpoint])
      have hfraction : fractionOf isDigit ('.' :: (fraction ++ exponent)) = (fraction, exponent) :=
        span_append_eq hdigits hends
      rw [List.append_assoc, List.cons_append]
      exact (isSome_read?_of_parts hsign hspan hfraction).mpr ⟨.inl hwhole.1, hrest⟩
  | @fraction fraction hdigits =>
      have hunsigned : ∀ c ∈ ('.' :: (fraction ++ exponent)).head?, c ≠ '+' ∧ c ≠ '-' := by
        rintro _ ⟨⟩
        decide
      have hspan : ('.' :: (fraction ++ exponent)).span isDigit =
          ([], '.' :: (fraction ++ exponent)) :=
        span_append_eq (List.forall_mem_nil _) (by simp [hpoint])
      have hfraction : fractionOf isDigit ('.' :: (fraction ++ exponent)) = (fraction, exponent) :=
        span_append_eq hdigits.2 hends
      exact (isSome_read?_of_parts (sign_append hbefore hunsigned) hspan hfraction).mpr
        ⟨.inr hdigits.1, hrest⟩

/-- **Reading accepts exactly the decimal numbers.** -/
theorem isSome_read?_iff (hplain : PlainDigits isDigit) :
    (read? isDigit text).isSome = true ↔ IsNumeral isDigit text :=
  ⟨isNumeral_of_isSome_read? hplain, fun h => h.isSome_read? hplain⟩

end SolverAudit.DecimalNotation
