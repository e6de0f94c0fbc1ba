import SolverAudit.Proofs.Decimal.Notation
import SolverAudit.Proofs.Status.Line
import SolverAudit.Proofs.Text.Numeral
import SolverAudit.Status.Count

/-!
# Counts in answers

A line gives a count when the letter s is followed by blanks, maybe a tag with blanks behind it, and
the word of the count. Reading the words of a line and the form of the line come to the same. An
output is accepted when it has one relevant line and this line gives a number; whatever else it
holds, it is malformed.
-/

namespace SolverAudit

namespace Status

/-- Blanks, at least one of them. -/
def IsGap (text : List Char) : Prop :=
  text ≠ [] ∧ ∀ c ∈ text, isBlank c = true

/-- Characters without a blank among them, at least one. -/
def IsSolid (text : List Char) : Prop :=
  text ≠ [] ∧ ∀ c ∈ text, isBlank c = false

/-- The lines that give a word as the count. -/
inductive CountLine : List Char → List Char → Prop where
  | plain {gap word ending : List Char} (hgap : IsGap gap) (hword : IsSolid word)
      (hending : ∀ c ∈ ending, isBlank c = true) :
      CountLine ('s' :: (gap ++ (word ++ ending))) word
  | tagged {gap tag between word ending : List Char} (hgap : IsGap gap) (htag : tag ∈ countTags)
      (hbetween : IsGap between) (hword : IsSolid word)
      (hending : ∀ c ∈ ending, isBlank c = true) :
      CountLine ('s' :: (gap ++ (tag ++ (between ++ (word ++ ending))))) word

/-- The output has one relevant line, which gives the number in digits. -/
def Counts (output : String) (n : Nat) : Prop :=
  ∃ line word, rows output = [line] ∧ CountLine line word ∧ Numeral.Denotes word n

/-! ### The words of a line -/

theorem isSolid_of_mem_countTags {tag : List Char} (htag : tag ∈ countTags) : IsSolid tag := by
  simp only [countTags, List.mem_cons, List.not_mem_nil, or_false] at htag
  rcases htag with rfl | rfl
  · exact ⟨List.cons_ne_nil _ _, by simp [isBlank]⟩
  · exact ⟨List.cons_ne_nil _ _, by simp [isBlank]⟩

theorem wordsBy_solid_append {word ending : List Char} (hword : IsSolid word)
    (hending : ∀ c ∈ ending.head?, isBlank c = true) :
    wordsBy isBlank (word ++ ending) = word :: wordsBy isBlank ending :=
  wordsBy_word_append hword.2 hword.1 hending

theorem head?_of_gap {gap : List Char} (hgap : ∀ c ∈ gap, isBlank c = true) :
    ∀ c ∈ gap.head?, isBlank c = true :=
  fun c hc => hgap c (List.mem_of_mem_head? hc)

theorem IsGap.head?_append {gap : List Char} (hgap : IsGap gap) (text : List Char) :
    ∀ c ∈ (gap ++ text).head?, isBlank c = true := by
  obtain ⟨first, rest, rfl⟩ := List.exists_cons_of_ne_nil hgap.1
  intro c hc
  obtain rfl := Option.some.inj hc
  exact hgap.2 _ List.mem_cons_self

theorem isBlank_space : isBlank ' ' = true := rfl

/-- How many blanks stand behind the letter, and which ones, does not count. -/
theorem countWord?_of_gap {gap : List Char} (hgap : IsGap gap) (text : List Char) :
    countWord? ('s' :: (gap ++ text)) = countWord? ('s' :: ' ' :: text) := by
  obtain ⟨first, rest, rfl⟩ := List.exists_cons_of_ne_nil hgap.1
  obtain ⟨hfirst, hrest⟩ := List.forall_mem_cons.mp hgap.2
  rw [List.cons_append, countWord?, if_pos hfirst, wordsBy_gap_append hrest, countWord?,
    if_pos isBlank_space]

theorem countWord?_eq_some_of_countLine {line word : List Char} (h : CountLine line word) :
    countWord? line = some word := by
  cases h with
  | plain hgap hword hending =>
      rw [countWord?_of_gap hgap, countWord?, if_pos isBlank_space,
        wordsBy_solid_append hword (head?_of_gap hending), wordsBy_of_gap hending]
  | tagged hgap htag hbetween hword hending =>
      rw [countWord?_of_gap hgap, countWord?, if_pos isBlank_space,
        wordsBy_solid_append (isSolid_of_mem_countTags htag) (hbetween.head?_append _),
        wordsBy_gap_append hbetween.2, wordsBy_solid_append hword (head?_of_gap hending),
        wordsBy_of_gap hending]
      exact if_pos htag

theorem exists_of_wordsBy_eq_cons {text word : List Char} {rest : List (List Char)}
    (h : wordsBy isBlank text = word :: rest) :
    ∃ gap ending, text = gap ++ (word ++ ending) ∧ (∀ c ∈ gap, isBlank c = true) ∧ IsSolid word
      ∧ (∀ c ∈ ending.head?, isBlank c = true) ∧ wordsBy isBlank ending = rest := by
  rcases gap_or_exists_word isBlank text with
    hgap | ⟨gap, first, ending, rfl, hgap, hsome, hfirst, hends⟩
  · rw [wordsBy_of_gap hgap] at h
    cases h
  · rw [wordsBy_gap_append hgap, wordsBy_word_append hfirst hsome hends] at h
    obtain ⟨rfl, hrest⟩ := List.cons.inj h
    exact ⟨gap, ending, rfl, hgap, ⟨hsome, hfirst⟩, hends, hrest⟩

theorem countLine_of_countWord?_eq_some {line word : List Char} (h : countWord? line = some word) :
    CountLine line word := by
  unfold countWord? at h
  split at h
  · rename_i blank rest
    split at h
    · rename_i hblank
      split at h
      · rename_i first hwords
        obtain rfl := Option.some.inj h
        obtain ⟨gap, ending, rfl, hgap, hword, -, hending⟩ := exists_of_wordsBy_eq_cons hwords
        have hbefore : IsGap (blank :: gap) :=
          ⟨List.cons_ne_nil _ _, List.forall_mem_cons.mpr ⟨hblank, hgap⟩⟩
        exact .plain hbefore hword (wordsBy_eq_nil_iff.mp hending)
      · rename_i tag last hwords
        obtain ⟨htag, hlast⟩ := Option.ite_none_right_eq_some.mp h
        obtain rfl := Option.some.inj hlast
        obtain ⟨gap, behind, rfl, hgap, -, hends, hbehind⟩ := exists_of_wordsBy_eq_cons hwords
        obtain ⟨between, ending, rfl, hbetween, hword, -, hending⟩ :=
          exists_of_wordsBy_eq_cons hbehind
        have hsome : between ≠ [] := by
          rintro rfl
          obtain ⟨c, rest, rfl⟩ := List.exists_cons_of_ne_nil hword.1
          have hc : isBlank c = true := hends c rfl
          rw [hword.2 c List.mem_cons_self] at hc
          cases hc
        have hbefore : IsGap (blank :: gap) :=
          ⟨List.cons_ne_nil _ _, List.forall_mem_cons.mpr ⟨hblank, hgap⟩⟩
        exact .tagged hbefore htag ⟨hsome, hbetween⟩ hword (wordsBy_eq_nil_iff.mp hending)
      · cases h
    · cases h
  · cases h

theorem countWord?_eq_some_iff {line word : List Char} :
    countWord? line = some word ↔ CountLine line word :=
  ⟨countLine_of_countWord?_eq_some, countWord?_eq_some_of_countLine⟩

/-! ### Reading an output -/

theorem readCountLine_eq_ok {count next : Option (List Char)} {line : List Char} :
    readCountLine count line = .ok next ↔
      ∃ word, CountLine line word ∧ isNumber word = true ∧ count = none ∧ next = some word := by
  simp only [← countWord?_eq_some_iff, readCountLine]
  cases hcount : countWord? line with
  | none => simp
  | some word =>
      by_cases hnumber : isNumber word = true
      · cases count with
        | none => simpa [hnumber] using eq_comm
        | some earlier => simp [hnumber]
      · simp [hnumber]

theorem readCountLines_eq_ok {rows : List (List Char)} {word : List Char} :
    rows.foldlM readCountLine none = .ok (some word) ↔
      ∃ line, rows = [line] ∧ CountLine line word ∧ isNumber word = true := by
  cases rows with
  | nil => simp [pure, Except.pure]
  | cons line rest =>
      simp only [List.foldlM_cons, bind_eq_ok, readCountLine_eq_ok]
      cases rest with
      | nil => simp [pure, Except.pure]
      | cons second rest =>
          simp only [List.foldlM_cons, bind_eq_ok, readCountLine_eq_ok]
          constructor
          · rintro ⟨_, ⟨_, -, -, -, rfl⟩, _, ⟨_, -, -, hnone, -⟩, -⟩
            cases hnone
          · rintro ⟨_, hsame, -⟩
            cases hsame

theorem readCount_eq_ok {output : String} {word : List Char} :
    readCount output = .ok word ↔
      ∃ line, rows output = [line] ∧ CountLine line word ∧ isNumber word = true := by
  rw [← readCountLines_eq_ok, ← readLines_eq_ok, readCount, bind_eq_ok]
  constructor
  · rintro ⟨_ | found, hlines, hfound⟩
    · cases hfound
    · cases hfound
      exact hlines
  · exact fun hlines => ⟨some word, hlines, rfl⟩

/-! ### Malformed outputs -/

theorem kind_of_readNumbered_eq_error {α : Type} {readLine : α → List Char → Except Fault α}
    {progress : α} {row : List Char × Nat} {failure : Failure}
    (h : readNumbered readLine progress row = .error failure) : failure.kind = .malformed := by
  rw [readNumbered, during, orFail] at h
  cases hline : readLine progress row.1 with
  | ok next =>
      rw [hline] at h
      cases h
  | error fault =>
      rw [hline] at h
      cases h
      rfl

theorem kind_of_readLines_eq_error {α : Type} {readLine : α → List Char → Except Fault α}
    {start : α} {output : String} {failure : Failure}
    (h : readLines readLine start output = .error failure) : failure.kind = .malformed :=
  of_foldlM_eq_error (fun _ _ _ => kind_of_readNumbered_eq_error) h

theorem kind_of_readCount_eq_error {output : String} {failure : Failure}
    (h : readCount output = .error failure) : failure.kind = .malformed := by
  rw [readCount] at h
  cases hlines : readLines readCountLine none output with
  | error cause =>
      rw [hlines] at h
      cases h
      exact kind_of_readLines_eq_error hlines
  | ok count =>
      rw [hlines] at h
      cases count with
      | none =>
          cases h
          rfl
      | some word => cases h

/-! ### Numbers -/

theorem plainDigits_isDecimalDigit : DecimalNotation.PlainDigits isDecimalDigit := by
  have hmarks : (DecimalNotation.marks.all fun c => !isDecimalDigit c) = true := by decide
  intro c hc
  simpa using List.all_eq_true.mp hmarks c hc

theorem isNumber_iff {word : List Char} :
    isNumber word = true ↔ DecimalNotation.IsNumeral isDecimalDigit word :=
  DecimalNotation.isSome_read?_iff plainDigits_isDecimalDigit

/-- A number is a word. -/
theorem isSolid_of_isNumeral {word : List Char}
    (h : DecimalNotation.IsNumeral isDecimalDigit word) : IsSolid word := by
  have hmarks : (DecimalNotation.marks.all fun c => !isBlank c) = true := by decide
  refine ⟨h.ne_nil, fun c hc => ?_⟩
  by_contra hblank
  rw [Bool.not_eq_false] at hblank
  rcases h.isDigit_or hc with hdigit | hmark
  · rw [isDecimalDigit_of_isBlank hblank] at hdigit
    cases hdigit
  · simpa [hblank] using List.all_eq_true.mp hmarks c hmark

theorem isNumber_of_denotes {word : List Char} {n : Nat} (h : Numeral.Denotes word n) :
    isNumber word = true := by
  obtain ⟨digits, hword, hsome, hdigits, -⟩ := h
  have hwhole : DecimalNotation.IsDigits isDecimalDigit digits :=
    ⟨hsome, fun c hc => isDecimalDigit_of_isDigit (hdigits c hc)⟩
  apply isNumber_iff.mpr
  rcases hword with rfl | rfl
  · exact ⟨[], word, [], by simp, .inl rfl, .whole hwhole, .none⟩
  · exact ⟨['+'], digits, [], by simp, .inr (.inl rfl), .whole hwhole, .none⟩

end Status

end SolverAudit
