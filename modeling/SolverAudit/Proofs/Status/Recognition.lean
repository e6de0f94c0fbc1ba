import SolverAudit.Proofs.Decimal.Notation
import SolverAudit.Proofs.Status.Count
import SolverAudit.Proofs.Status.Satisfiability

/-!
# Which outputs are answers

Readers go through the relevant lines one by one and keep flags. Here the outputs that they accept
are described as a whole: by which lines there are, how many of them announce a status or give a
count, and which words the value lines hold one after the other. Comments and empty lines do not
matter, nor where the lines end within the values, nor where among them the status is announced.
-/

namespace SolverAudit

namespace Status

/-! ### Relevant lines -/

/-- The line without the carriage return at its end, if there is one. -/
def dropReturn (line : List Char) : List Char :=
  if line.getLast? = some '\r' then line.dropLast else line

/-- The relevant lines: the text is cut at line feeds, with or without a carriage return in front of
them, and trimmed lines are left out if they are empty or comments. -/
def contentLines (output : String) : List (List Char) :=
  ((lines output.toList).map fun line => trimEnd (dropReturn line)).filter isRelevant

theorem trimEnd_dropReturn (line : List Char) : trimEnd (dropReturn line) = trimEnd line := by
  unfold dropReturn
  split
  · rename_i hlast
    obtain ⟨front, rfl⟩ := List.getLast?_eq_some_iff.mp hlast
    rw [List.dropLast_concat, trimEnd_concat_of_isBlank rfl]
  · rfl

theorem contentLines_eq_rows (output : String) : contentLines output = rows output := by
  simp only [contentLines, trimEnd_dropReturn, rows_eq_filter]

theorem kind_of_orFail_eq_error {α : Type} {result : Except Fault α} {failure : Failure}
    (h : orFail result = .error failure) : failure.kind = .malformed := by
  cases result with
  | error fault =>
      cases h
      rfl
  | ok x => cases h

/-! ### The form of an answer of a satisfiability solver -/

instance : DecidablePred IsValueLine := fun _ => instDecidableOr

def valueLines (rows : List (List Char)) : List (List Char) :=
  rows.filter fun line => IsValueLine line

/-- Every line is known, exactly one announces a status, and the words of the value lines are the
numbers. Values end with the only zero, and they are given exactly for a satisfiable formula. -/
structure WellFormed (rows : List (List Char)) (a : Announcement) (numbers : List Int) : Prop where
  known : ∀ line ∈ rows, (∃ b : Announcement, line = b.line) ∨ IsValueLine line
  announced : rows.filterMap announcement? = [a]
  spelled : ((valueLines rows).flatMap valueWords).map (Numeral.signed? 64) = numbers.map some
  given : a = .satisfiable →
    valueLines rows ≠ [] ∧ numbers.count 0 = 1 ∧ numbers.getLast? = some 0
  bare : a ≠ .satisfiable → valueLines rows = []

/-- The status with the literals of the numbers in order. Only zero stands for no literal. -/
def Announcement.answer (numbers : List Int) : Announcement → Satisfiability
  | .satisfiable => .satisfiable (numbers.filterMap Literal.ofInt?)
  | .unsatisfiable => .unsatisfiable
  | .unknown => .unknown

/-- Two outputs say the same, wherever their status stands and their value lines end. -/
structure SameContents (rows rows' : List (List Char)) : Prop where
  known : (∀ line ∈ rows, (∃ b : Announcement, line = b.line) ∨ IsValueLine line) ↔
    ∀ line ∈ rows', (∃ b : Announcement, line = b.line) ∨ IsValueLine line
  announced : rows.filterMap announcement? = rows'.filterMap announcement?
  words : (valueLines rows).flatMap valueWords = (valueLines rows').flatMap valueWords
  given : valueLines rows = [] ↔ valueLines rows' = []

section

variable {rows rows' given : List (List Char)} {line : List Char} {a : Announcement}
  {numbers : List Int}

theorem SameContents.wellFormed_iff (h : SameContents rows rows') :
    WellFormed rows a numbers ↔ WellFormed rows' a numbers := by
  constructor
  · intro hform
    exact ⟨h.known.mp hform.known, h.announced ▸ hform.announced, h.words ▸ hform.spelled,
      fun ha => (hform.given ha).imp_left (mt h.given.mpr), fun ha => h.given.mp (hform.bare ha)⟩
  · intro hform
    exact ⟨h.known.mpr hform.known, h.announced ▸ hform.announced, h.words ▸ hform.spelled,
      fun ha => (hform.given ha).imp_left (mt h.given.mp), fun ha => h.given.mpr (hform.bare ha)⟩

/-! ### Lines -/

theorem announcement?_eq_some : announcement? line = some a ↔ line = a.line := by
  constructor
  · intro h
    have hfound := List.find?_some h
    exact (of_decide_eq_true hfound).symm
  · intro h
    rw [h]
    cases a <;> decide

theorem announcement?_eq_none_of_isValueLine (hline : IsValueLine line) :
    announcement? line = none := by
  cases h : announcement? line with
  | none => rfl
  | some a =>
      rw [announcement?_eq_some.mp h] at hline
      cases a <;> exact absurd hline (by decide)

theorem filterMap_announcement?_of_isValueLine (hrows : ∀ line ∈ rows, IsValueLine line) :
    rows.filterMap announcement? = [] := by
  apply List.filterMap_eq_nil_iff.mpr
  intro line hline
  exact announcement?_eq_none_of_isValueLine (hrows line hline)

theorem valueLines_of_isValueLine (hrows : ∀ line ∈ rows, IsValueLine line) :
    valueLines rows = rows := by
  apply List.filter_eq_self.mpr
  intro line hline
  exact decide_eq_true (hrows line hline)

theorem not_isValueLine_announcement (a : Announcement) : ¬ IsValueLine a.line := by
  cases a <;> decide

theorem filterMap_announcement?_insert (before after : List (List Char)) (a : Announcement) :
    (before ++ a.line :: after).filterMap announcement? =
      before.filterMap announcement? ++ a :: after.filterMap announcement? := by
  rw [List.filterMap_append, List.filterMap_cons_some (announcement?_eq_some.mpr rfl)]

theorem valueLines_insert (before after : List (List Char)) (a : Announcement) :
    valueLines (before ++ a.line :: after) = valueLines before ++ valueLines after := by
  rw [valueLines, List.filter_append, List.filter_cons_of_neg]
  · rfl
  · simpa using not_isValueLine_announcement a

/-- The line of the status is found again as the only one that announces something. -/
theorem announces_iff : Announces rows a given ↔
    (∀ line ∈ rows, (∃ b : Announcement, line = b.line) ∨ IsValueLine line)
      ∧ rows.filterMap announcement? = [a] ∧ given = valueLines rows := by
  constructor
  · rintro ⟨before, after, hrows, hgiven, hvalues⟩
    rw [hgiven] at hvalues
    obtain ⟨hbefore, hafter⟩ := List.forall_mem_append.mp hvalues
    rw [hrows]
    refine ⟨?known, ?announced, ?given⟩
    case known =>
      intro line hline
      rcases List.mem_append.mp hline with hline | hline
      · exact .inr (hbefore line hline)
      · rcases List.mem_cons.mp hline with hsame | hline
        · exact .inl ⟨a, hsame⟩
        · exact .inr (hafter line hline)
    case announced =>
      rw [filterMap_announcement?_insert, filterMap_announcement?_of_isValueLine hbefore,
        filterMap_announcement?_of_isValueLine hafter, List.nil_append]
    case given =>
      rw [valueLines_insert, valueLines_of_isValueLine hbefore, valueLines_of_isValueLine hafter,
        hgiven]
  · rintro ⟨hknown, hannounced, hgiven⟩
    obtain ⟨before, line, after, hrows, hbefore, hline, hafter⟩ :=
      List.filterMap_eq_cons_iff.mp hannounced
    rw [announcement?_eq_some.mp hline] at hrows
    have hafter := List.filterMap_eq_nil_iff.mp hafter
    -- A known line that announces nothing is a value line.
    have hvalues : ∀ line ∈ before ++ after, IsValueLine line := by
      intro line hmem
      have hnone : announcement? line = none :=
        (List.mem_append.mp hmem).elim (hbefore line) (hafter line)
      have hrow : line ∈ rows := by
        rw [hrows]
        simp only [List.mem_append, List.mem_cons] at hmem ⊢
        exact hmem.imp_right .inr
      apply (hknown line hrow).resolve_left
      rintro ⟨b, hb⟩
      rw [announcement?_eq_some.mpr hb] at hnone
      cases hnone
    refine ⟨before, after, hrows, ?_, hgiven ▸ ?_⟩
    · obtain ⟨hbefore, hafter⟩ := List.forall_mem_append.mp hvalues
      rw [hgiven, hrows, valueLines_insert, valueLines_of_isValueLine hbefore,
        valueLines_of_isValueLine hafter]
    · intro line hline
      exact of_decide_eq_true (List.mem_filter.mp hline).2

/-! ### Words -/

theorem spells_iff {words : List (List Char)} {values : List Literal} :
    Spells words values ↔
      words.map (Numeral.signed? 64) = (values.map Literal.toInt ++ [0]).map some := by
  constructor
  · intro h
    induction h with
    | zero hword => rw [List.map_singleton, hword]; rfl
    | literal hword _ ih => rw [List.map_cons, hword, ih]; rfl
  · intro h
    induction values generalizing words with
    | nil =>
        obtain ⟨word, hwords, hword⟩ := List.map_eq_singleton_iff.mp h
        rw [hwords]
        exact .zero hword
    | cons l values ih =>
        obtain ⟨word, rest, hwords, hword, hrest⟩ := List.map_eq_cons_iff.mp h
        rw [hwords]
        exact .literal hword (ih hrest)

/-- Numbers end with their only zero if they are those of literals and a zero. -/
theorem exists_literals_iff :
    numbers.count 0 = 1 ∧ numbers.getLast? = some 0 ↔
      ∃ values : List Literal, numbers = values.map Literal.toInt ++ [0] := by
  constructor
  · rintro ⟨hone, hlast⟩
    obtain ⟨front, hnumbers⟩ := List.getLast?_eq_some_iff.mp hlast
    have hnone : (0 : Int) ∉ front := by
      rw [hnumbers, List.count_append, List.count_singleton_self] at hone
      exact List.count_eq_zero.mp (by omega)
    have hliteral : ∀ n ∈ front, (Literal.ofInt? n).map Literal.toInt = some n := by
      intro n hn
      cases h : Literal.ofInt? n with
      | none => exact absurd (Literal.ofInt?_eq_none.mp h ▸ hn) hnone
      | some l => rw [Option.map_some, Literal.ofInt?_eq_some.mp h]
    refine ⟨front.filterMap Literal.ofInt?, ?_⟩
    rw [List.map_filterMap, List.filterMap_congr hliteral, List.filterMap_some, hnumbers]
  · rintro ⟨values, hnumbers⟩
    have hnone : (0 : Int) ∉ values.map Literal.toInt := by
      intro hzero
      obtain ⟨l, -, hl⟩ := List.mem_map.mp hzero
      exact l.toInt_ne_zero hl
    rw [hnumbers, List.count_append, List.count_eq_zero.mpr hnone, List.count_singleton_self,
      List.getLast?_concat]
    exact ⟨rfl, rfl⟩

theorem filterMap_ofInt?_literals (values : List Literal) :
    (values.map Literal.toInt ++ [0]).filterMap Literal.ofInt? = values := by
  have hzero : Literal.ofInt? 0 = none := rfl
  rw [List.filterMap_append, List.filterMap_map, List.filterMap_cons_none hzero, List.filterMap_nil,
    List.append_nil]
  exact (List.filterMap_congr fun l _ => l.ofInt?_toInt).trans List.filterMap_some

/-! ### Answers of satisfiability solvers -/

theorem WellFormed.of_bare (h : Announces rows a []) (ha : a ≠ .satisfiable) :
    WellFormed rows a [] := by
  obtain ⟨hknown, hannounced, hbare⟩ := announces_iff.mp h
  refine ⟨hknown, hannounced, ?_, fun hsame => absurd hsame ha, fun _ => hbare.symm⟩
  rw [← hbare]
  rfl

/-- The form that the reader is known to accept is this one. -/
theorem gives_iff {answer : Satisfiability} :
    Gives rows answer ↔ ∃ a numbers, WellFormed rows a numbers ∧ answer = a.answer numbers := by
  constructor
  · intro h
    cases h with
    | @satisfiable given values hstatus hvalues =>
        obtain ⟨hknown, hannounced, hgiven⟩ := announces_iff.mp hstatus
        rw [hgiven] at hvalues
        have hnumbers := exists_literals_iff.mpr ⟨values, rfl⟩
        have hsome : valueLines rows ≠ [] := by
          intro hnone
          rw [hnone] at hvalues
          exact hvalues.ne_nil rfl
        refine ⟨.satisfiable, values.map Literal.toInt ++ [0], ?_, ?_⟩
        · exact ⟨hknown, hannounced, spells_iff.mp hvalues, fun _ => ⟨hsome, hnumbers⟩,
            fun hne => absurd rfl hne⟩
        · rw [Announcement.answer, filterMap_ofInt?_literals]
    | unsatisfiable hstatus => exact ⟨.unsatisfiable, [], .of_bare hstatus (by decide), rfl⟩
    | unknown hstatus => exact ⟨.unknown, [], .of_bare hstatus (by decide), rfl⟩
  · rintro ⟨a, numbers, h, hanswer⟩
    have hstatus : Announces rows a (valueLines rows) :=
      announces_iff.mpr ⟨h.known, h.announced, rfl⟩
    rw [hanswer]
    cases a with
    | satisfiable =>
        obtain ⟨-, hnumbers⟩ := h.given rfl
        obtain ⟨values, hvalues⟩ := exists_literals_iff.mp hnumbers
        have hspells := h.spelled
        rw [hvalues] at hspells ⊢
        rw [Announcement.answer, filterMap_ofInt?_literals]
        exact .satisfiable hstatus (spells_iff.mpr hspells)
    | unsatisfiable => exact .unsatisfiable (h.bare (by decide) ▸ hstatus)
    | unknown => exact .unknown (h.bare (by decide) ▸ hstatus)

end

theorem readSatisfiability_eq_ok_iff_wellFormed {output : String} {answer : Satisfiability} :
    readSatisfiability output = .ok answer ↔
      ∃ a numbers, WellFormed (contentLines output) a numbers ∧ answer = a.answer numbers := by
  rw [readSatisfiability_eq_ok_iff_gives, ← contentLines_eq_rows, gives_iff]

theorem kind_of_readSatisfiability_eq_error {output : String} {failure : Failure}
    (h : readSatisfiability output = .error failure) : failure.kind = .malformed := by
  rw [readSatisfiability] at h
  cases hlines : readLines Progress.readLine {} output with
  | error cause =>
      rw [hlines] at h
      cases h
      exact kind_of_readLines_eq_error hlines
  | ok progress =>
      rw [hlines] at h
      exact kind_of_orFail_eq_error h

/-- **Answers of satisfiability solvers are recognised by their contents.** An output is accepted if
and only if its relevant lines are well-formed, with the status and the literals that they give, and
every other output is malformed. Outputs that say the same are read alike. -/
theorem satisfiability_recognised_by_contents :
    (∀ output answer, readSatisfiability output = .ok answer ↔
        ∃ a numbers, WellFormed (contentLines output) a numbers ∧ answer = a.answer numbers)
      ∧ (∀ output, (∀ a numbers, ¬ WellFormed (contentLines output) a numbers) →
        ∃ failure, readSatisfiability output = .error failure ∧ failure.kind = .malformed)
      ∧ ∀ output output', SameContents (contentLines output) (contentLines output') →
        ∀ answer, readSatisfiability output = .ok answer ↔
          readSatisfiability output' = .ok answer := by
  refine ⟨fun output answer => readSatisfiability_eq_ok_iff_wellFormed, fun output hnone => ?_,
    fun output output' hsame answer => ?_⟩
  · cases hread : readSatisfiability output with
    | ok answer =>
        obtain ⟨a, numbers, h, -⟩ := readSatisfiability_eq_ok_iff_wellFormed.mp hread
        exact absurd h (hnone a numbers)
    | error failure => exact ⟨failure, rfl, kind_of_readSatisfiability_eq_error hread⟩
  · simp only [readSatisfiability_eq_ok_iff_wellFormed, hsame.wellFormed_iff]

theorem satisfiability_recognised_by_contents_spread :
    let spread := "c two lines\r\nv 1 -2\n\ns SATISFIABLE\nv 3 0\n"
    let gathered := "s SATISFIABLE\nv 1 -2 3 0"
    let unended := "s SATISFIABLE\nv 1 0 2"
    let answer : Satisfiability := .satisfiable [⟨0, true⟩, ⟨1, false⟩, ⟨2, true⟩]
    (WellFormed (contentLines spread) .satisfiable [1, -2, 3, 0]
        ∧ SameContents (contentLines spread) (contentLines gathered)
        ∧ ∀ a numbers, ¬ WellFormed (contentLines unended) a numbers)
      ∧ readSatisfiability spread = .ok answer
      ∧ readSatisfiability gathered = .ok answer
      ∧ ∃ failure, readSatisfiability unended = .error failure ∧ failure.kind = .malformed := by
  intro spread gathered unended answer
  obtain ⟨haccepts, hrefuses, hsame⟩ := satisfiability_recognised_by_contents
  have hspread : contentLines spread =
      ["v 1 -2".toList, "s SATISFIABLE".toList, "v 3 0".toList] := by decide +kernel
  have hgathered : contentLines gathered = ["s SATISFIABLE".toList, "v 1 -2 3 0".toList] := by
    decide +kernel
  have hstatus : ∃ b : Announcement, "s SATISFIABLE".toList = b.line := ⟨.satisfiable, rfl⟩
  have hknown : ∀ line ∈ contentLines spread,
      (∃ b : Announcement, line = b.line) ∨ IsValueLine line := by
    rw [hspread]
    simp only [List.forall_mem_cons]
    exact ⟨.inr (by decide), .inl hstatus, .inr (by decide), List.forall_mem_nil _⟩
  have hknown' : ∀ line ∈ contentLines gathered,
      (∃ b : Announcement, line = b.line) ∨ IsValueLine line := by
    rw [hgathered]
    simp only [List.forall_mem_cons]
    exact ⟨.inl hstatus, .inr (by decide), List.forall_mem_nil _⟩
  have hform : WellFormed (contentLines spread) .satisfiable [1, -2, 3, 0] := by
    refine ⟨hknown, ?_, ?_, fun _ => ⟨?_, by decide, by decide⟩, fun hne => absurd rfl hne⟩
    · rw [hspread]; decide +kernel
    · rw [hspread]; decide +kernel
    · rw [hspread]; decide +kernel
  have hcontents : SameContents (contentLines spread) (contentLines gathered) := by
    refine ⟨iff_of_true hknown hknown', ?_, ?_, ?_⟩
    · rw [hspread, hgathered]; decide +kernel
    · rw [hspread, hgathered]; decide +kernel
    · rw [hspread, hgathered]; decide +kernel
  have hnone : ∀ a numbers, ¬ WellFormed (contentLines unended) a numbers := by
    intro a numbers h
    have hread := (haccepts unended _).mpr ⟨a, numbers, h, rfl⟩
    have hfails : (readSatisfiability unended).isOk = false := by decide +kernel
    rw [hread] at hfails
    cases hfails
  have hread : readSatisfiability spread = .ok answer :=
    (haccepts spread answer).mpr ⟨_, _, hform, by decide⟩
  exact ⟨⟨hform, hcontents, hnone⟩, hread, (hsame _ _ hcontents answer).mp hread,
    hrefuses unended hnone⟩

/-! ### The form of an answer of a model counter -/

/-- A tag with blanks behind it, or nothing. -/
def IsTagging (text : List Char) : Prop :=
  text = [] ∨ ∃ tag ∈ countTags, ∃ between, IsGap between ∧ text = tag ++ between

/-- The trimmed line gives a number, maybe behind a tag. -/
def GivesCount (line word : List Char) : Prop :=
  DecimalNotation.IsNumeral isDecimalDigit word ∧ ∃ gap tagging,
    line = 's' :: (gap ++ (tagging ++ word)) ∧ IsGap gap ∧ IsTagging tagging

theorem isBlank_of_mem_getLast?_trimEnd {line : List Char} {c : Char}
    (hc : c ∈ (trimEnd line).getLast?) : isBlank c = false := by
  obtain ⟨front, hfront⟩ := List.getLast?_eq_some_iff.mp hc
  have hsome : line.rdropWhile isBlank ≠ [] := by
    change trimEnd line ≠ []
    simp [hfront]
  have hlast := List.rdropWhile_last_not isBlank line hsome
  have hsame : (line.rdropWhile isBlank).getLast hsome = c := by
    apply Option.some.inj
    rw [← List.getLast?_eq_some_getLast]
    exact hc
  rwa [hsame, Bool.not_eq_true] at hlast

theorem eq_nil_of_trimmed (front : List Char) {ending : List Char}
    (hlast : ∀ c ∈ (front ++ ending).getLast?, isBlank c = false)
    (hending : ∀ c ∈ ending, isBlank c = true) : ending = [] := by
  rcases List.eq_nil_or_concat ending with hnil | ⟨rest, c, rfl⟩
  · exact hnil
  · have hblank : isBlank c = true := hending c (by simp)
    rw [hlast c (by simp)] at hblank
    cases hblank

section

variable {line word : List Char}

theorem CountLine.exists_tagging (h : CountLine line word)
    (hlast : ∀ c ∈ line.getLast?, isBlank c = false) :
    ∃ gap tagging, line = 's' :: (gap ++ (tagging ++ word)) ∧ IsGap gap ∧ IsTagging tagging := by
  cases h with
  | @plain gap _ ending hgap hword hending =>
      have htrimmed : ending = [] :=
        eq_nil_of_trimmed ('s' :: (gap ++ word)) (by simpa using hlast) hending
      exact ⟨gap, [], by simp [htrimmed], hgap, .inl rfl⟩
  | @tagged gap tag between _ ending hgap htag hbetween hword hending =>
      have htrimmed : ending = [] :=
        eq_nil_of_trimmed ('s' :: (gap ++ (tag ++ (between ++ word)))) (by simpa using hlast)
          hending
      exact ⟨gap, tag ++ between, by simp [htrimmed], hgap,
        .inr ⟨tag, htag, between, hbetween, rfl⟩⟩

theorem GivesCount.countLine (h : GivesCount line word) : CountLine line word := by
  obtain ⟨hnumber, gap, tagging, rfl, hgap, htagging⟩ := h
  have hword : IsSolid word := isSolid_of_isNumeral hnumber
  rcases htagging with rfl | ⟨tag, htag, between, hbetween, rfl⟩
  · simpa using CountLine.plain hgap hword (List.forall_mem_nil _)
  · simpa using CountLine.tagged hgap htag hbetween hword (List.forall_mem_nil _)

theorem givesCount_iff (hlast : ∀ c ∈ line.getLast?, isBlank c = false) :
    GivesCount line word ↔ CountLine line word ∧ isNumber word = true := by
  constructor
  · intro h
    exact ⟨h.countLine, isNumber_iff.mpr h.1⟩
  · rintro ⟨hline, hnumber⟩
    exact ⟨isNumber_iff.mp hnumber, hline.exists_tagging hlast⟩

end

theorem isBlank_of_mem_getLast?_contentLines {output : String} {line : List Char}
    (hline : line ∈ contentLines output) : ∀ c ∈ line.getLast?, isBlank c = false := by
  obtain ⟨row, -, rfl⟩ := List.mem_map.mp (List.mem_filter.mp hline).1
  intro c hc
  exact isBlank_of_mem_getLast?_trimEnd hc

theorem readCount_eq_ok_iff_givesCount {output : String} {word : List Char} :
    readCount output = .ok word ↔ ∃ line, contentLines output = [line] ∧ GivesCount line word := by
  rw [readCount_eq_ok, ← contentLines_eq_rows]
  apply exists_congr
  intro line
  apply and_congr_right
  intro hlines
  have hline : line ∈ contentLines output := hlines ▸ List.mem_singleton_self line
  exact (givesCount_iff (isBlank_of_mem_getLast?_contentLines hline)).symm

/-- **Answers of model counters are recognised by their contents.** An output is accepted if and
only if it has one relevant line and this line gives a number, which is kept as it is written. Every
other output is malformed. -/
theorem count_recognised_by_contents :
    (∀ output word, readCount output = .ok word ↔
        ∃ line, contentLines output = [line] ∧ GivesCount line word)
      ∧ ∀ output, (∀ line word, contentLines output = [line] → ¬ GivesCount line word) →
        ∃ failure, readCount output = .error failure ∧ failure.kind = .malformed := by
  refine ⟨fun output word => readCount_eq_ok_iff_givesCount, fun output hnone => ?_⟩
  cases hread : readCount output with
  | ok word =>
      obtain ⟨line, hlines, hline⟩ := readCount_eq_ok_iff_givesCount.mp hread
      exact absurd hline (hnone line word hlines)
  | error failure => exact ⟨failure, rfl, kind_of_readCount_eq_error hread⟩

theorem count_recognised_by_contents_tagged :
    let tagged := "c weighted\r\ns\twmc  -1.5e3\r\n"
    let twice := "s 1\ns 1"
    let two := "s 1 2"
    let bare := "s mc"
    let glued := "s mc12"
    (contentLines tagged = ["s\twmc  -1.5e3".toList]
        ∧ GivesCount "s\twmc  -1.5e3".toList "-1.5e3".toList
        ∧ readCount tagged = .ok "-1.5e3".toList)
      ∧ ∀ output ∈ [twice, two, bare, glued],
        (∀ line word, contentLines output = [line] → ¬ GivesCount line word)
          ∧ ∃ failure, readCount output = .error failure ∧ failure.kind = .malformed := by
  intro tagged twice two bare glued
  obtain ⟨haccepts, hrefuses⟩ := count_recognised_by_contents
  have hlines : contentLines tagged = ["s\twmc  -1.5e3".toList] := by decide +kernel
  have hdigit : ∀ c : Char, c.isDigit = true → DecimalNotation.IsDigits isDecimalDigit [c] :=
    fun c hc => ⟨List.cons_ne_nil _ _, by simpa using isDecimalDigit_of_isDigit hc⟩
  have hnumber : DecimalNotation.IsNumeral isDecimalDigit "-1.5e3".toList := by
    refine ⟨['-'], ['1', '.', '5'], ['e', '3'], rfl, .inr (.inr rfl), ?_, ?_⟩
    · exact .point (hdigit '1' (by decide)) (hdigit '5' (by decide)).2
    · exact .some (.inl rfl) (.inl rfl) (hdigit '3' (by decide))
  have hgap : ∀ blanks ∈ [['\t'], [' ', ' ']], IsGap blanks := by
    simp [IsGap, isBlank]
  have hline : GivesCount "s\twmc  -1.5e3".toList "-1.5e3".toList :=
    ⟨hnumber, ['\t'], ['w', 'm', 'c', ' ', ' '], rfl, hgap _ (by simp),
      .inr ⟨['w', 'm', 'c'], by decide, [' ', ' '], hgap _ (by simp), rfl⟩⟩
  refine ⟨⟨hlines, hline, (haccepts tagged _).mpr ⟨_, hlines, hline⟩⟩, ?_⟩
  intro output houtput
  have hfails : ([twice, two, bare, glued].all fun output => !(readCount output).isOk) = true := by
    decide +kernel
  have hnone : ∀ line word, contentLines output = [line] → ¬ GivesCount line word := by
    intro line word hlines hline
    have hread := (haccepts output word).mpr ⟨line, hlines, hline⟩
    simpa [hread, Except.isOk, Except.toBool] using List.all_eq_true.mp hfails output houtput
  exact ⟨hnone, hrefuses output hnone⟩

end Status

end SolverAudit
