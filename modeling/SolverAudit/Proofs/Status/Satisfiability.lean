import SolverAudit.Proofs.Status.Line
import SolverAudit.Proofs.Text.Numeral
import SolverAudit.Status.Satisfiability

/-!
# Well-formed answers of satisfiability solvers

An answer has one status line. A satisfiable answer moreover has value lines, before or after the
status line, whose words spell out literals and end with the only zero; the other answers have none.
The reader keeps track of all this line by line; here the form of an answer is stated for all lines
at once, and the reader accepts exactly the answers of that form.
-/

namespace SolverAudit.Status

/-! ### The form of an answer -/

def IsValueLine (line : List Char) : Prop :=
  line = ['v'] ∨ ['v', ' '] <+: line

def valueWords (line : List Char) : List (List Char) :=
  wordsBy isAsciiBlank line.tail

/-- The words are integers within the range of a machine word: those of the literals, then zero. -/
inductive Spells : List (List Char) → List Literal → Prop where
  | zero {word : List Char} (hword : Numeral.signed? 64 word = some 0) : Spells [word] []
  | literal {word : List Char} {words : List (List Char)} {l : Literal} {values : List Literal}
      (hword : Numeral.signed? 64 word = some l.toInt) (hrest : Spells words values) :
      Spells (word :: words) (l :: values)

/-- One line announces a status, and all others are value lines. -/
def Announces (rows : List (List Char)) (a : Announcement) (given : List (List Char)) : Prop :=
  ∃ before after, rows = before ++ a.line :: after ∧ given = before ++ after
    ∧ ∀ line ∈ given, IsValueLine line

/-- The lines make up a well-formed answer. -/
inductive Gives (rows : List (List Char)) : Satisfiability → Prop where
  | satisfiable {given : List (List Char)} {values : List Literal}
      (hstatus : Announces rows .satisfiable given)
      (hvalues : Spells (given.flatMap valueWords) values) : Gives rows (.satisfiable values)
  | unsatisfiable (hstatus : Announces rows .unsatisfiable []) : Gives rows .unsatisfiable
  | unknown (hstatus : Announces rows .unknown []) : Gives rows .unknown

theorem valueWords?_eq_some_iff {line : List Char} {words : List (List Char)} :
    valueWords? line = some words ↔ IsValueLine line ∧ valueWords line = words := by
  unfold valueWords?
  split
  · have hnone : valueWords ['v'] = [] := rfl
    simp [IsValueLine, hnone, eq_comm]
  · rename_i rest
    have hvalue : IsValueLine ('v' :: ' ' :: rest) := .inr ⟨rest, rfl⟩
    have hblank : valueWords ('v' :: ' ' :: rest) = wordsBy isAsciiBlank rest :=
      wordsBy_cons rfl rest
    simp [hvalue, hblank]
  · rename_i hmark hblank
    refine iff_of_false (by simp) fun h => ?_
    rcases h.1 with hline | ⟨rest, hline⟩
    · exact hmark hline
    · exact hblank rest hline.symm

/-! ### Words -/

namespace Progress

variable {p q : Progress}

def mark (p : Progress) (announced : Option Announcement) (valuesGiven : Bool) : Progress :=
  { p with announced, valuesGiven }

theorem readWord_mark (announced : Option Announcement) (valuesGiven : Bool) (word : List Char) :
    (p.mark announced valuesGiven).readWord word =
      (p.readWord word).map fun q => q.mark announced valuesGiven := by
  unfold readWord mark
  cases Numeral.signed? 64 word with
  | none => rfl
  | some n =>
      by_cases hended : p.ended = true
      · simp only [hended, if_true]
        rfl
      · simp only [hended]
        cases Literal.ofInt? n <;> rfl

/-- Reading values neither looks at the announcements nor changes them. -/
theorem readWords_mark (announced : Option Announcement) (valuesGiven : Bool)
    (words : List (List Char)) :
    words.foldlM readWord (p.mark announced valuesGiven) =
      (words.foldlM readWord p).map fun q => q.mark announced valuesGiven := by
  induction words generalizing p with
  | nil => rfl
  | cons word words ih =>
      rw [List.foldlM_cons, List.foldlM_cons, readWord_mark]
      cases p.readWord word with
      | error fault => rfl
      | ok r => exact ih

theorem frame_of_readWords {words : List (List Char)} (h : words.foldlM readWord p = .ok q) :
    q.announced = p.announced ∧ q.valuesGiven = p.valuesGiven := by
  have hmark := readWords_mark (p := p) p.announced p.valuesGiven words
  change words.foldlM readWord p = _ at hmark
  rw [h] at hmark
  have hq : q = q.mark p.announced p.valuesGiven := Except.ok.inj hmark
  constructor
  · rw [hq, mark]
  · rw [hq, mark]

/-- A word is read as long as no zero has been read: it gives one more literal, or is the zero. -/
theorem readWord_eq_ok {word : List Char} :
    p.readWord word = .ok q ↔ p.ended = false ∧
      ((∃ l : Literal, Numeral.signed? 64 word = some l.toInt
          ∧ q = { p with values := p.values ++ [l] })
        ∨ Numeral.signed? 64 word = some 0 ∧ q = { p with ended := true }) := by
  unfold readWord
  cases hword : Numeral.signed? 64 word with
  | none => simp
  | some n =>
      by_cases hended : p.ended = true
      · simp [hended]
      · simp only [Bool.not_eq_true] at hended
        simp only [hended, Bool.false_eq_true, if_false, true_and, Option.some.injEq]
        cases hliteral : Literal.ofInt? n with
        | none =>
            obtain rfl := Literal.ofInt?_eq_none.mp hliteral
            have hzero : ∀ l : Literal, (0 : Int) ≠ l.toInt := fun l => l.toInt_ne_zero.symm
            simp [hzero, eq_comm]
        | some l =>
            obtain rfl := Literal.ofInt?_eq_some.mp hliteral
            have hone : ∀ l' : Literal, l.toInt = l'.toInt ↔ l = l' := by
              intro l'
              rw [← Literal.ofInt?_eq_some, Literal.ofInt?_toInt, Option.some.injEq]
            simp [hone, l.toInt_ne_zero, eq_comm]

theorem readWords_of_spells {words : List (List Char)} {values : List Literal}
    (hspells : Spells words values) (hopen : p.ended = false) :
    words.foldlM readWord p = .ok { p with values := p.values ++ values, ended := true } := by
  induction hspells generalizing p with
  | zero hword =>
      refine bind_eq_ok.mpr ⟨_, readWord_eq_ok.mpr ⟨hopen, .inr ⟨hword, rfl⟩⟩, ?_⟩
      rw [List.append_nil]
      rfl
  | @literal word words l values hword hrest ih =>
      refine bind_eq_ok.mpr ⟨_, readWord_eq_ok.mpr ⟨hopen, .inl ⟨l, hword, rfl⟩⟩, ?_⟩
      have hread := ih (p := { p with values := p.values ++ [l] }) hopen
      rwa [List.append_assoc] at hread

theorem exists_spells_of_readWords {words : List (List Char)} (hopen : p.ended = false)
    (h : words.foldlM readWord p = .ok q) (hended : q.ended = true) :
    ∃ values, Spells words values ∧ q.values = p.values ++ values := by
  induction words generalizing p with
  | nil =>
      cases h
      exact absurd hended (by simp [hopen])
  | cons word words ih =>
      obtain ⟨r, hr, hrest⟩ := bind_eq_ok.mp h
      rcases (readWord_eq_ok.mp hr).2 with ⟨l, hword, rfl⟩ | ⟨hword, rfl⟩
      · obtain ⟨values, hspells, hvalues⟩ :=
          ih (p := { p with values := p.values ++ [l] }) hopen hrest
        exact ⟨l :: values, .literal hword hspells, by simpa using hvalues⟩
      · -- after the zero no word is read, so there is none
        cases words with
        | nil =>
            cases hrest
            exact ⟨[], .zero hword, (List.append_nil _).symm⟩
        | cons next words =>
            obtain ⟨_, hnext, -⟩ := bind_eq_ok.mp hrest
            have hopen' : true = false := (readWord_eq_ok.mp hnext).1
            cases hopen'

/-! ### Lines -/

theorem readLine_of_isValueLine {line : List Char} (hline : IsValueLine line) :
    p.readLine line = (valueWords line).foldlM readWord (p.mark p.announced true) := by
  have hmark : line.head? ≠ some 's' := by
    rcases hline with rfl | ⟨rest, rfl⟩ <;> simp
  rw [readLine, if_neg hmark, valueWords?_eq_some_iff.mpr ⟨hline, rfl⟩]
  rfl

theorem readLine_announcement (hnone : p.announced = none) (a : Announcement) :
    p.readLine a.line = .ok (p.mark (some a) p.valuesGiven) := by
  have hmark : a.line.head? = some 's' := by
    cases a <;> decide
  have hline : announcement? a.line = some a := by
    cases a <;> decide
  rw [readLine, if_pos hmark, hline]
  simp only [hnone, Option.isSome_none, Bool.false_eq_true, if_false]
  rfl

theorem isValueLine_or_announces_of_readLine {line : List Char} (h : p.readLine line = .ok q) :
    IsValueLine line ∨ p.announced = none ∧ ∃ a : Announcement, line = a.line := by
  unfold readLine at h
  split at h
  · right
    split at h
    · cases h
    · rename_i a ha
      have hline : a.line = line := by simpa using List.find?_some ha
      split at h
      · cases h
      · rename_i hnone
        exact ⟨by simpa using hnone, a, hline.symm⟩
  · left
    split at h
    · cases h
    · rename_i words hwords
      exact (valueWords?_eq_some_iff.mp hwords).1

/-- Value lines are read as if their words stood in one line. -/
theorem readLines_of_isValueLine {rows : List (List Char)}
    (hrows : ∀ line ∈ rows, IsValueLine line) :
    rows.foldlM readLine p =
      (rows.flatMap valueWords).foldlM readWord
        (p.mark p.announced (p.valuesGiven || !rows.isEmpty)) := by
  induction rows generalizing p with
  | nil =>
      rw [List.isEmpty_nil, Bool.not_true, Bool.or_false]
      rfl
  | cons line rest ih =>
      obtain ⟨hline, hrest⟩ := List.forall_mem_cons.mp hrows
      rw [List.foldlM_cons, readLine_of_isValueLine hline, List.flatMap_cons, List.foldlM_append,
        List.isEmpty_cons, Bool.not_false, Bool.or_true]
      cases hread : (valueWords line).foldlM readWord (p.mark p.announced true) with
      | error fault => rfl
      | ok r =>
          have hgiven : r.valuesGiven = true := (frame_of_readWords hread).2
          have hsame : r.mark r.announced (r.valuesGiven || !rest.isEmpty) = r := by
            rw [hgiven, Bool.true_or, mark, ← hgiven]
          change rest.foldlM readLine r = _
          rw [ih hrest, hsame]
          rfl

/-- Where the status line stands among the value lines does not matter. -/
theorem readLines_of_announces {rows given : List (List Char)} {a : Announcement}
    (h : Announces rows a given) :
    rows.foldlM readLine {} =
      (given.flatMap valueWords).foldlM readWord
        { announced := some a, valuesGiven := !given.isEmpty } := by
  obtain ⟨before, after, rfl, rfl, hvalues⟩ := h
  obtain ⟨hbefore, hafter⟩ := List.forall_mem_append.mp hvalues
  let start : Progress := { valuesGiven := !before.isEmpty }
  have hmark : ({ announced := some a, valuesGiven := !(before ++ after).isEmpty } : Progress) =
      start.mark (some a) (!(before ++ after).isEmpty) := rfl
  rw [List.foldlM_append, readLines_of_isValueLine hbefore, List.flatMap_append,
    List.foldlM_append, hmark, readWords_mark (p := start)]
  change (before.flatMap valueWords).foldlM readWord start >>= _ = _
  cases hread : (before.flatMap valueWords).foldlM readWord start with
  | error fault => rfl
  | ok r =>
      obtain ⟨hnone, hgiven⟩ := frame_of_readWords hread
      change (a.line :: after).foldlM readLine r = (after.flatMap valueWords).foldlM readWord
        (r.mark (some a) (!(before ++ after).isEmpty))
      rw [List.foldlM_cons, readLine_announcement hnone]
      change after.foldlM readLine (r.mark (some a) r.valuesGiven) = _
      rw [readLines_of_isValueLine hafter]
      have hsome : (r.valuesGiven || !after.isEmpty) = !(before ++ after).isEmpty := by
        rw [hgiven]
        cases before <;> cases after <;> rfl
      rw [← hsome]
      rfl

theorem isValueLine_of_readLines {rows : List (List Char)} (hsome : p.announced ≠ none)
    (h : rows.foldlM readLine p = .ok q) : ∀ line ∈ rows, IsValueLine line := by
  induction rows generalizing p with
  | nil => exact fun line hline => absurd hline List.not_mem_nil
  | cons line rest ih =>
      obtain ⟨r, hr, hrest⟩ := bind_eq_ok.mp h
      have hline : IsValueLine line :=
        (isValueLine_or_announces_of_readLine hr).resolve_right fun hnone => hsome hnone.1
      rw [readLine_of_isValueLine hline] at hr
      have hsome' : r.announced ≠ none := by
        rw [(frame_of_readWords hr).1]
        exact hsome
      exact List.forall_mem_cons.mpr ⟨hline, ih hsome' hrest⟩

theorem exists_announces_of_readLines {rows : List (List Char)} (hnone : p.announced = none)
    (h : rows.foldlM readLine p = .ok q) (hsome : q.announced ≠ none) :
    ∃ a given, Announces rows a given := by
  induction rows generalizing p with
  | nil =>
      cases h
      exact absurd hnone hsome
  | cons line rest ih =>
      obtain ⟨r, hr, hrest⟩ := bind_eq_ok.mp h
      rcases isValueLine_or_announces_of_readLine hr with hline | ⟨-, a, rfl⟩
      · rw [readLine_of_isValueLine hline] at hr
        have hnone' : r.announced = none := (frame_of_readWords hr).1.trans hnone
        obtain ⟨a, given, before, after, rfl, rfl, hvalues⟩ := ih hnone' hrest
        refine ⟨a, line :: (before ++ after), line :: before, after, rfl, rfl, ?_⟩
        exact List.forall_mem_cons.mpr ⟨hline, hvalues⟩
      · rw [readLine_announcement hnone] at hr
        cases hr
        have hvalues := isValueLine_of_readLines (by simp [mark]) hrest
        exact ⟨a, rest, [], rest, rfl, rfl, hvalues⟩

end Progress

/-! ### Whole answers -/

theorem readSatisfiability_eq_ok {output : String} {answer : Satisfiability} :
    readSatisfiability output = .ok answer ↔
      ∃ p : Progress, (rows output).foldlM Progress.readLine {} = .ok p
        ∧ p.conclude = .ok answer := by
  rw [readSatisfiability, bind_eq_ok]
  refine exists_congr fun p => and_congr readLines_eq_ok ?_
  exact mapError_eq_ok

theorem Progress.conclude_eq_ok {p : Progress} {answer : Satisfiability} :
    p.conclude = .ok answer ↔
      (p.announced = some .satisfiable ∧ p.valuesGiven = true ∧ p.ended = true
          ∧ answer = .satisfiable p.values)
        ∨ (p.announced = some .unsatisfiable ∧ p.valuesGiven = false ∧ answer = .unsatisfiable)
        ∨ (p.announced = some .unknown ∧ p.valuesGiven = false ∧ answer = .unknown) := by
  obtain ⟨announced, values, valuesGiven, ended⟩ := p
  unfold conclude
  rcases announced with _ | _ | _ | _
  · simp
  · cases valuesGiven <;> cases ended <;> simp [eq_comm]
  · cases valuesGiven <;> simp [eq_comm]
  · cases valuesGiven <;> simp [eq_comm]

theorem Gives.of_announces {rows given : List (List Char)} {a : Announcement}
    (h : Announces rows a given) {p : Progress} {answer : Satisfiability}
    (hread : rows.foldlM Progress.readLine {} = .ok p) (hconclude : p.conclude = .ok answer) :
    Gives rows answer := by
  rw [Progress.readLines_of_announces h] at hread
  obtain ⟨hannounced, hgiven⟩ := Progress.frame_of_readWords hread
  have hnone : p.valuesGiven = false → given = [] := by
    intro hvalues
    rw [hgiven] at hvalues
    simpa using hvalues
  rcases Progress.conclude_eq_ok.mp hconclude with
    ⟨ha, -, hended, rfl⟩ | ⟨ha, hvalues, rfl⟩ | ⟨ha, hvalues, rfl⟩
  · obtain rfl : a = .satisfiable := Option.some.inj (hannounced.symm.trans ha)
    obtain ⟨values, hspells, hvalues⟩ := Progress.exists_spells_of_readWords rfl hread hended
    rw [hvalues]
    exact .satisfiable h hspells
  · obtain rfl : a = .unsatisfiable := Option.some.inj (hannounced.symm.trans ha)
    exact .unsatisfiable (hnone hvalues ▸ h)
  · obtain rfl : a = .unknown := Option.some.inj (hannounced.symm.trans ha)
    exact .unknown (hnone hvalues ▸ h)

theorem Spells.ne_nil {words : List (List Char)} {values : List Literal}
    (h : Spells words values) : words ≠ [] := by
  cases h <;> exact List.cons_ne_nil _ _

/-- **The reader accepts exactly the well-formed answers.** -/
theorem readSatisfiability_eq_ok_iff_gives {output : String} {answer : Satisfiability} :
    readSatisfiability output = .ok answer ↔ Gives (rows output) answer := by
  rw [readSatisfiability_eq_ok]
  constructor
  · rintro ⟨p, hread, hconclude⟩
    have hsome : p.announced ≠ none := by
      intro hnone
      rw [Progress.conclude, hnone] at hconclude
      cases hconclude
    obtain ⟨a, given, h⟩ := Progress.exists_announces_of_readLines rfl hread hsome
    exact .of_announces h hread hconclude
  · intro hgives
    cases hgives with
    | @satisfiable given values hstatus hspells =>
        have hgiven : given ≠ [] := by
          rintro rfl
          exact hspells.ne_nil rfl
        refine ⟨_, (Progress.readLines_of_announces hstatus).trans
          (Progress.readWords_of_spells hspells rfl), ?_⟩
        simp [Progress.conclude, hgiven]
    | unsatisfiable hstatus =>
        exact ⟨_, Progress.readLines_of_announces hstatus, rfl⟩
    | unknown hstatus =>
        exact ⟨_, Progress.readLines_of_announces hstatus, rfl⟩

end SolverAudit.Status
