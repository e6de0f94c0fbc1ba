import SolverAudit.Answer.Token

/-!
# Layouts of texts

The layout of a text is known from the layout of its rest: brackets, commas and blanks stand for
themselves, and letters make one word with what follows only if that is a letter as well. The words
of a layout that comes from a text are not empty and made of letters.
-/

namespace SolverAudit.Answer

theorem isWordChar_iff {c : Char} :
    isWordChar c = true ↔ isBlank c = false ∧ c ≠ '[' ∧ c ≠ ']' ∧ c ≠ ',' := by
  simp [isWordChar, and_assoc]

theorem isWordChar_or (c : Char) :
    isWordChar c = true ∨ isBlank c = true ∨ c = '[' ∨ c = ']' ∨ c = ',' := by
  rw [isWordChar_iff]
  grind

/-- The text does not start with a letter, so a word in front of it ends there. -/
def EndsWord (text : List Char) : Prop :=
  ∀ c ∈ text.head?, isWordChar c = false

theorem endsWord_cons {c : Char} (hc : isWordChar c = false) (rest : List Char) :
    EndsWord (c :: rest) := by
  rintro _ ⟨⟩
  exact hc

/-- Letters that make a word. -/
def IsWord (letters : List Char) : Prop :=
  letters ≠ [] ∧ ∀ c ∈ letters, isWordChar c = true

namespace Layout

variable {c : Char} {rest letters : List Char}

theorem ofText_opening (rest : List Char) :
    ofText ('[' :: rest) = token [] .opening (ofText rest) := rfl

theorem ofText_closing (rest : List Char) :
    ofText (']' :: rest) = token [] .closing (ofText rest) := rfl

theorem ofText_comma (rest : List Char) :
    ofText (',' :: rest) = token [] .comma (ofText rest) := rfl

theorem ofText_blank (hc : isBlank c = true) : ofText (c :: rest) = (ofText rest).consBlank c := by
  rw [ofText, if_pos hc]

theorem ofText_letter (hc : isWordChar c = true) :
    ofText (c :: rest) = (ofText rest).consLetter c := by
  obtain ⟨hblank, hopening, hclosing, hcomma⟩ := isWordChar_iff.mp hc
  rw [ofText, if_neg (Bool.eq_false_iff.mp hblank), if_neg hopening, if_neg hclosing, if_neg hcomma]

/-- A text is laid out from its end; each character is a letter, a blank, a bracket or a comma. -/
theorem ofText_induction {motive : List Char → Layout → Prop} (nil : motive [] (stop []))
    (blank : ∀ c rest, isBlank c = true → motive rest (ofText rest) →
      motive (c :: rest) ((ofText rest).consBlank c))
    (opening : ∀ rest, motive rest (ofText rest) →
      motive ('[' :: rest) (token [] .opening (ofText rest)))
    (closing : ∀ rest, motive rest (ofText rest) →
      motive (']' :: rest) (token [] .closing (ofText rest)))
    (comma : ∀ rest, motive rest (ofText rest) →
      motive (',' :: rest) (token [] .comma (ofText rest)))
    (letter : ∀ c rest, isWordChar c = true → motive rest (ofText rest) →
      motive (c :: rest) ((ofText rest).consLetter c))
    (text : List Char) : motive text (ofText text) := by
  induction text with
  | nil => exact nil
  | cons c rest ih =>
      rcases isWordChar_or c with hletter | hblank | rfl | rfl | rfl
      · rw [ofText_letter hletter]
        exact letter c rest hletter ih
      · rw [ofText_blank hblank]
        exact blank c rest hblank ih
      · exact opening rest ih
      · exact closing rest ih
      · exact comma rest ih

theorem margin_consBlank (c : Char) (layout : Layout) :
    (layout.consBlank c).margin = c :: layout.margin := by
  cases layout <;> rfl

theorem margin_consLetter (c : Char) (layout : Layout) : (layout.consLetter c).margin = [] := by
  unfold consLetter
  split <;> rfl

/-! ### Words -/

theorem consLetter_ofText (hrest : EndsWord rest) :
    (ofText rest).consLetter c = token [] (.word [c]) (ofText rest) := by
  cases rest with
  | nil => rfl
  | cons next rest =>
      -- A word in the layout of the rest would be the one that the letter joins.
      have hnext : isWordChar next = false := hrest next rfl
      rcases isWordChar_or next with hletter | hblank | rfl | rfl | rfl
      · rw [hnext] at hletter
        cases hletter
      · rw [ofText_blank hblank]
        cases ofText rest <;> rfl
      · rfl
      · rfl
      · rfl

theorem ofText_word (hletters : IsWord letters) (hrest : EndsWord rest) :
    ofText (letters ++ rest) = token [] (.word letters) (ofText rest) := by
  obtain ⟨hne, hall⟩ := hletters
  induction letters with
  | nil => exact absurd rfl hne
  | cons c letters ih =>
      obtain ⟨hc, hall⟩ := List.forall_mem_cons.mp hall
      rw [List.cons_append, ofText_letter hc]
      rcases letters with _ | ⟨next, letters⟩
      · exact consLetter_ofText hrest
      · rw [ih (List.cons_ne_nil _ _) hall]
        rfl

/-- Every word of the layout is one. -/
def Worded (layout : Layout) : Prop :=
  ∀ letters, Token.word letters ∈ layout.tokens → IsWord letters

theorem Worded.tail {blanks : List Char} {t : Token} {layout : Layout}
    (h : (token blanks t layout).Worded) : layout.Worded :=
  fun letters hletters => h letters (List.mem_cons_of_mem _ hletters)

theorem Worded.isWord {blanks : List Char} {layout : Layout}
    (h : (token blanks (.word letters) layout).Worded) : IsWord letters :=
  h letters List.mem_cons_self

theorem tokens_consBlank (c : Char) (layout : Layout) :
    (layout.consBlank c).tokens = layout.tokens := by
  cases layout <;> rfl

theorem Worded.token {blanks : List Char} {t : Token} {layout : Layout} (h : layout.Worded)
    (ht : ∀ letters, t = .word letters → IsWord letters) :
    (Layout.token blanks t layout).Worded := by
  intro letters hletters
  rcases List.mem_cons.mp hletters with hsame | hletters
  · exact ht letters hsame.symm
  · exact h letters hletters

theorem Worded.consLetter {layout : Layout} (h : layout.Worded) (hc : isWordChar c = true) :
    (layout.consLetter c).Worded := by
  unfold Layout.consLetter
  split
  · rename_i letters rest
    refine h.tail.token fun _ hsame => ?_
    obtain rfl := Token.word.inj hsame
    exact ⟨List.cons_ne_nil _ _, List.forall_mem_cons.mpr ⟨hc, h.isWord.2⟩⟩
  · refine h.token fun _ hsame => ?_
    obtain rfl := Token.word.inj hsame
    exact ⟨List.cons_ne_nil _ _, List.forall_mem_singleton.mpr hc⟩

theorem worded_ofText (text : List Char) : (ofText text).Worded := by
  refine ofText_induction (motive := fun _ layout => layout.Worded) ?nil ?blank ?opening ?closing
    ?comma ?letter text
  case nil => exact fun _ hletters => absurd hletters List.not_mem_nil
  case blank =>
    intro c rest _ ih letters hletters
    rw [tokens_consBlank] at hletters
    exact ih letters hletters
  case opening => exact fun rest ih => ih.token fun _ hsame => nomatch hsame
  case closing => exact fun rest ih => ih.token fun _ hsame => nomatch hsame
  case comma => exact fun rest ih => ih.token fun _ hsame => nomatch hsame
  case letter => exact fun c rest hc ih => ih.consLetter hc

end Layout

end SolverAudit.Answer
