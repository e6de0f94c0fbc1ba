import SolverAudit.Proofs.Answer.Lines

/-!
# The front of a text

How a reader goes on depends on the blanks in front of a text and on the kind of the token behind
them. Both are known once one character of this token has been seen, whatever follows it.
-/

namespace SolverAudit

namespace Answer

/-- What a token is, the letters of words aside. -/
inductive Kind where
  | opening
  | closing
  | comma
  | word
deriving DecidableEq

def Token.kind : Token → Kind
  | .opening => .opening
  | .closing => .closing
  | .comma => .comma
  | .word _ => .word

/-- No character in front is a blank. -/
def StartsDark (text : List Char) : Prop :=
  ∀ c ∈ text.head?, isBlank c = false

namespace Layout

variable {text before after blanks letters : List Char} {c : Char} {layout rest : Layout}
  {t : Token}

/-- The kind of the first token. -/
def kind? : Layout → Option Kind
  | stop _ => none
  | token _ t _ => some t.kind

theorem kind?_eq_mark (hmark : ∀ letters, t ≠ .word letters) :
    layout.kind? = some t.kind ↔ ∃ blanks rest, layout = token blanks t rest := by
  constructor
  · intro h
    cases layout with
    | stop => cases h
    | token blanks t' rest =>
        have hkind : t'.kind = t.kind := Option.some.inj h
        have hsame : t' = t := by
          cases t with
          | word letters => exact absurd rfl (hmark letters)
          | opening | closing | comma => cases t' <;> first | rfl | cases hkind
        exact ⟨blanks, rest, by rw [hsame]⟩
  · rintro ⟨blanks, rest, rfl⟩
    rfl

theorem kind?_eq_opening :
    layout.kind? = some .opening ↔ ∃ blanks rest, layout = token blanks .opening rest :=
  kind?_eq_mark (t := .opening) fun _ h => nomatch h

theorem kind?_eq_closing :
    layout.kind? = some .closing ↔ ∃ blanks rest, layout = token blanks .closing rest :=
  kind?_eq_mark (t := .closing) fun _ h => nomatch h

theorem kind?_eq_comma :
    layout.kind? = some .comma ↔ ∃ blanks rest, layout = token blanks .comma rest :=
  kind?_eq_mark (t := .comma) fun _ h => nomatch h

theorem kind?_ne_closing (h : ∀ blanks rest, layout = token blanks .closing rest → False) :
    layout.kind? ≠ some .closing := by
  rw [Ne, kind?_eq_closing]
  rintro ⟨_, _, hlayout⟩
  exact h _ _ hlayout

theorem kind?_ne_comma (h : ∀ blanks rest, layout = token blanks .comma rest → False) :
    layout.kind? ≠ some .comma := by
  rw [Ne, kind?_eq_comma]
  rintro ⟨_, _, hlayout⟩
  exact h _ _ hlayout

theorem exists_letters (h : layout.kind? = some .word) :
    ∃ blanks letters rest, layout = token blanks (.word letters) rest := by
  cases layout with
  | stop => cases h
  | token blanks t rest => cases t <;> first | exact ⟨_, _, _, rfl⟩ | cases h

/-! ### Margins and bodies -/

theorem kind?_consBlank (c : Char) (layout : Layout) :
    (layout.consBlank c).kind? = layout.kind? := by
  cases layout <;> rfl

theorem kind?_consLetter (c : Char) (layout : Layout) :
    (layout.consLetter c).kind? = some .word := by
  unfold consLetter
  split <;> rfl

theorem startsDark_body (text : List Char) : StartsDark (ofText text).body := by
  have hworded := worded_ofText text
  cases hlayout : ofText text with
  | stop => exact fun c hc => nomatch hc
  | token blanks t rest =>
      rw [hlayout] at hworded
      cases t with
      | opening | closing | comma =>
          rintro c ⟨⟩
          decide
      | word letters =>
          obtain ⟨hne, hletters⟩ := hworded.isWord
          obtain ⟨d, letters, rfl⟩ := List.exists_cons_of_ne_nil hne
          rintro c ⟨⟩
          exact (isWordChar_iff.mp (hletters d List.mem_cons_self)).1

theorem ofText_append_mark (hmark : ∀ after, ofText (c :: after) = token [] t (ofText after))
    (hblanks : IsBlanks blanks) (after : List Char) :
    ofText (blanks ++ c :: after) = token blanks t (ofText after) :=
  (ofText_eq_mark_iff hmark).mpr ⟨after, rfl, hblanks, rfl⟩

theorem endsWord_append_mark (hblanks : IsBlanks blanks) (hc : isWordChar c = false)
    (after : List Char) : EndsWord (blanks ++ c :: after) := by
  rcases blanks with _ | ⟨d, blanks⟩
  · exact endsWord_cons hc after
  · exact endsWord_cons (isWordChar_eq_false_of_isBlank (hblanks d List.mem_cons_self)) _

/-- A word takes all letters that follow. -/
theorem exists_of_ofText_eq_word (h : ofText text = token blanks (.word letters) rest) :
    ∃ after, text = blanks ++ (letters ++ after) ∧ IsBlanks blanks ∧ IsWord letters
      ∧ EndsWord after ∧ rest = ofText after := by
  obtain ⟨after, rfl, hblanks, rfl⟩ := exists_of_ofText_eq_token h
  have hword : IsWord letters := (h ▸ worded_ofText _ : Worded _).isWord
  refine ⟨after, rfl, hblanks, hword, ?_, rfl⟩
  rcases after with _ | ⟨c, after⟩
  · exact fun _ hc => nomatch hc
  cases hc : isWordChar c with
  | false => exact endsWord_cons hc after
  | true =>
      -- The word would be longer.
      obtain ⟨more, tail, htext, hmore, hend⟩ := exists_word_of_letter hc after
      have hlonger : IsWord (letters ++ more) :=
        ⟨List.append_ne_nil_of_left_ne_nil hword.1 _, List.forall_mem_append.mpr ⟨hword.2, hmore.2⟩⟩
      have hlayout := ofText_blanks_append hblanks (ofText_word hlonger hend)
      change ofText (blanks ++ (letters ++ c :: after)) = _ at h
      rw [htext, ← List.append_assoc letters, hlayout] at h
      obtain ⟨-, hsame, -⟩ := token.inj h
      exact absurd (List.append_right_eq_self.mp (Token.word.inj hsame)) hmore.1

theorem ne_word_of_mark (hmark : ∀ after, ofText (c :: after) = token [] t (ofText after))
    (letters : List Char) : t ≠ .word letters := by
  rintro rfl
  obtain ⟨after, -, -, -, hend, hrest⟩ := exists_of_ofText_eq_word (hmark ['a'])
  have hafter : after = ['a'] := by
    rw [← text_ofText after, ← hrest, text_ofText]
  have hletter := hend 'a' (by rw [hafter]; rfl)
  cases hletter

theorem ofText_append_word (hblanks : IsBlanks blanks) (hword : IsWord letters)
    (hend : EndsWord after) :
    ofText (blanks ++ (letters ++ after)) = token blanks (.word letters) (ofText after) := by
  rw [ofText_blanks_append hblanks (ofText_word hword hend), List.append_nil]

theorem onNewLine_iff : layout.onNewLine = true ↔ '\n' ∈ layout.margin :=
  decide_eq_true_iff

theorem margin_of_startsDark (hdark : StartsDark text) : (ofText text).margin = [] := by
  cases text with
  | nil => rfl
  | cons c text =>
      rcases isWordChar_or c with hletter | hblank | rfl | rfl | rfl
      · rw [ofText_letter hletter, margin_consLetter]
      · have hc := hdark c rfl
        rw [hblank] at hc
        cases hc
      · rfl
      · rfl
      · rfl

/-- A bracket or a comma behind a word ends it. -/
theorem ofText_word_mark {gap : List Char}
    (hmark : ∀ after, ofText (c :: after) = token [] t (ofText after))
    (hc : isWordChar c = false) (hblanks : IsBlanks blanks) (hword : IsWord letters)
    (hgap : IsBlanks gap) (after : List Char) :
    ofText (blanks ++ (letters ++ (gap ++ c :: after))) =
      token blanks (.word letters) (token gap t (ofText after)) := by
  rw [ofText_append_word hblanks hword (endsWord_append_mark hgap hc after),
    ofText_append_mark hmark hgap]

/-- A line feed among the blanks in front is seen before anything else is. -/
theorem onNewLine_of_append (h : (ofText (before ++ after)).onNewLine = true)
    (hdark : StartsDark after) (other : List Char) :
    (ofText (before ++ other)).onNewLine = true := by
  rw [onNewLine_iff] at h ⊢
  induction before with
  | nil =>
      rw [List.nil_append, margin_of_startsDark hdark] at h
      cases h
  | cons c before ih =>
      cases hc : isBlank c with
      | false =>
          have hdark' : StartsDark (c :: (before ++ after)) := by
            rintro _ ⟨⟩
            exact hc
          rw [List.cons_append, margin_of_startsDark hdark'] at h
          cases h
      | true =>
          rw [List.cons_append, ofText_blank hc, margin_consBlank] at h ⊢
          rcases List.mem_cons.mp h with hline | hline
          · exact List.mem_cons.mpr (.inl hline)
          · exact List.mem_cons_of_mem _ (ih hline)

end Layout

open Layout

/-! ### Texts with the same front -/

/-- The texts have the same blanks in front and then tokens of the same kind. -/
structure Alike (text text' : List Char) : Prop where
  head : text.head? = text'.head?
  margin : (ofText text).margin = (ofText text').margin
  kind : (ofText text).kind? = (ofText text').kind?

section

variable {text text' : List Char}

theorem alike_cons {c : Char} (hc : isBlank c = false) (after after' : List Char) :
    Alike (c :: after) (c :: after') := by
  rcases isWordChar_or c with hletter | hblank | rfl | rfl | rfl
  · refine ⟨rfl, ?_, ?_⟩
    · rw [ofText_letter hletter, ofText_letter hletter, margin_consLetter, margin_consLetter]
    · rw [ofText_letter hletter, ofText_letter hletter, kind?_consLetter, kind?_consLetter]
  · rw [hc] at hblank
    cases hblank
  · exact ⟨rfl, rfl, rfl⟩
  · exact ⟨rfl, rfl, rfl⟩
  · exact ⟨rfl, rfl, rfl⟩

/-- One character of a token tells its kind. -/
theorem alike_append (before : List Char) {c : Char} (hc : isBlank c = false)
    (after after' : List Char) : Alike (before ++ c :: after) (before ++ c :: after') := by
  induction before with
  | nil => exact alike_cons hc after after'
  | cons d before ih =>
      cases hd : isBlank d with
      | false => exact alike_cons hd _ _
      | true =>
          refine ⟨rfl, ?_, ?_⟩
          · rw [List.cons_append, List.cons_append, ofText_blank hd, ofText_blank hd,
              margin_consBlank, margin_consBlank, ih.margin]
          · rw [List.cons_append, List.cons_append, ofText_blank hd, ofText_blank hd,
              kind?_consBlank, kind?_consBlank, ih.kind]

/-- The first character that is no blank tells all about the front. -/
theorem alike_of_head {before after : List Char} {c : Char} (htext : text = before ++ after)
    (hdark : StartsDark after) (hc : c ∈ after.head?) (other : List Char) :
    Alike text (before ++ c :: other) := by
  obtain ⟨tail, rfl⟩ := List.head?_eq_some_iff.mp hc
  rw [htext]
  exact alike_append before (hdark c rfl) tail other

theorem Alike.onNewLine (h : Alike text text') :
    (ofText text).onNewLine = (ofText text').onNewLine := by
  rw [Layout.onNewLine, Layout.onNewLine, h.margin]

theorem Alike.endsWord (h : Alike text text') (hend : EndsWord text) : EndsWord text' := by
  rwa [EndsWord, ← h.head]

end

end Answer

end SolverAudit
