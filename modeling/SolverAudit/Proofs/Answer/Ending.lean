import SolverAudit.Proofs.Answer.Grammar
import SolverAudit.Proofs.Text.Blank

/-!
# The end of an answer

Behind the last token of an answer there may be blanks. They tell layouts apart, but no reader reads
another value because of them: a set with one extension a line wants line feeds behind extensions,
yet never as the last thing of a text, since its closing bracket is still to come.
-/

namespace SolverAudit

namespace Answer

/-! ### Layouts up to the blanks at their end -/

namespace Layout

variable {blanks : List Char} {t : Token} {rest layout layout' : Layout} {c : Char}

/-- The layout without the blanks at its end. -/
def trim : Layout → Layout
  | stop _ => stop []
  | token blanks t rest => token blanks t rest.trim

theorem trim_trim (layout : Layout) : layout.trim.trim = layout.trim := by
  induction layout with
  | stop => rfl
  | token blanks t _ ih => exact congrArg (token blanks t) ih

theorem trim_consBlank (c : Char) (layout : Layout) :
    (layout.consBlank c).trim = (layout.trim.consBlank c).trim := by
  cases layout with
  | stop => rfl
  | token blanks t rest => exact congrArg (token (c :: blanks) t) rest.trim_trim.symm

theorem trim_consLetter (c : Char) (layout : Layout) :
    (layout.consLetter c).trim = layout.trim.consLetter c := by
  rcases layout with _ | ⟨_ | ⟨_, _⟩, t, rest⟩
  · rfl
  · cases t <;> rfl
  · rfl

/-- Blanks behind a text are at the end of its layout. -/
theorem trim_ofText_append (hblanks : ∀ c ∈ blanks, isBlank c = true) (text : List Char) :
    (ofText (text ++ blanks)).trim = (ofText text).trim := by
  induction text with
  | nil =>
      obtain ⟨margin, hmargin⟩ : ∃ margin, ofText blanks = stop margin := by
        induction blanks with
        | nil => exact ⟨[], rfl⟩
        | cons c blanks ih =>
            obtain ⟨hc, hblanks⟩ := List.forall_mem_cons.mp hblanks
            obtain ⟨margin, hmargin⟩ := ih hblanks
            exact ⟨c :: margin, by rw [ofText_blank hc, hmargin, consBlank]⟩
      rw [List.nil_append, hmargin]
      rfl
  | cons c text ih =>
      rw [List.cons_append]
      rcases isWordChar_or c with hletter | hblank | rfl | rfl | rfl
      · rw [ofText_letter hletter, ofText_letter hletter, trim_consLetter, trim_consLetter, ih]
      · rw [ofText_blank hblank, ofText_blank hblank, trim_consBlank, ih, ← trim_consBlank]
      · exact congrArg (token [] .opening) ih
      · exact congrArg (token [] .closing) ih
      · exact congrArg (token [] .comma) ih

theorem exists_token_of_trim_eq (h : (token blanks t rest).trim = layout'.trim) :
    ∃ rest', layout' = token blanks t rest' ∧ rest.trim = rest'.trim := by
  cases layout' with
  | stop => cases h
  | token _ _ rest' =>
      obtain ⟨rfl, rfl, hrest⟩ := token.inj h
      exact ⟨rest', rfl, hrest⟩

theorem StartsWith.exists_of_trim_eq {ts : List Token} (h : StartsWith rest layout ts)
    (hsame : layout.trim = layout'.trim) :
    ∃ rest', StartsWith rest' layout' ts ∧ rest.trim = rest'.trim := by
  induction h generalizing layout' with
  | nil => exact ⟨layout', .nil, hsame⟩
  | cons _ ih =>
      obtain ⟨_, rfl, htail⟩ := exists_token_of_trim_eq hsame
      obtain ⟨rest', hstarts, hrest⟩ := ih htail
      exact ⟨rest', .cons hstarts, hrest⟩

theorem exists_stop_of_trim_eq (h : (stop blanks).trim = layout'.trim) :
    ∃ blanks', layout' = stop blanks' := by
  cases layout' with
  | stop blanks' => exact ⟨blanks', rfl⟩
  | token => cases h

end Layout

/-! ### Readers -/

variable {α : Type} {reader : Reader α}

/-- What the reader takes from a layout it also takes from those that only end with other blanks. -/
def IgnoresEnd (reader : Reader α) : Prop :=
  ∀ ⦃layout layout' : Layout⦄ ⦃value : α⦄ ⦃rest : Layout⦄, layout.trim = layout'.trim →
    reader layout = .ok (value, rest) →
    ∃ rest', reader layout' = .ok (value, rest') ∧ rest.trim = rest'.trim

/-- Tokens are not told apart by the blanks behind them. -/
theorem Takes.ignoresEnd {form : Form α} (h : Takes reader form) : IgnoresEnd reader := by
  intro layout layout' value rest hsame hread
  obtain ⟨ts, hts, hstarts⟩ := (h layout value rest).mp hread
  obtain ⟨rest', hstarts', hrest⟩ := hstarts.exists_of_trim_eq hsame
  exact ⟨rest', (h layout' value rest').mpr ⟨ts, hts, hstarts'⟩, hrest⟩

theorem ignoresEnd_extension : IgnoresEnd extension := takes_extension.ignoresEnd

theorem ignoresEnd_flatSet : IgnoresEnd flatSet := takes_flatSet.ignoresEnd

/-- What is read line by line goes on behind the line feeds that it wants. -/
theorem exists_token_of_lineMembers {layout rest : Layout} {es : List Extension}
    (h : lineMembers layout = .ok (es, rest)) : ∃ blanks t tail, layout = .token blanks t tail := by
  rcases exists_extension_of_lineMembers h with ⟨_, rfl, -⟩ | ⟨_, _, _, he, -⟩
  · exact ⟨_, _, _, rfl⟩
  · obtain ⟨_, _, rfl⟩ := exists_opening_of_extension he
    exact ⟨_, _, _, rfl⟩

theorem onNewLine_of_trim_eq {layout layout' rest : Layout} {es : List Extension}
    (hsame : layout.trim = layout'.trim) (h : lineMembers layout = .ok (es, rest))
    (hline : layout.onNewLine = true) : layout'.onNewLine = true := by
  obtain ⟨_, _, _, rfl⟩ := exists_token_of_lineMembers h
  obtain ⟨_, rfl, -⟩ := Layout.exists_token_of_trim_eq hsame
  exact hline

theorem ignoresEnd_lineMembers : IgnoresEnd lineMembers := by
  intro layout layout' es rest hsame hread
  fun_induction lineMembers layout generalizing layout' es rest with
  | case1 =>
      cases hread
      obtain ⟨rest', rfl, hrest⟩ := Layout.exists_token_of_trim_eq hsame
      exact ⟨rest', by rw [lineMembers.eq_def], hrest⟩
  | case2 => cases hread
  | case3 layout _ e _ he hline _ ih =>
      obtain ⟨⟨others, _⟩, hothers, hvalue⟩ := map_eq_ok.mp hread
      cases hvalue
      obtain ⟨after', he', hafter⟩ := ignoresEnd_extension hsame he
      obtain ⟨rest', hothers', hrest⟩ := ih hafter hothers
      have hline' : after'.onNewLine = true := onNewLine_of_trim_eq hafter hothers hline
      exact ⟨rest', by rw [lineMembers_of_extension he' hline', hothers']; rfl, hrest⟩
  | case4 => cases hread

theorem lineSet_of_closing (blanks blanks' : List Char) (rest : Layout) :
    lineSet (.token blanks .opening (.token blanks' .closing rest)) = .ok (∅, rest) := by
  rw [lineSet.eq_def]
  dsimp only
  split
  · rw [lineMembers.eq_def, ← OrderedSet.ofList_nil]
    rfl
  · rfl

theorem ignoresEnd_lineSet : IgnoresEnd lineSet := by
  intro layout layout' es rest hsame hread
  obtain ⟨_, tail, rfl, hinside⟩ := exists_opening_of_lineSet hread
  obtain ⟨tail', rfl, htail⟩ := Layout.exists_token_of_trim_eq hsame
  rcases hinside with ⟨_, rfl, rfl⟩ | ⟨list, hline, hlist, rfl⟩
  · obtain ⟨rest', rfl, hrest⟩ := Layout.exists_token_of_trim_eq htail
    exact ⟨rest', lineSet_of_closing _ _ _, hrest⟩
  · obtain ⟨rest', hlist', hrest⟩ := ignoresEnd_lineMembers htail hlist
    have hline' : tail'.onNewLine = true := onNewLine_of_trim_eq htail hlist hline
    exact ⟨rest', lineSet_of_lineMembers hline' hlist', hrest⟩

theorem ignoresEnd_statuses : IgnoresEnd statuses := by
  intro layout layout' list rest hsame hread
  obtain ⟨⟨ts, hts, hstarts⟩, hend⟩ := statuses_eq_ok.mp hread
  obtain ⟨rest', hstarts', hrest⟩ := hstarts.exists_of_trim_eq hsame
  refine ⟨rest', statuses_eq_ok.mpr ⟨⟨ts, hts, hstarts'⟩, ?_⟩, hrest⟩
  -- No comma follows in one layout, so none does in the other.
  rintro _ _ rfl
  obtain ⟨_, hcomma, -⟩ := Layout.exists_token_of_trim_eq hrest.symm
  exact hend _ _ hcomma

/-! ### Whole texts -/

theorem IgnoresEnd.whole_eq_ok (hreader : IgnoresEnd reader) {layout layout' : Layout}
    (hsame : layout.trim = layout'.trim) {value : α} (h : whole reader layout = .ok value) :
    whole reader layout' = .ok value := by
  obtain ⟨blanks, hread⟩ := Answer.whole_eq_ok.mp h
  obtain ⟨rest', hread', hrest⟩ := hreader hsame hread
  obtain ⟨blanks', rfl⟩ := Layout.exists_stop_of_trim_eq hrest
  exact Answer.whole_eq_ok.mpr ⟨blanks', hread'⟩

end Answer

end SolverAudit
