import SolverAudit.Proofs.Answer.Ending

/-!
# The grammar of answers in lines

In the newer dialect each extension of a set stands on a line of its own, so line feeds count behind
the opening bracket of a set and behind each extension, and nowhere else. Tokens do not show them,
so this grammar is one of texts: inside an extension it goes by the tokens, around extensions by the
blanks. What a reader takes from the front of a text is exactly what the grammar allows there.
-/

namespace SolverAudit

namespace Answer

/-! ### Written forms -/

/-- Which texts stand for which value. -/
abbrev Written (α : Type) := List Char → α → Prop

abbrev IsBlanks (text : List Char) : Prop := ∀ c ∈ text, isBlank c = true

/-- Blanks with a line feed among them, which no other blank stands in for. -/
def EndsLine (gap : List Char) : Prop := IsBlanks gap ∧ '\n' ∈ gap

/-- An extension is known by the tokens between its brackets, whatever blanks are among them. -/
def ExtensionText : Written Extension := fun text e =>
  ∃ inside ts, text = '[' :: (inside ++ [']']) ∧ Split inside ts
    ∧ ExtensionForm (.opening :: ts ++ [.closing]) e

/-- Extensions, the end of a line behind each. -/
inductive RowsText : Written (List Extension)
  | nil : RowsText [] []
  | cons {text gap rows : List Char} {e : Extension} {es : List Extension}
      (he : ExtensionText text e) (hgap : EndsLine gap) (hrows : RowsText rows es) :
      RowsText (text ++ (gap ++ rows)) (e :: es)

/-- A set is written in lines. Only the empty set may stand on one line. -/
inductive BlockText : Written Extensions
  | short {gap : List Char} (hgap : IsBlanks gap) (hline : '\n' ∉ gap) :
      BlockText ('[' :: (gap ++ [']'])) ∅
  | long {gap rows : List Char} {list : List Extension} {es : Extensions} (hgap : EndsLine gap)
      (hrows : RowsText rows list) (hes : ∀ e, e ∈ es ↔ e ∈ list) :
      BlockText ('[' :: (gap ++ (rows ++ [']']))) es

section

variable {α : Type}

/-- The form with blanks around it. -/
def Padded (form : Written α) : Written α := fun text x =>
  ∃ before inside after, text = before ++ (inside ++ after) ∧ IsBlanks before ∧ form inside x
    ∧ IsBlanks after

/-- Three sets in brackets with commas between them. -/
def TripleText (set : Written Extensions) : Written (Extensions × Extensions × Extensions) :=
  fun text (first, second, third) =>
    ∃ us vs ws, text = '[' :: (us ++ ',' :: (vs ++ ',' :: (ws ++ [']'])))
      ∧ Padded set us first ∧ Padded set vs second ∧ Padded set ws third

end

/-! ### Layouts and the texts they come from -/

namespace Layout

variable {text blanks after : List Char} {t : Token} {c : Char} {rest layout : Layout}
  {ts : List Token}

theorem isBlanks_margin_ofText (text : List Char) : IsBlanks (ofText text).margin := by
  refine ofText_induction (motive := fun _ layout => IsBlanks layout.margin) ?nil ?blank ?opening
    ?closing ?comma ?letter text
  case nil => exact fun _ hc => absurd hc List.not_mem_nil
  case blank =>
    intro c rest hc ih
    rw [margin_consBlank]
    exact List.forall_mem_cons.mpr ⟨hc, ih⟩
  case opening => exact fun _ _ _ hc => absurd hc List.not_mem_nil
  case closing => exact fun _ _ _ hc => absurd hc List.not_mem_nil
  case comma => exact fun _ _ _ hc => absurd hc List.not_mem_nil
  case letter =>
    intro c rest _ _
    rw [margin_consLetter]
    exact fun _ hc => absurd hc List.not_mem_nil

/-- What is left behind a token is the layout of a text again. -/
theorem ofText_text_of_token (h : ofText text = token blanks t rest) : ofText rest.text = rest := by
  revert h
  refine ofText_induction (motive := fun _ layout => ∀ {blanks t rest},
    layout = token blanks t rest → ofText rest.text = rest) ?nil ?blank ?opening ?closing ?comma
    ?letter text
  case nil => exact fun h => nomatch h
  case blank =>
    intro c rest _ ih blanks t tail h
    cases hlayout : ofText rest with
    | stop => rw [hlayout] at h; cases h
    | token =>
        rw [hlayout] at h
        cases h
        exact ih hlayout
  case opening =>
    rintro rest _ _ _ _ ⟨⟩
    rw [text_ofText]
  case closing =>
    rintro rest _ _ _ _ ⟨⟩
    rw [text_ofText]
  case comma =>
    rintro rest _ _ _ _ ⟨⟩
    rw [text_ofText]
  case letter =>
    intro c rest _ ih blanks t tail h
    unfold consLetter at h
    split at h
    · rename_i hlayout
      cases h
      exact ih hlayout
    · cases h
      rw [text_ofText]

theorem exists_of_ofText_eq_token (h : ofText text = token blanks t rest) :
    ∃ after, text = blanks ++ (t.text ++ after) ∧ IsBlanks blanks ∧ rest = ofText after := by
  have htext := text_ofText text
  have hblanks := isBlanks_margin_ofText text
  rw [h] at htext hblanks
  refine ⟨rest.text, ?_, hblanks, (ofText_text_of_token h).symm⟩
  rw [← htext]
  simp [Layout.text, margin, body]

theorem ofText_eq_stop_iff : ofText text = stop blanks ↔ text = blanks ∧ IsBlanks blanks := by
  constructor
  · intro h
    have htext := text_ofText text
    have hblanks := isBlanks_margin_ofText text
    rw [h] at htext hblanks
    exact ⟨htext.symm.trans (List.append_nil _), hblanks⟩
  · rintro ⟨rfl, hblanks⟩
    induction text with
    | nil => rfl
    | cons c text ih =>
        obtain ⟨hc, hblanks⟩ := List.forall_mem_cons.mp hblanks
        rw [ofText_blank hc, ih hblanks, consBlank]

theorem ofText_blanks_append (hblanks : IsBlanks blanks) {margin : List Char}
    (h : ofText text = token margin t rest) :
    ofText (blanks ++ text) = token (blanks ++ margin) t rest := by
  induction blanks with
  | nil => exact h
  | cons c blanks ih =>
      obtain ⟨hc, hblanks⟩ := List.forall_mem_cons.mp hblanks
      rw [List.cons_append, ofText_blank hc, ih hblanks, consBlank, List.cons_append]

/-- Brackets and commas are told by one character, whatever follows it. -/
theorem ofText_eq_mark_iff (hmark : ∀ after, ofText (c :: after) = token [] t (ofText after)) :
    ofText text = token blanks t rest ↔
      ∃ after, text = blanks ++ c :: after ∧ IsBlanks blanks ∧ rest = ofText after := by
  constructor
  · intro h
    obtain ⟨after, htext, hblanks, hrest⟩ := exists_of_ofText_eq_token h
    have hone : t.text = [c] := by
      have h := text_ofText [c]
      rw [hmark] at h
      simpa [Layout.text, margin, body, ofText] using h
    exact ⟨after, by rw [htext, hone, List.singleton_append], hblanks, hrest⟩
  · rintro ⟨after, rfl, hblanks, rfl⟩
    rw [ofText_blanks_append hblanks (hmark after), List.append_nil]

theorem StartsWith.consBlank (h : StartsWith rest layout ts) (hsome : ts ≠ []) (c : Char) :
    StartsWith rest (layout.consBlank c) ts := by
  cases h with
  | nil => exact absurd rfl hsome
  | cons h => exact .cons h

/-- Tokens up to a closing bracket stand in front of a layout if the text up to the bracket is split
into them: no word goes on across a bracket. -/
theorem startsWith_closing_iff : StartsWith rest (ofText text) (ts ++ [.closing]) ↔
    ∃ inside after, text = inside ++ ']' :: after ∧ Split inside ts ∧ rest = ofText after := by
  constructor
  · intro h
    obtain ⟨inside, after, rfl, rfl⟩ :
        ∃ inside after, text = inside ++ ']' :: after ∧ rest = ofText after := by
      induction ts generalizing text with
      | nil =>
          obtain ⟨blanks, hlayout⟩ := startsWith_singleton.mp h
          obtain ⟨after, htext, -, hrest⟩ := (ofText_eq_mark_iff ofText_closing).mp hlayout
          exact ⟨blanks, after, htext, hrest⟩
      | cons t ts ih =>
          obtain ⟨blanks, tail, hlayout, htail⟩ := startsWith_cons.mp h
          obtain ⟨behind, rfl, -, rfl⟩ := exists_of_ofText_eq_token hlayout
          obtain ⟨inside, after, rfl, hrest⟩ := ih htail
          exact ⟨blanks ++ (t.text ++ inside), after, by simp, hrest⟩
    refine ⟨inside, after, rfl, split_iff.mpr ?_, rfl⟩
    -- Both ways to split the whole text end with the tokens behind the bracket.
    have hwhole := ((split_ofText inside).append (.closing (split_ofText after))
      (.inr (endsWord_cons (c := ']') rfl after))).tokens_ofText
    have htokens : ∀ {layout : Layout} {ts : List Token}, StartsWith (ofText after) layout ts →
        layout.tokens = ts ++ (ofText after).tokens := by
      intro layout ts h
      induction h with
      | nil => rfl
      | cons _ ih => exact congrArg (_ :: ·) ih
    rw [htokens h, List.append_assoc, List.singleton_append] at hwhole
    exact (List.append_cancel_right hwhole).symm
  · rintro ⟨inside, after, rfl, hsplit, rfl⟩
    induction hsplit with
    | nil => exact .cons .nil
    | blank hc _ ih =>
        rw [List.cons_append, ofText_blank hc]
        exact ih.consBlank (List.append_ne_nil_of_right_ne_nil _ (List.cons_ne_nil _ _)) _
    | opening _ ih => exact .cons ih
    | closing _ ih => exact .cons ih
    | comma _ ih => exact .cons ih
    | @word letters rest _ hletters hend _ ih =>
        have hends : EndsWord (rest ++ ']' :: after) := by
          cases rest with
          | nil => exact endsWord_cons (c := ']') rfl after
          | cons => exact hend
        rw [List.append_assoc, ofText_word hletters hends]
        exact .cons ih

end Layout

open Layout

/-! ### Readers -/

section

variable {α : Type} {reader : Reader α} {form : Written α} {text : List Char} {x : α}
  {rest : Layout} {activity : String}

/-- What the reader takes from the front of a text is what has the form, blanks before it aside. -/
def TakesText (reader : Reader α) (form : Written α) : Prop :=
  ∀ text x rest, reader (ofText text) = .ok (x, rest) ↔
    ∃ blanks inside after, text = blanks ++ (inside ++ after) ∧ IsBlanks blanks ∧ form inside x
      ∧ rest = ofText after

theorem exists_extensionForm_iff {e : Extension} {p : List Token → Prop} :
    (∃ ts, ExtensionForm ts e ∧ p ts) ↔
      ∃ us, ExtensionForm (.opening :: us ++ [.closing]) e ∧ p (.opening :: us ++ [.closing]) := by
  constructor
  · rintro ⟨ts, hform, hts⟩
    have hbrackets : ∃ us, ts = .opening :: us ++ [.closing] := by
      rcases hform with ⟨rfl, -⟩ | ⟨inside, -, rfl, -⟩
      · exact ⟨[], rfl⟩
      · exact ⟨inside, rfl⟩
    obtain ⟨us, rfl⟩ := hbrackets
    exact ⟨us, hform, hts⟩
  · rintro ⟨us, hform, hts⟩
    exact ⟨_, hform, hts⟩

theorem takesText_extension : TakesText extension ExtensionText := by
  intro text e rest
  rw [takes_extension, Stands, exists_extensionForm_iff]
  constructor
  · rintro ⟨ts, hform, hstarts⟩
    obtain ⟨blanks, tail, hlayout, htail⟩ := startsWith_cons.mp hstarts
    obtain ⟨behind, rfl, hblanks, rfl⟩ := (ofText_eq_mark_iff ofText_opening).mp hlayout
    obtain ⟨inside, after, rfl, hsplit, hrest⟩ := startsWith_closing_iff.mp htail
    exact ⟨blanks, '[' :: (inside ++ [']']), after, by simp, hblanks,
      ⟨inside, ts, rfl, hsplit, hform⟩, hrest⟩
  · rintro ⟨blanks, _, after, rfl, hblanks, ⟨inside, ts, rfl, hsplit, hform⟩, rfl⟩
    have hlayout : ofText (blanks ++ ('[' :: (inside ++ [']']) ++ after)) =
        token blanks .opening (ofText (inside ++ ']' :: after)) :=
      (ofText_eq_mark_iff ofText_opening).mpr ⟨_, by simp, hblanks, rfl⟩
    rw [hlayout]
    exact ⟨ts, hform, .cons (startsWith_closing_iff.mpr ⟨inside, after, rfl, hsplit, rfl⟩)⟩

/-! ### Rows of extensions -/

theorem onNewLine_ofText_append {gap : List Char} (hgap : EndsLine gap) (text : List Char) :
    (ofText (gap ++ text)).onNewLine = true := by
  obtain ⟨hblanks, hline⟩ := hgap
  have hmargin : '\n' ∈ (ofText (gap ++ text)).margin := by
    cases hlayout : ofText text with
    | stop blanks =>
        obtain ⟨rfl, htext⟩ := ofText_eq_stop_iff.mp hlayout
        rw [ofText_eq_stop_iff.mpr ⟨rfl, List.forall_mem_append.mpr ⟨hblanks, htext⟩⟩]
        exact List.mem_append_left _ hline
    | token margin t tail =>
        rw [ofText_blanks_append hblanks hlayout]
        exact List.mem_append_left _ hline
  simpa [onNewLine] using hmargin

theorem RowsText.exists_cons {rows : List Char} {es : List Extension} (h : RowsText rows es)
    (after : List Char) : ∃ t tail, ofText (rows ++ ']' :: after) = .token [] t tail := by
  cases h with
  | nil => exact ⟨_, _, ofText_closing after⟩
  | cons he _ _ =>
      obtain ⟨_, _, rfl, -⟩ := he
      exact ⟨_, _, ofText_opening _⟩

/-- The blanks in front of rows are the margin of their layout. -/
theorem RowsText.endsLine {blanks rows after : List Char} {es : List Extension}
    (h : RowsText rows es) (hblanks : IsBlanks blanks)
    (hline : (ofText (blanks ++ (rows ++ ']' :: after))).onNewLine = true) : EndsLine blanks := by
  obtain ⟨t, tail, hlayout⟩ := h.exists_cons after
  rw [ofText_blanks_append hblanks hlayout, List.append_nil] at hline
  exact ⟨hblanks, of_decide_eq_true hline⟩

theorem lineMembers_ofText_eq_ok {es : List Extension} :
    lineMembers (ofText text) = .ok (es, rest) ↔
      ∃ blanks rows after, text = blanks ++ (rows ++ ']' :: after) ∧ IsBlanks blanks
        ∧ RowsText rows es ∧ rest = ofText after := by
  constructor
  · intro h
    induction es generalizing text with
    | nil =>
        rcases exists_extension_of_lineMembers h with
          ⟨blanks, hlayout, -⟩ | ⟨_, _, _, _, _, _, hsame⟩
        · obtain ⟨after, rfl, hblanks, hrest⟩ := (ofText_eq_mark_iff ofText_closing).mp hlayout
          exact ⟨blanks, [], after, rfl, hblanks, .nil, hrest⟩
        · cases hsame
    | cons e es ih =>
        rcases exists_extension_of_lineMembers h with
          ⟨_, _, hsame⟩ | ⟨_, _, _, he, hline, hothers, hsame⟩
        · cases hsame
        · cases hsame
          obtain ⟨blanks, inside, behind, rfl, hblanks, htext, rfl⟩ :=
            (takesText_extension _ _ _).mp he
          obtain ⟨gap, rows, after, rfl, hgap, hrows, hrest⟩ := ih hothers
          exact ⟨blanks, inside ++ (gap ++ rows), after, by simp, hblanks,
            .cons htext (hrows.endsLine hgap hline) hrows, hrest⟩
  · rintro ⟨blanks, rows, after, rfl, hblanks, hrows, rfl⟩
    induction hrows generalizing blanks with
    | nil =>
        have hlayout := ofText_blanks_append hblanks (ofText_closing after)
        rw [List.nil_append, hlayout, lineMembers.eq_def]
    | @cons inside gap rows e es he hgap _ ih =>
        have hread : extension (ofText (blanks ++ (inside ++ (gap ++ rows) ++ ']' :: after))) =
            .ok (e, ofText (gap ++ (rows ++ ']' :: after))) :=
          (takesText_extension _ _ _).mpr ⟨blanks, inside, _, by simp, hblanks, he, rfl⟩
        rw [lineMembers_of_extension hread (onNewLine_ofText_append hgap _), ih gap hgap.1]
        rfl

theorem takesText_lineSet : TakesText lineSet BlockText := by
  intro text es rest
  constructor
  · intro h
    obtain ⟨blanks, tail, hlayout, hinside⟩ := exists_opening_of_lineSet h
    obtain ⟨behind, rfl, hblanks, rfl⟩ := (ofText_eq_mark_iff ofText_opening).mp hlayout
    rcases hinside with ⟨gap, hclosing, rfl⟩ | ⟨list, hline, hlist, rfl⟩
    · obtain ⟨after, rfl, hgap, hrest⟩ := (ofText_eq_mark_iff ofText_closing).mp hclosing
      refine ⟨blanks, '[' :: (gap ++ [']']), after, by simp, hblanks, ?_, hrest⟩
      by_cases hline : '\n' ∈ gap
      · exact .long ⟨hgap, hline⟩ .nil fun e => by simp
      · exact .short hgap hline
    · obtain ⟨gap, rows, after, rfl, hgap, hrows, hrest⟩ := lineMembers_ofText_eq_ok.mp hlist
      exact ⟨blanks, '[' :: (gap ++ (rows ++ [']'])), after, by simp, hblanks,
        .long (hrows.endsLine hgap hline) hrows fun _ => OrderedSet.mem_ofList, hrest⟩
  · rintro ⟨blanks, _, after, rfl, hblanks, hblock, rfl⟩
    cases hblock with
    | @short gap hgap _ =>
        have hclosing := ofText_blanks_append hgap (ofText_closing after)
        have hlayout := ofText_blanks_append hblanks (ofText_opening (gap ++ ']' :: after))
        have htext : '[' :: (gap ++ [']']) ++ after = '[' :: (gap ++ ']' :: after) := by simp
        rw [htext, hlayout, hclosing, lineSet_of_closing]
    | @long gap rows list _ hgap hrows hes =>
        have hlist := lineMembers_ofText_eq_ok.mpr ⟨gap, rows, after, rfl, hgap.1, hrows, rfl⟩
        have hlayout :=
          ofText_blanks_append hblanks (ofText_opening (gap ++ (rows ++ ']' :: after)))
        have htext : '[' :: (gap ++ (rows ++ [']'])) ++ after =
            '[' :: (gap ++ (rows ++ ']' :: after)) := by simp
        have hset : es = .ofList list :=
          OrderedSet.ext fun e => (hes e).trans OrderedSet.mem_ofList.symm
        rw [htext, hlayout, lineSet_of_lineMembers (onNewLine_ofText_append hgap _) hlist, hset]

/-! ### Triples -/

/-- Between a value and the mark behind it there may be blanks. -/
theorem TakesText.before_mark (h : TakesText reader form) {t : Token} {c : Char}
    (hmark : ∀ after, ofText (c :: after) = token [] t (ofText after)) :
    (∃ behind, reader (ofText text) = .ok (x, behind) ∧ ∃ blanks, behind = token blanks t rest) ↔
      ∃ padded after, text = padded ++ c :: after ∧ Padded form padded x ∧ rest = ofText after := by
  constructor
  · rintro ⟨_, hread, blanks, hlayout⟩
    obtain ⟨before, inside, behind, rfl, hbefore, hform, rfl⟩ := (h _ _ _).mp hread
    obtain ⟨after, rfl, hblanks, hrest⟩ := (ofText_eq_mark_iff hmark).mp hlayout
    exact ⟨before ++ (inside ++ blanks), after, by simp,
      ⟨before, inside, blanks, rfl, hbefore, hform, hblanks⟩, hrest⟩
  · rintro ⟨_, after, rfl, ⟨before, inside, blanks, rfl, hbefore, hform, hblanks⟩, rfl⟩
    exact ⟨_, (h _ _ _).mpr ⟨before, inside, blanks ++ c :: after, by simp, hbefore, hform, rfl⟩,
      blanks, (ofText_eq_mark_iff hmark).mpr ⟨after, rfl, hblanks, rfl⟩⟩

theorem takesText_triple {set : Reader Extensions} {setForm : Written Extensions}
    (hset : TakesText set setForm) : TakesText (triple set) (TripleText setForm) := by
  rintro text ⟨first, second, third⟩ rest
  simp only [triple, bind_eq_ok, expect_eq_ok]
  constructor
  · rintro ⟨_, ⟨blanks, hopening⟩, ⟨_, _⟩, hfirst, _, hcomma, ⟨_, _⟩, hsecond, _, hcomma', ⟨_, _⟩,
      hthird, _, hclosing, hsame⟩
    cases hsame
    obtain ⟨behind, rfl, hblanks, rfl⟩ := (ofText_eq_mark_iff ofText_opening).mp hopening
    obtain ⟨us, behind, rfl, hus, rfl⟩ := (hset.before_mark ofText_comma).mp ⟨_, hfirst, hcomma⟩
    obtain ⟨vs, behind, rfl, hvs, rfl⟩ := (hset.before_mark ofText_comma).mp ⟨_, hsecond, hcomma'⟩
    obtain ⟨ws, after, rfl, hws, hrest⟩ :=
      (hset.before_mark ofText_closing).mp ⟨_, hthird, hclosing⟩
    exact ⟨blanks, _, after, by simp, hblanks, ⟨us, vs, ws, rfl, hus, hvs, hws⟩, hrest⟩
  · rintro ⟨blanks, _, after, rfl, hblanks, ⟨us, vs, ws, rfl, hus, hvs, hws⟩, rfl⟩
    obtain ⟨_, hfirst, hcomma⟩ := (hset.before_mark ofText_comma).mpr
      ⟨us, vs ++ ',' :: (ws ++ ']' :: after), rfl, hus, rfl⟩
    obtain ⟨_, hsecond, hcomma'⟩ := (hset.before_mark ofText_comma).mpr
      ⟨vs, ws ++ ']' :: after, rfl, hvs, rfl⟩
    obtain ⟨_, hthird, hclosing⟩ := (hset.before_mark ofText_closing).mpr ⟨ws, after, rfl, hws, rfl⟩
    have hopening : ofText
        (blanks ++ ('[' :: (us ++ ',' :: (vs ++ ',' :: (ws ++ [']']))) ++ after)) =
        token blanks .opening (ofText (us ++ ',' :: (vs ++ ',' :: (ws ++ ']' :: after)))) :=
      (ofText_eq_mark_iff ofText_opening).mpr ⟨_, by simp, hblanks, rfl⟩
    exact ⟨_, ⟨blanks, hopening⟩, _, hfirst, _, hcomma, _, hsecond, _, hcomma', _, hthird, _,
      hclosing, rfl⟩

/-! ### Whole texts -/

theorem TakesText.read_eq_ok (h : TakesText reader form) {text : String} :
    Dialect.read activity reader text = .ok x ↔ Padded form text.toList x := by
  rw [Dialect.read_eq_ok]
  constructor
  · rintro ⟨blanks, hread⟩
    obtain ⟨before, inside, after, htext, hbefore, hform, hstop⟩ := (h _ _ _).mp hread
    obtain ⟨rfl, hafter⟩ := ofText_eq_stop_iff.mp hstop.symm
    exact ⟨before, inside, after, htext, hbefore, hform, hafter⟩
  · rintro ⟨before, inside, after, htext, hbefore, hform, hafter⟩
    exact ⟨after, (h _ _ _).mpr ⟨before, inside, after, htext, hbefore, hform,
      (ofText_eq_stop_iff.mpr ⟨rfl, hafter⟩).symm⟩⟩

/-- Exactly the texts of the form are read, with blanks around them, as the value that they stand
for, and every other text is malformed. -/
structure Accepts (read : String → Except Failure α) (form : Written α) : Prop where
  accepts_iff : ∀ text x, read text = .ok x ↔ Padded form text.toList x
  refuses : ∀ text, (∀ x, ¬ Padded form text.toList x) →
    ∃ failure, read text = .error failure ∧ failure.kind = .malformed

theorem TakesText.accepts (h : TakesText reader form) :
    Accepts (Dialect.read activity reader) form where
  accepts_iff _ _ := h.read_eq_ok
  refuses _ hnone := Dialect.malformed_of_ne_ok fun x hread => hnone x (h.read_eq_ok.mp hread)

end

/-- Blanks between the tokens of an extension change nothing, line feeds among them. -/
theorem extensionText_insert_blanks {before blanks after : List Char} {e : Extension}
    (hblanks : IsBlanks blanks) (hgap : Boundary before after) :
    ExtensionText ('[' :: (before ++ (blanks ++ after) ++ [']'])) e ↔
      ExtensionText ('[' :: (before ++ after ++ [']'])) e := by
  have hone : ∀ text, ExtensionText ('[' :: (text ++ [']'])) e ↔
      ∃ ts, Split text ts ∧ ExtensionForm (.opening :: ts ++ [.closing]) e := by
    intro text
    constructor
    · rintro ⟨inside, ts, hsame, hsplit, hform⟩
      obtain rfl := List.append_cancel_right (List.cons.inj hsame).2
      exact ⟨ts, hsplit, hform⟩
    · rintro ⟨ts, hsplit, hform⟩
      exact ⟨text, ts, rfl, hsplit, hform⟩
  simp only [hone, split_insert_blanks hblanks hgap]

/-- What stands on one line has no extension in it. -/
theorem eq_empty_of_padded_blockText {text : List Char} {es : Extensions} (hline : '\n' ∉ text)
    (h : Padded BlockText text es) : es = ∅ := by
  obtain ⟨before, _, after, rfl, -, hblock, -⟩ := h
  cases hblock with
  | short => rfl
  | long hgap => exact absurd (by simp [hgap.2]) hline

end Answer

open Answer

namespace Dialect

/-- **The newer dialect is read line by line.** Sets and triples are accepted if and only if the
grammar has their text, with blanks around it, and every other text is malformed. Inside an
extension any blanks may stand between tokens. Only line feeds end lines, so without one there is
no set but the empty one. -/
theorem iccma19_recognises_lines :
    Accepts iccma19.readSet BlockText
      ∧ Accepts iccma19.readTriple (TripleText BlockText)
      ∧ (∀ before blanks after e, IsBlanks blanks → Boundary before after →
        (ExtensionText ('[' :: (before ++ (blanks ++ after) ++ [']'])) e ↔
          ExtensionText ('[' :: (before ++ after ++ [']'])) e))
      ∧ ∀ text es, '\n' ∉ text.toList → iccma19.readSet text = .ok es → es = ∅ := by
  have hset : Accepts iccma19.readSet BlockText := takesText_lineSet.accepts
  refine ⟨hset, (takesText_triple takesText_lineSet).accepts, ?_, fun text es hline hread => ?_⟩
  · exact fun _ _ _ _ hblanks hgap => extensionText_insert_blanks hblanks hgap
  · exact eq_empty_of_padded_blockText hline ((hset.accepts_iff text es).mp hread)

theorem iccma19_recognises_lines_return :
    let e : Extension := .ofList ["a0", "a1"]
    let es : Extensions := .ofList [e]
    let spread := "[\n[a0\n,a1]\r\n]"
    let returned := "[\n[a0,a1]\r]"
    (Padded BlockText spread.toList es
        ∧ (∀ es, ¬ Padded BlockText returned.toList es)
        ∧ IsBlanks ['\n'] ∧ Boundary "a0".toList ",a1".toList
        ∧ '\n' ∉ "[\r]".toList)
      ∧ iccma19.readSet spread = .ok es
      ∧ (∃ failure, iccma19.readSet returned = .error failure ∧ failure.kind = .malformed)
      ∧ (ExtensionText "[a0\n,a1]".toList e ↔ ExtensionText "[a0,a1]".toList e)
      ∧ ∀ es, iccma19.readSet "[\r]" = .ok es → es = ∅ := by
  intro e es spread returned
  obtain ⟨hset, -, hinsert, hline⟩ := iccma19_recognises_lines
  have hblank : IsBlanks ['\n'] := List.forall_mem_singleton.mpr rfl
  have hfirst : WordForm [.word ['a', '0']] "a0" := rfl
  have hsecond : WordForm [.word ['a', '1']] "a1" := rfl
  have hlabels : ExtensionForm [.opening, .word ['a', '0'], .comma, .word ['a', '1'], .closing] e :=
    .inr ⟨[.word ['a', '0'], .comma, .word ['a', '1']], ["a0", "a1"], rfl,
      .next hfirst (.last hsecond), fun _ => OrderedSet.mem_ofList⟩
  have he : ExtensionText "[a0\n,a1]".toList e :=
    ⟨"a0\n,a1".toList, [.word ['a', '0'], .comma, .word ['a', '1']], rfl, split_iff.mpr rfl,
      hlabels⟩
  have hrows : RowsText ("[a0\n,a1]".toList ++ (['\r', '\n'] ++ [])) [e] :=
    .cons he ⟨List.all_eq_true.mp rfl, by decide⟩ .nil
  have hblock : BlockText
      ('[' :: (['\n'] ++ ("[a0\n,a1]".toList ++ (['\r', '\n'] ++ []) ++ [']']))) es :=
    .long ⟨hblank, by decide⟩ hrows fun _ => OrderedSet.mem_ofList
  have hnone : IsBlanks [] := List.forall_mem_nil _
  have hspread : Padded BlockText spread.toList es :=
    ⟨[], _, [], by decide, hnone, hblock, hnone⟩
  have hreturned : ∀ es, ¬ Padded BlockText returned.toList es := by
    intro es hpadded
    have hread := (hset.accepts_iff _ es).mpr hpadded
    have hfails : (iccma19.readSet returned).isOk = false := by decide +kernel
    rw [hread] at hfails
    cases hfails
  have hgap : Boundary "a0".toList ",a1".toList := .inr (endsWord_cons (c := ',') rfl _)
  have hone : '\n' ∉ "[\r]".toList := by decide
  exact ⟨⟨hspread, hreturned, hblank, hgap, hone⟩, (hset.accepts_iff _ _).mpr hspread,
    hset.refuses _ hreturned, hinsert _ _ _ e hblank hgap, fun es => hline _ es hone⟩

end Dialect

end SolverAudit
