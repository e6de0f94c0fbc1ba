import SolverAudit.Proofs.Answer.Front

/-!
# Where readers get stuck

A reader that refuses a text says where. What stands before that place can be continued to a text
that the reader takes, and with the character found there it no longer can, so this character is the
first one that is wrong.
-/

namespace SolverAudit

namespace Answer

open Layout

variable {α β : Type}

/-! ### Readers that get stuck at a place -/

/-- The text can be continued to one that the reader takes from the front of any text. -/
def Continues (reader : Reader α) (before : List Char) : Prop :=
  ∃ more x, Reads reader (before ++ more) x

/-- The first text can be continued, but not with the character that the second one starts with,
which is no blank. -/
structure StuckAt (reader : Reader α) (before after : List Char) : Prop where
  dark : StartsDark after
  continues : Continues reader before
  refuses : ∀ c ∈ after.head?, ∀ other,
    ∃ fault, reader (ofText (before ++ c :: other)) = .error fault

/-- The fault is seen where the reader gets stuck. -/
def Pinpointed (reader : Reader α) (text : List Char) (fault : Fault) : Prop :=
  ∃ before, text = before ++ fault.found.body ∧ StuckAt reader before fault.found.body

def Pinpoints (reader : Reader α) : Prop :=
  ∀ text fault, reader (ofText text) = .error fault → Pinpointed reader text fault

/-- The reader takes a text from the front, as it would whatever followed. -/
def Cuts (reader : Reader α) : Prop :=
  ∀ text x rest, reader (ofText text) = .ok (x, rest) →
    ∃ front after, text = front ++ after ∧ Reads reader front x ∧ rest = ofText after

section

variable {reader : Reader α} {inner : Reader β} {front text : List Char} {fault : Fault}

/-- A fault at the first token behind a text that the reader has got through. -/
theorem pinpointed_of_front {expected : Expectation}
    (hcontinues : Continues reader (front ++ (ofText text).margin))
    (hrefuses : ∀ text', Alike text text' →
      ∃ fault, reader (ofText (front ++ text')) = .error fault) :
    Pinpointed reader (front ++ text) ⟨expected, ofText text⟩ := by
  refine ⟨front ++ (ofText text).margin, ?_, startsDark_body text, hcontinues, ?_⟩
  · rw [List.append_assoc]
    exact congrArg (front ++ ·) (text_ofText text).symm
  · intro c hc other
    rw [List.append_assoc]
    exact hrefuses _ (alike_of_head (text_ofText text).symm (startsDark_body text) hc other)

/-- A fault at the first token of all. -/
theorem pinpointed_of_start {expected : Expectation}
    (hcontinues : Continues reader (ofText text).margin)
    (hrefuses : ∀ text', Alike text text' → ∃ fault, reader (ofText text') = .error fault) :
    Pinpointed reader text ⟨expected, ofText text⟩ := by
  change Pinpointed reader ([] ++ text) _
  exact pinpointed_of_front hcontinues hrefuses

/-- A fault in an inner part is one of the whole, if what is in front makes the whole go on with the
part. -/
theorem Pinpointed.behind (h : Pinpointed inner text fault) (f : β → α)
    (hok : ∀ other x rest, ((ofText text).onNewLine = true → (ofText other).onNewLine = true) →
      inner (ofText other) = .ok (x, rest) → reader (ofText (front ++ other)) = .ok (f x, rest))
    (herror : ∀ other fault, Alike text other → inner (ofText other) = .error fault →
      ∃ fault, reader (ofText (front ++ other)) = .error fault) :
    Pinpointed reader (front ++ text) fault := by
  obtain ⟨before, htext, hdark, ⟨more, x, hreads⟩, hrefuses⟩ := h
  refine ⟨front ++ before, by rw [List.append_assoc, ← htext], hdark, ⟨more, f x, ?_⟩, ?_⟩
  · intro rest
    have hline : (ofText text).onNewLine = true →
        (ofText (before ++ more ++ rest)).onNewLine = true := by
      intro h
      rw [List.append_assoc]
      rw [htext] at h
      exact onNewLine_of_append h hdark _
    have hwhole := hok _ _ _ hline (hreads rest)
    rwa [← List.append_assoc, ← List.append_assoc] at hwhole
  · intro c hc other
    obtain ⟨fault', hrefused⟩ := hrefuses c hc other
    rw [List.append_assoc]
    exact herror _ fault' (alike_of_head htext hdark hc other) hrefused

/-- A fault in a part that is followed by something else. -/
theorem Pinpointed.before (h : Pinpointed inner text fault)
    (hok : ∀ front x, Reads inner front x → Continues reader front)
    (herror : ∀ other fault, Alike text other → inner (ofText other) = .error fault →
      ∃ fault, reader (ofText other) = .error fault) :
    Pinpointed reader text fault := by
  obtain ⟨before, htext, hdark, ⟨more, x, hreads⟩, hrefuses⟩ := h
  obtain ⟨last, y, hwhole⟩ := hok _ x hreads
  refine ⟨before, htext, hdark, ⟨more ++ last, y, by rwa [← List.append_assoc]⟩, ?_⟩
  intro c hc other
  obtain ⟨fault', hrefused⟩ := hrefuses c hc other
  exact herror _ fault' (alike_of_head htext hdark hc other) hrefused

theorem Pinpointed.behind_of_map (h : Pinpointed inner text fault) {f : β → α}
    (hfront : ∀ other, reader (ofText (front ++ other)) =
      (inner (ofText other)).map fun read => (f read.1, read.2)) :
    Pinpointed reader (front ++ text) fault := by
  refine h.behind f (fun other x rest _ hread => ?_) fun other fault' _ hread => ⟨fault', ?_⟩
  · rw [hfront, hread]
    rfl
  · rw [hfront, hread]
    rfl

end

/-! ### Texts cut off the front -/

theorem TakesText.cuts {reader : Reader α} {form : Written α} (h : TakesText reader form) :
    Cuts reader := by
  intro text x rest hread
  obtain ⟨blanks, inside, after, rfl, hblanks, hform, hrest⟩ := (h text x rest).mp hread
  refine ⟨blanks ++ inside, after, (List.append_assoc ..).symm, fun other => ?_, hrest⟩
  exact (h _ _ _).mpr ⟨blanks, inside, other, List.append_assoc .., hblanks, hform, rfl⟩

/-- Tokens that end with a closing bracket are cut off behind it. -/
theorem Takes.cuts {reader : Reader α} {form : Form α} (h : Takes reader form)
    (hclosing : ∀ ts x, form ts x → ∃ us, ts = us ++ [.closing]) : Cuts reader := by
  intro text x rest hread
  obtain ⟨ts, hform, hstarts⟩ := (h _ _ _).mp hread
  obtain ⟨us, rfl⟩ := hclosing ts x hform
  obtain ⟨inside, after, rfl, hsplit, hrest⟩ := startsWith_closing_iff.mp hstarts
  refine ⟨inside ++ [']'], after, by simp, fun other => ?_, hrest⟩
  rw [List.append_assoc]
  exact (h _ _ _).mpr ⟨_, hform, startsWith_closing_iff.mpr ⟨inside, other, rfl, hsplit, rfl⟩⟩

/-! ### Extensions -/

section

variable {layout rest : Layout} {blanks letters : List Char}

theorem members_eq_error (h : layout.kind? ≠ some .word) :
    members layout = .error ⟨.argumentName, layout⟩ := by
  rcases layout with _ | ⟨_, t, _⟩
  · rfl
  · cases t with
    | word => exact absurd rfl h
    | opening | closing | comma => rfl

theorem members_word_eq_error (hclosing : rest.kind? ≠ some .closing)
    (hcomma : rest.kind? ≠ some .comma) :
    members (.token blanks (.word letters) rest) = .error ⟨.comma, rest⟩ := by
  rcases rest with _ | ⟨_, t, _⟩
  · rfl
  · cases t with
    | closing => exact absurd rfl hclosing
    | comma => exact absurd rfl hcomma
    | opening | word => rfl

end

/-- The fault is behind a comma, behind a word or in front of one. -/
theorem pinpoints_members : Pinpoints members := by
  intro text fault h
  generalize hlayout : ofText text = layout at h
  fun_induction members layout generalizing text fault with
  | case1 => cases h
  | case2 blanks letters gap tail ih =>
      obtain ⟨after, rfl, hblanks, hword, -, hrest⟩ := exists_of_ofText_eq_word hlayout
      obtain ⟨text, rfl, hgap, rfl⟩ := (ofText_eq_mark_iff ofText_comma).mp hrest.symm
      have hfront : ∀ other, members (ofText (blanks ++ letters ++ gap ++ [','] ++ other)) =
          (members (ofText other)).map fun read => (String.ofList letters :: read.1, read.2) := by
        intro other
        simp only [List.append_assoc, List.singleton_append]
        rw [ofText_word_mark ofText_comma rfl hblanks hword hgap, members]
      have hwhole := (ih text fault rfl (map_eq_error.mp h)).behind_of_map hfront
      simpa only [List.append_assoc, List.singleton_append] using hwhole
  | case3 blanks letters rest hclosing hcomma =>
      obtain rfl := Except.error.inj h
      obtain ⟨after, rfl, hblanks, hword, hend, rfl⟩ := exists_of_ofText_eq_word hlayout
      rw [← List.append_assoc]
      refine pinpointed_of_front ⟨[']'], [String.ofList letters], fun rest => ?_⟩
        fun text' halike => ?_
      · have hmargin := isBlanks_margin_ofText after
        simp only [List.append_assoc, List.singleton_append]
        rw [ofText_word_mark ofText_closing rfl hblanks hword hmargin, members]
      · -- The word ends there as well, since the other text starts with the same character.
        rw [List.append_assoc, ofText_append_word hblanks hword (halike.endsWord hend)]
        exact ⟨_, members_word_eq_error (halike.kind ▸ kind?_ne_closing hclosing)
          (halike.kind ▸ kind?_ne_comma hcomma)⟩
  | case4 layout _ _ hnone =>
      obtain rfl := Except.error.inj h
      obtain rfl := hlayout
      refine pinpointed_of_start ⟨['a', ']'], ["a"], fun rest => ?_⟩ fun text' halike => ?_
      · have hmargin := isBlanks_margin_ofText text
        have hword : IsWord ['a'] := ⟨List.cons_ne_nil _ _, List.forall_mem_singleton.mpr rfl⟩
        rw [List.append_assoc]
        change members (ofText (_ ++ (['a'] ++ ([] ++ ']' :: rest)))) = _
        rw [ofText_word_mark ofText_closing rfl hmargin hword (List.forall_mem_nil _), members]
      · refine ⟨_, members_eq_error ?_⟩
        rw [← halike.kind]
        intro h
        obtain ⟨_, _, _, hlayout⟩ := exists_letters h
        exact hnone _ _ _ hlayout

theorem ofText_append_opening {blanks : List Char} (hblanks : IsBlanks blanks)
    (after : List Char) :
    ofText (blanks ++ ['['] ++ after) = .token blanks .opening (ofText after) := by
  rw [List.append_assoc]
  exact ofText_append_mark ofText_opening hblanks after

/-- A reader of brackets gets stuck at the opening bracket or behind it. -/
theorem pinpoints_of_opening [Ord α] {set : Reader (OrderedSet α)}
    (hempty : ∀ blanks blanks' rest,
      set (.token blanks .opening (.token blanks' .closing rest)) = .ok (∅, rest))
    (hother : ∀ layout, layout.kind? ≠ some .opening → set layout = .error ⟨.opening, layout⟩)
    (hinside : ∀ blanks text fault, IsBlanks blanks → (ofText text).kind? ≠ some .closing →
      set (.token blanks .opening (ofText text)) = .error fault →
      Pinpointed set (blanks ++ ['['] ++ text) fault) :
    Pinpoints set := by
  intro text fault h
  by_cases hopening : (ofText text).kind? = some .opening
  · obtain ⟨blanks, rest, hlayout⟩ := kind?_eq_opening.mp hopening
    obtain ⟨text, rfl, hblanks, rfl⟩ := (ofText_eq_mark_iff ofText_opening).mp hlayout
    rw [hlayout] at h
    have hclosing : (ofText text).kind? ≠ some .closing := by
      intro hclosing
      obtain ⟨_, _, hrest⟩ := kind?_eq_closing.mp hclosing
      rw [hrest, hempty] at h
      cases h
    have hwhole := hinside blanks text fault hblanks hclosing h
    rwa [List.append_assoc] at hwhole
  · rw [hother _ hopening] at h
    obtain rfl := Except.error.inj h
    refine pinpointed_of_start ⟨['[', ']'], ∅, fun rest => ?_⟩
      fun text' halike => ⟨_, hother _ (halike.kind ▸ hopening)⟩
    rw [List.append_assoc]
    change set (ofText (_ ++ '[' :: ']' :: rest)) = _
    rw [ofText_append_mark ofText_opening (isBlanks_margin_ofText text), ofText_closing, hempty]

/-- A bracketed list of items gets stuck where the items do, or at its opening bracket. -/
theorem pinpoints_bracketed [Ord α] [Std.TransOrd α] [Std.LawfulEqOrd α]
    {list : Reader (List α)} {set : Reader (OrderedSet α)} (hlist : Pinpoints list)
    (hempty : ∀ blanks blanks' rest,
      set (.token blanks .opening (.token blanks' .closing rest)) = .ok (∅, rest))
    (hother : ∀ layout, layout.kind? ≠ some .opening → set layout = .error ⟨.opening, layout⟩)
    (hitems : ∀ blanks layout, layout.kind? ≠ some .closing →
      set (.token blanks .opening layout) = (list layout).map fun read => (.ofList read.1, read.2))
    (hclosing : ∀ layout, layout.kind? = some .closing → ∃ fault, list layout = .error fault) :
    Pinpoints set := by
  refine pinpoints_of_opening hempty hother fun blanks text fault hblanks hfirst h => ?_
  rw [hitems _ _ hfirst, map_eq_error] at h
  refine (hlist text fault h).behind OrderedSet.ofList (fun other x rest _ hread => ?_)
    fun other fault' halike hread => ⟨fault', ?_⟩
  · have hother : (ofText other).kind? ≠ some .closing := by
      intro hother
      obtain ⟨_, hfails⟩ := hclosing _ hother
      rw [hread] at hfails
      cases hfails
    rw [ofText_append_opening hblanks, hitems _ _ hother, hread]
    rfl
  · rw [ofText_append_opening hblanks, hitems _ _ (halike.kind ▸ hfirst), hread]
    rfl

theorem extension_of_ne_closing {blanks : List Char} {layout : Layout}
    (h : layout.kind? ≠ some .closing) :
    extension (.token blanks .opening layout) =
      (members layout).map fun read => (.ofList read.1, read.2) := by
  rcases layout with _ | ⟨_, t, _⟩
  · rfl
  · cases t with
    | closing => exact absurd rfl h
    | opening | comma | word => rfl

theorem extension_of_ne_opening {layout : Layout} (h : layout.kind? ≠ some .opening) :
    extension layout = .error ⟨.opening, layout⟩ := by
  rcases layout with _ | ⟨_, t, _⟩
  · rfl
  · cases t with
    | opening => exact absurd rfl h
    | closing | comma | word => rfl

theorem pinpoints_extension : Pinpoints extension :=
  pinpoints_bracketed pinpoints_members (fun _ _ _ => rfl) (fun _ => extension_of_ne_opening)
    (fun _ _ => extension_of_ne_closing) fun _ h => ⟨_, members_eq_error (by rw [h]; decide)⟩

theorem cuts_extension : Cuts extension := takesText_extension.cuts

/-! ### Flat sets -/

theorem flatMembers_of_error {layout : Layout} {fault : Fault}
    (h : extension layout = .error fault) : flatMembers layout = .error fault := by
  rw [flatMembers]
  split <;> simp_all

theorem flatMembers_of_ne {layout rest : Layout} {e : Extension}
    (h : extension layout = .ok (e, rest)) (hclosing : rest.kind? ≠ some .closing)
    (hcomma : rest.kind? ≠ some .comma) : flatMembers layout = .error ⟨.comma, rest⟩ := by
  rw [flatMembers]
  split
  all_goals
    rename_i he
    rw [h] at he
    cases he
  · exact absurd rfl hclosing
  · exact absurd rfl hcomma
  · rfl

/-- The fault is in an extension, behind the comma after it, or at a token that is neither a comma
nor the closing bracket. -/
theorem pinpoints_flatMembers : Pinpoints flatMembers := by
  intro text fault h
  generalize hlayout : ofText text = layout at h
  fun_induction flatMembers layout generalizing text fault with
  | case1 layout fault' he =>
      obtain rfl := Except.error.inj h
      obtain rfl := hlayout
      refine (pinpoints_extension text _ he).before
        (fun front e hreads => ⟨[']'], [e], fun rest => ?_⟩)
        fun other _ _ hother => ⟨_, flatMembers_of_error hother⟩
      rw [List.append_assoc]
      exact flatMembers_of_closing (hreads (']' :: rest))
  | case2 => cases h
  | case3 layout e gap tail he hsize ih =>
      obtain rfl := hlayout
      obtain ⟨front, after, rfl, hreads, hrest⟩ := cuts_extension _ _ _ he
      obtain ⟨text, rfl, hgap, rfl⟩ := (ofText_eq_mark_iff ofText_comma).mp hrest.symm
      have hfront : ∀ other, flatMembers (ofText (front ++ gap ++ [','] ++ other)) =
          (flatMembers (ofText other)).map fun read => (e :: read.1, read.2) := by
        intro other
        have hnext := hreads (gap ++ ',' :: other)
        rw [ofText_append_mark ofText_comma hgap] at hnext
        simp only [List.append_assoc, List.singleton_append]
        exact flatMembers_of_comma hnext
      have hwhole := (ih text fault rfl (map_eq_error.mp h)).behind_of_map hfront
      simpa only [List.append_assoc, List.singleton_append] using hwhole
  | case4 layout e rest hclosing hcomma he =>
      obtain rfl := Except.error.inj h
      obtain rfl := hlayout
      obtain ⟨front, after, rfl, hreads, rfl⟩ := cuts_extension _ _ _ he
      refine pinpointed_of_front ⟨[']'], [e], fun rest => ?_⟩ fun text' halike => ?_
      · have hclosed := hreads ((ofText after).margin ++ ']' :: rest)
        rw [ofText_append_mark ofText_closing (isBlanks_margin_ofText after)] at hclosed
        simp only [List.append_assoc, List.singleton_append]
        exact flatMembers_of_closing hclosed
      · exact ⟨_, flatMembers_of_ne (hreads text') (halike.kind ▸ kind?_ne_closing hclosing)
          (halike.kind ▸ kind?_ne_comma hcomma)⟩

theorem flatSet_of_ne_closing {blanks : List Char} {layout : Layout}
    (h : layout.kind? ≠ some .closing) :
    flatSet (.token blanks .opening layout) =
      (flatMembers layout).map fun read => (.ofList read.1, read.2) := by
  rcases layout with _ | ⟨_, t, _⟩
  · rfl
  · cases t with
    | closing => exact absurd rfl h
    | opening | comma | word => rfl

theorem flatSet_of_ne_opening {layout : Layout} (h : layout.kind? ≠ some .opening) :
    flatSet layout = .error ⟨.opening, layout⟩ := by
  rcases layout with _ | ⟨_, t, _⟩
  · rfl
  · cases t with
    | opening => exact absurd rfl h
    | closing | comma | word => rfl

theorem pinpoints_flatSet : Pinpoints flatSet :=
  pinpoints_bracketed pinpoints_flatMembers (fun _ _ _ => rfl) (fun _ => flatSet_of_ne_opening)
    (fun _ _ => flatSet_of_ne_closing)
    fun _ h => ⟨_, flatMembers_of_error (extension_of_ne_opening (by rw [h]; decide))⟩

/-! ### Sets in lines -/

section

variable {layout rest : Layout} {e : Extension} {fault : Fault}

theorem lineMembers_of_closing (blanks : List Char) (rest : Layout) :
    lineMembers (.token blanks .closing rest) = .ok ([], rest) := by
  rw [lineMembers.eq_def]

theorem lineMembers_of_error (hclosing : layout.kind? ≠ some .closing)
    (h : extension layout = .error fault) : lineMembers layout = .error fault := by
  rw [lineMembers.eq_def]
  split
  · exact absurd rfl hclosing
  · split
    · rename_i he
      rw [h] at he
      cases he
      rfl
    · rename_i he
      rw [h] at he
      cases he

theorem lineMembers_of_not_onNewLine (h : extension layout = .ok (e, rest))
    (hline : ¬ rest.onNewLine = true) :
    lineMembers layout = .error ⟨.lineAfterExtension, rest⟩ := by
  obtain ⟨blanks, tail, rfl⟩ := exists_opening_of_extension h
  rw [lineMembers.eq_def]
  dsimp only
  split
  · rename_i he
    rw [h] at he
    cases he
  · rename_i he
    rw [h] at he
    cases he
    rw [if_neg hline]

theorem lineSet_of_onNewLine (blanks : List Char) (hline : layout.onNewLine = true) :
    lineSet (.token blanks .opening layout) =
      (lineMembers layout).map fun read => (.ofList read.1, read.2) := by
  rw [lineSet.eq_def]
  dsimp only
  rw [if_pos hline]

theorem lineSet_of_not_onNewLine (blanks : List Char) (hline : ¬ layout.onNewLine = true)
    (hclosing : layout.kind? ≠ some .closing) :
    lineSet (.token blanks .opening layout) = .error ⟨.lineAfterBracket, layout⟩ := by
  rw [lineSet.eq_def]
  dsimp only
  rw [if_neg hline]
  split
  · exact absurd rfl hclosing
  · rfl

theorem lineSet_of_ne_opening (h : layout.kind? ≠ some .opening) :
    lineSet layout = .error ⟨.opening, layout⟩ := by
  rcases layout with _ | ⟨_, t, _⟩
  · rfl
  · cases t with
    | opening => exact absurd rfl h
    | closing | comma | word => rfl

end

/-- Behind an extension a set may end on the next line. -/
theorem Reads.lineMembers {text gap : List Char} {e : Extension} (h : Reads extension text e)
    (hgap : EndsLine gap) : Reads lineMembers (text ++ (gap ++ [']'])) [e] := by
  intro rest
  have hread := h (gap ++ ']' :: rest)
  simp only [List.append_assoc, List.singleton_append]
  rw [lineMembers_of_extension hread (onNewLine_ofText_append hgap _),
    ofText_append_mark ofText_closing hgap.1, lineMembers_of_closing]
  rfl

theorem endsLine_singleton : EndsLine ['\n'] :=
  ⟨List.forall_mem_singleton.mpr rfl, List.mem_singleton_self _⟩

/-- The fault is in an extension, behind the line feed after it, or there is no line feed. -/
theorem pinpoints_lineMembers : Pinpoints lineMembers := by
  intro text fault h
  generalize hlayout : ofText text = layout at h
  fun_induction Answer.lineMembers layout generalizing text fault with
  | case1 => cases h
  | case2 layout hclosing fault' he =>
      obtain rfl := Except.error.inj h
      obtain rfl := hlayout
      refine (pinpoints_extension text _ he).before
        (fun front e hreads => ⟨_, [e], hreads.lineMembers endsLine_singleton⟩)
        fun other _ halike hother => ⟨_, lineMembers_of_error ?_ hother⟩
      exact halike.kind ▸ kind?_ne_closing hclosing
  | case3 layout hclosing e rest he hline hsize ih =>
      obtain rfl := hlayout
      obtain ⟨front, after, rfl, hreads, rfl⟩ := cuts_extension _ _ _ he
      refine (ih after fault rfl (map_eq_error.mp h)).behind (e :: ·)
        (fun other es rest hnext hread => ?_) fun other fault' halike hread => ⟨fault', ?_⟩
      · rw [lineMembers_of_extension (hreads other) (hnext hline), hread]
        rfl
      · rw [lineMembers_of_extension (hreads other) (halike.onNewLine ▸ hline), hread]
        rfl
  | case4 layout hclosing e rest he hline =>
      obtain rfl := Except.error.inj h
      obtain rfl := hlayout
      obtain ⟨front, after, rfl, hreads, rfl⟩ := cuts_extension _ _ _ he
      refine pinpointed_of_front ⟨['\n', ']'], [e], ?_⟩ fun text' halike =>
        ⟨_, lineMembers_of_not_onNewLine (hreads text') (halike.onNewLine ▸ hline)⟩
      have hgap : EndsLine ((ofText after).margin ++ ['\n']) :=
        ⟨List.forall_mem_append.mpr ⟨isBlanks_margin_ofText after, endsLine_singleton.1⟩, by simp⟩
      have hclosed := hreads.lineMembers hgap
      simpa only [List.append_assoc, List.singleton_append] using hclosed

theorem pinpoints_lineSet : Pinpoints lineSet := by
  refine pinpoints_of_opening lineSet_of_closing (fun _ => lineSet_of_ne_opening)
    fun blanks text fault hblanks hclosing h => ?_
  by_cases hline : (ofText text).onNewLine = true
  · rw [lineSet_of_onNewLine blanks hline, map_eq_error] at h
    refine (pinpoints_lineMembers text fault h).behind OrderedSet.ofList
      (fun other x rest hnext hread => ?_) fun other fault' halike hread => ⟨fault', ?_⟩
    · rw [ofText_append_opening hblanks, lineSet_of_onNewLine blanks (hnext hline), hread]
      rfl
    · rw [ofText_append_opening hblanks, lineSet_of_onNewLine blanks (halike.onNewLine ▸ hline),
        hread]
      rfl
  · rw [lineSet_of_not_onNewLine blanks hline hclosing] at h
    obtain rfl := Except.error.inj h
    refine pinpointed_of_front ⟨[']'], ∅, fun rest => ?_⟩ fun text' halike => ?_
    · rw [List.append_assoc, List.append_assoc, ofText_append_opening hblanks]
      change lineSet (.token blanks .opening (ofText (_ ++ ']' :: rest))) = _
      rw [ofText_append_mark ofText_closing (isBlanks_margin_ofText text), lineSet_of_closing]
    · rw [ofText_append_opening hblanks]
      exact ⟨_, lineSet_of_not_onNewLine blanks (halike.onNewLine ▸ hline) (halike.kind ▸ hclosing)⟩

end Answer

end SolverAudit
