import SolverAudit.Proofs.Answer.Position

/-!
# Where a refused text is wrong

A refused answer is reported with a line and a column. For extensions, sets and triples this is the
place of the first character that is wrong: up to there some accepted text goes the same way, and
with this character none does. For statuses it is where a word or a mark starts, since a word is
judged as a whole.
-/

namespace SolverAudit

namespace Answer

open Layout

variable {α β : Type}

/-! ### One reader after another -/

/-- The reader can take some text, takes it whatever follows, and says where it gets stuck. -/
structure Strict (reader : Reader α) : Prop where
  cuts : Cuts reader
  pinpoints : Pinpoints reader
  continues : Continues reader []

theorem Reads.andThen {reader : Reader α} {next : α → Reader β} {text text' : List Char} {x : α}
    {y : β} (h : Reads reader text x) (hnext : Reads (next x) text' y) :
    Reads (fun layout => reader layout >>= fun read => next read.1 read.2) (text ++ text') y := by
  intro rest
  change reader (ofText (text ++ text' ++ rest)) >>= _ = _
  rw [List.append_assoc, h]
  exact hnext rest

theorem Strict.andThen {reader : Reader α} {next : α → Reader β} (h : Strict reader)
    (hnext : ∀ x, Strict (next x)) :
    Strict fun layout => reader layout >>= fun read => next read.1 read.2 where
  cuts text y rest hread := by
    obtain ⟨⟨x, middle⟩, hx, hy⟩ := bind_eq_ok.mp hread
    obtain ⟨front, after, rfl, hfront, rfl⟩ := h.cuts _ _ _ hx
    obtain ⟨front', after, rfl, hfront', hrest⟩ := (hnext x).cuts _ _ _ hy
    exact ⟨front ++ front', after, (List.append_assoc ..).symm, hfront.andThen hfront', hrest⟩
  pinpoints text fault hfault := by
    dsimp only at hfault
    cases hx : reader (ofText text) with
    | error fault' =>
        have hsame : fault' = fault := by
          rw [hx] at hfault
          exact Except.error.inj hfault
        refine (h.pinpoints text fault (hsame ▸ hx)).before (fun front x hreads => ?_)
          fun other fault _ hother => ⟨fault, by rw [hother]; rfl⟩
        obtain ⟨more, y, hmore⟩ := (hnext x).continues
        exact ⟨more, y, hreads.andThen hmore⟩
    | ok read =>
        obtain ⟨x, rest⟩ := read
        rw [hx] at hfault
        obtain ⟨front, after, rfl, hfront, rfl⟩ := h.cuts _ _ _ hx
        refine ((hnext x).pinpoints after fault hfault).behind id (fun other y rest _ hread => ?_)
          fun other fault _ hother => ⟨fault, ?_⟩
        · rw [hfront other]
          exact hread
        · rw [hfront other]
          exact hother
  continues := by
    obtain ⟨more, x, hreads⟩ := h.continues
    obtain ⟨more', y, hreads'⟩ := (hnext x).continues
    exact ⟨more ++ more', y, hreads.andThen hreads'⟩

theorem strict_pure (x : α) : Strict fun layout => .ok (x, layout) where
  cuts text y rest hread := by
    cases hread
    exact ⟨[], text, rfl, fun _ => rfl, rfl⟩
  pinpoints text fault hfault := nomatch hfault
  continues := ⟨[], x, fun _ => rfl⟩

/-- A bracket or a comma, read for nothing but its place. -/
def mark (t : Token) (expected : Expectation) : Reader Unit := fun layout =>
  (expect t expected layout).map fun rest => ((), rest)

section

variable {t : Token} {c : Char} {expected : Expectation}

theorem expect_eq_error {layout : Layout} {fault : Fault}
    (h : expect t expected layout = .error fault) : fault = ⟨expected, layout⟩ := by
  unfold expect at h
  split at h
  · split at h
    · cases h
    · exact (Except.error.inj h).symm
  · exact (Except.error.inj h).symm

theorem mark_eq_ok {layout rest : Layout} {x : Unit} :
    mark t expected layout = .ok (x, rest) ↔ ∃ blanks, layout = .token blanks t rest := by
  rw [mark, map_eq_ok]
  constructor
  · rintro ⟨_, hread, hsame⟩
    cases hsame
    exact expect_eq_ok.mp hread
  · exact fun hthere => ⟨rest, expect_eq_ok.mpr hthere, rfl⟩

theorem strict_mark (hmark : ∀ after, ofText (c :: after) = token [] t (ofText after)) :
    Strict (mark t expected) := by
  have hreads : ∀ blanks, IsBlanks blanks → Reads (mark t expected) (blanks ++ [c]) () := by
    intro blanks hblanks rest
    rw [List.append_assoc]
    exact mark_eq_ok.mpr ⟨blanks, ofText_append_mark hmark hblanks rest⟩
  refine ⟨fun text x rest hread => ?_, fun text fault hfault => ?_,
    ⟨[c], (), hreads [] (List.forall_mem_nil _)⟩⟩
  · obtain ⟨blanks, hlayout⟩ := mark_eq_ok.mp hread
    obtain ⟨after, rfl, hblanks, hrest⟩ := (ofText_eq_mark_iff hmark).mp hlayout
    exact ⟨blanks ++ [c], after, by simp, hreads blanks hblanks, hrest⟩
  · obtain rfl := expect_eq_error (map_eq_error.mp hfault)
    refine pinpointed_of_start ⟨[c], (), hreads _ (isBlanks_margin_ofText text)⟩
      fun text' halike => ?_
    cases hread : mark t expected (ofText text') with
    | error fault => exact ⟨fault, rfl⟩
    | ok read =>
        -- Then the token would have been there before.
        obtain ⟨blanks, hlayout⟩ := mark_eq_ok.mp hread
        have hkind : (ofText text).kind? = some t.kind := by
          rw [halike.kind, hlayout, kind?]
        obtain ⟨blanks', rest, hthere⟩ := (kind?_eq_mark (ne_word_of_mark hmark)).mp hkind
        have hread' : mark t expected (ofText text) = .ok ((), rest) := mark_eq_ok.mpr ⟨_, hthere⟩
        rw [hfault] at hread'
        cases hread'

theorem Strict.behind_mark (hmark : ∀ after, ofText (c :: after) = token [] t (ofText after))
    (expected : Expectation) {next : Reader α} (h : Strict next) :
    Strict fun layout => expect t expected layout >>= next := by
  have hsame : (fun layout => expect t expected layout >>= next) =
      fun layout => mark t expected layout >>= fun read => next read.2 := by
    funext layout
    rw [mark]
    cases expect t expected layout <;> rfl
  rw [hsame]
  exact (strict_mark hmark).andThen fun _ => h

end

theorem strict_triple {set : Reader Extensions} (h : Strict set) : Strict (triple set) :=
  .behind_mark ofText_opening _ <| h.andThen fun first =>
    .behind_mark ofText_comma _ <| h.andThen fun second =>
      .behind_mark ofText_comma _ <| h.andThen fun third =>
        .behind_mark ofText_closing _ <| strict_pure (first, second, third)

theorem strict_extension : Strict extension :=
  ⟨cuts_extension, pinpoints_extension, ['[', ']'], ∅, fun _ => rfl⟩

theorem strict_flatSet : Strict flatSet := by
  refine ⟨takes_flatSet.cuts ?_, pinpoints_flatSet, ['[', ']'], ∅, fun _ => rfl⟩
  rintro _ es (⟨rfl, -⟩ | ⟨inside, _, rfl, -⟩)
  · exact ⟨[.opening], rfl⟩
  · exact ⟨.opening :: inside, rfl⟩

theorem strict_lineSet : Strict lineSet :=
  ⟨takesText_lineSet.cuts, pinpoints_lineSet, ['[', ']'], ∅, fun _ => lineSet_of_closing [] [] _⟩

theorem strict_setReader (dialect : Dialect) : Strict dialect.setReader := by
  cases dialect with
  | iccma17 => exact strict_flatSet
  | iccma19 => exact strict_lineSet

/-! ### Reports -/

/-- Some text that is read goes on from there. -/
def Viable (read : String → Except Failure α) (before : List Char) : Prop :=
  ∃ more x, read (.ofList (before ++ more)) = .ok x

/-- The failure names a place in a text, by the line and the column counted from one, and what is
found there. -/
def Reports (failure : Failure) (before after : List Char) : Prop :=
  failure.kind = .malformed ∧ ∃ (expected : Expectation) (last : List Char), '\n' ∉ last
    ∧ (before = last ∨ ∃ front, before = front ++ '\n' :: last)
    ∧ failure.wording =
      let wanted := expected.wording
      let line := 1 + before.count '\n'
      let column := 1 + last.length
      let found := (Misreading.mk expected before after.head?).foundWording
      s!"{wanted} at line {line}, column {column} (found {found})"

/-- A refused text is right up to the reported place and wrong with the character found there. -/
def PointsOut (read : String → Except Failure α) : Prop :=
  ∀ text failure, read text = .error failure →
    ∃ before after, text.toList = before ++ after ∧ Reports failure before after
      ∧ Viable read before ∧ ∀ c ∈ after.head?, ¬ Viable read (before ++ [c])

section

variable {reader : Reader α} {activity : String}

/-- Columns are counted from the last line feed on. -/
theorem exists_last_line (before : List Char) :
    ∃ last, '\n' ∉ last ∧ (before = last ∨ ∃ front, before = front ++ '\n' :: last)
      ∧ (before.reverse.takeWhile (· != '\n')).length = last.length := by
  have hsplit := List.takeWhile_append_dropWhile (p := (· != '\n')) (l := before.reverse)
  refine ⟨(before.reverse.takeWhile (· != '\n')).reverse, fun hline => ?_, ?_,
    List.length_reverse.symm⟩
  · have hdiffers := List.mem_takeWhile_imp (List.mem_reverse.mp hline)
    simp at hdiffers
  · cases hdrop : before.reverse.dropWhile (· != '\n') with
    | nil =>
        rw [hdrop, List.append_nil] at hsplit
        rw [hsplit, List.reverse_reverse]
        exact .inl rfl
    | cons c tail =>
        have hfirst := List.head?_dropWhile_not (· != '\n') before.reverse
        rw [hdrop] at hfirst hsplit
        obtain rfl : c = '\n' := by simpa using hfirst
        refine .inr ⟨tail.reverse, ?_⟩
        have hbefore := congrArg List.reverse hsplit
        simpa using hbefore.symm

theorem reports_of_read_eq_error {text : String} {failure : Failure}
    (h : Dialect.read activity reader text = .error failure) :
    ∃ fault, whole reader (ofText text.toList) = .error fault
      ∧ ∀ before, text.toList = before ++ fault.found.body →
        Reports failure before fault.found.body := by
  have hkind := Dialect.kind_of_read_eq_error h
  rw [Dialect.read, readText] at h
  cases hwhole : whole reader (ofText text.toList) with
  | ok x =>
      rw [hwhole] at h
      cases h
  | error fault =>
      rw [hwhole] at h
      refine ⟨fault, rfl, fun before htext => ⟨hkind, ?_⟩⟩
      obtain ⟨last, hlast, hbefore, hlength⟩ := exists_last_line before
      have hwithin : fault.within text.toList =
          ⟨fault.expected, before, fault.found.body.head?⟩ := by
        rw [Fault.within, htext, List.length_append, Nat.add_sub_cancel, List.take_left]
      have hwording : failure.wording = Cause.wording (fault.within text.toList) := by
        obtain rfl := Except.error.inj h
        dsimp only
        split <;> rfl
      refine ⟨fault.expected, last, hlast, hbefore, ?_⟩
      rw [hwording, hwithin, ← hlength]
      rfl

theorem viable_iff {before : List Char} :
    Viable (Dialect.read activity reader) before ↔
      ∃ more x blanks, reader (ofText (before ++ more)) = .ok (x, .stop blanks) := by
  simp only [Viable, Dialect.read_eq_ok, String.toList_ofList]

/-- A text is refused by the reader or for what follows the answer. -/
theorem refused_or_goes_on {layout : Layout} {fault : Fault}
    (h : whole reader layout = .error fault) :
    reader layout = .error fault
      ∨ ∃ x rest, reader layout = .ok (x, rest) ∧ rest.kind? ≠ none ∧ fault = ⟨.theEnd, rest⟩ := by
  unfold whole at h
  cases hread : reader layout with
  | error fault' =>
      rw [hread] at h
      cases h
      exact .inl rfl
  | ok read =>
      obtain ⟨x, rest⟩ := read
      rw [hread] at h
      cases rest with
      | stop => cases h
      | token blanks t rest =>
          obtain rfl := Except.error.inj h
          exact .inr ⟨x, _, rfl, fun hkind => (nomatch hkind), rfl⟩

theorem Strict.pointsOut (h : Strict reader) : PointsOut (Dialect.read activity reader) := by
  intro text failure hread
  obtain ⟨fault, hfault, hreports⟩ := reports_of_read_eq_error hread
  rcases refused_or_goes_on hfault with hstuck | ⟨x, rest, hx, hrest, rfl⟩
  · obtain ⟨before, htext, -, ⟨more, x, hreads⟩, hrefuses⟩ := h.pinpoints _ _ hstuck
    refine ⟨before, fault.found.body, htext, hreports before htext, viable_iff.mpr ?_,
      fun c hc hviable => ?_⟩
    · exact ⟨more, x, [], by rw [← List.append_nil (before ++ more)]; exact hreads []⟩
    · obtain ⟨more, x, blanks, hread⟩ := viable_iff.mp hviable
      obtain ⟨fault, hrefused⟩ := hrefuses c hc more
      rw [List.append_assoc, List.singleton_append, hrefused] at hread
      cases hread
  · obtain ⟨front, after, htext, hreads, rfl⟩ := h.cuts _ _ _ hx
    have hsplit : text.toList = front ++ (ofText after).margin ++ (ofText after).body := by
      rw [htext, List.append_assoc]
      exact congrArg (front ++ ·) (text_ofText after).symm
    refine ⟨_, _, hsplit, hreports _ hsplit, viable_iff.mpr ?_, fun c hc hviable => ?_⟩
    · refine ⟨[], x, (ofText after).margin, ?_⟩
      rw [List.append_nil, hreads,
        ofText_eq_stop_iff.mpr ⟨rfl, isBlanks_margin_ofText after⟩]
    · obtain ⟨more, x', blanks, hread⟩ := viable_iff.mp hviable
      have halike := alike_of_head (text_ofText after).symm (startsDark_body after) hc more
      rw [List.append_assoc, List.append_assoc, hreads, List.singleton_append] at hread
      rw [halike.kind, (Prod.mk.inj (Except.ok.inj hread)).2] at hrest
      exact hrest rfl

end

/-! ### Statuses -/

/-- No token goes on from one text into the other, which starts with one if it is not empty. -/
def StartsToken (before after : List Char) : Prop :=
  StartsDark after ∧ Boundary before after

theorem Boundary.prepend {front before after : List Char} (h : Boundary before after)
    (hfront : before = [] → Boundary front after) : Boundary (front ++ before) after := by
  rcases List.eq_nil_or_concat before with rfl | ⟨init, c, rfl⟩
  · rw [List.append_nil]
    exact hfront rfl
  · refine h.imp_left fun hlast d hd => hlast d ?_
    simpa using hd

theorem boundary_of_mark {c : Char} (hc : isWordChar c = false) (before after : List Char) :
    Boundary (before ++ [c]) after := by
  refine .inl fun d hd => ?_
  obtain rfl : c = d := by simpa using hd
  exact hc

/-- Statuses may start anywhere. -/
theorem exists_status {blanks : List Char} (hblanks : IsBlanks blanks) :
    ∃ more list, statuses (ofText (blanks ++ more)) = .ok (list, .stop []) := by
  refine ⟨statusText true, [true], ?_⟩
  have hend : EndsWord [] := fun _ hc => nomatch hc
  have hlayout := ofText_append_word hblanks (isWord_statusText true) hend
  rw [List.append_nil] at hlayout
  rw [hlayout]
  exact statuses_of_ne_comma (status?_statusText true) _ fun _ _ h => nomatch h

/-- The place starts a token, and some row of statuses goes on from there. -/
def StatusExpected (text : List Char) (fault : Fault) : Prop :=
  ∃ before, text = before ++ fault.found.body ∧ StartsToken before fault.found.body
    ∧ ∃ more list, statuses (ofText (before ++ more)) = .ok (list, .stop [])

theorem statusExpected_of_start (text : List Char) (expected : Expectation) :
    StatusExpected text ⟨expected, ofText text⟩ :=
  ⟨(ofText text).margin, (text_ofText text).symm,
    ⟨startsDark_body text, boundary_of_blanks (isBlanks_margin_ofText text) _⟩,
    exists_status (isBlanks_margin_ofText text)⟩

/-- A status and a comma in front of others. -/
theorem statuses_behind_comma {blanks letters gap : List Char} {accepted : Bool}
    (hblanks : IsBlanks blanks) (hword : IsWord letters) (hgap : IsBlanks gap)
    (hstatus : status? letters = some accepted) (other : List Char) :
    statuses (ofText (blanks ++ (letters ++ gap) ++ [','] ++ other)) =
      (statuses (ofText other)).map fun read => (accepted :: read.1, read.2) := by
  simp only [List.append_assoc, List.singleton_append]
  rw [ofText_word_mark ofText_comma rfl hblanks hword hgap, statuses_of_comma hstatus]

theorem statusExpected_of_error {text : List Char} {fault : Fault}
    (h : statuses (ofText text) = .error fault) : StatusExpected text fault := by
  generalize hlayout : ofText text = layout at h
  fun_induction statuses layout generalizing text fault with
  | case1 blanks letters rest hstatus =>
      obtain rfl := Except.error.inj h
      rw [← hlayout]
      exact statusExpected_of_start text _
  | case2 blanks letters accepted hstatus gap tail ih =>
      obtain ⟨after, rfl, hblanks, hword, -, hrest⟩ := exists_of_ofText_eq_word hlayout
      obtain ⟨text, rfl, hgap, rfl⟩ := (ofText_eq_mark_iff ofText_comma).mp hrest.symm
      obtain ⟨before, htext, ⟨hdark, hboundary⟩, more, list, hread⟩ :=
        ih rfl (map_eq_error.mp h)
      refine ⟨blanks ++ (letters ++ gap) ++ [','] ++ before, ?_,
        ⟨hdark, hboundary.prepend fun _ => boundary_of_mark rfl _ _⟩, more, accepted :: list, ?_⟩
      · rw [htext]
        simp
      · rw [List.append_assoc, statuses_behind_comma hblanks hword hgap hstatus, hread]
        rfl
  | case3 => cases h
  | case4 layout hword =>
      obtain rfl := Except.error.inj h
      rw [← hlayout]
      exact statusExpected_of_start text _

/-- Statuses are read alike whatever blanks follow. -/
theorem exists_of_statuses_eq_ok {text : List Char} {list : List Bool} {rest : Layout}
    (h : statuses (ofText text) = .ok (list, rest)) :
    ∃ front after, text = front ++ after ∧ rest = ofText after ∧ EndsWord after
      ∧ ∀ blanks, IsBlanks blanks →
        statuses (ofText (front ++ blanks)) = .ok (list, .stop blanks) := by
  generalize hlayout : ofText text = layout at h
  fun_induction statuses layout generalizing text list rest with
  | case1 => cases h
  | case2 blanks letters accepted hstatus gap tail ih =>
      obtain ⟨after, rfl, hblanks, hword, -, hrest⟩ := exists_of_ofText_eq_word hlayout
      obtain ⟨text, rfl, hgap, rfl⟩ := (ofText_eq_mark_iff ofText_comma).mp hrest.symm
      obtain ⟨⟨others, _⟩, hothers, hsame⟩ := map_eq_ok.mp h
      cases hsame
      obtain ⟨front, after, rfl, hafter, hend, hreads⟩ := ih rfl hothers
      refine ⟨blanks ++ (letters ++ gap) ++ [','] ++ front, after, by simp, hafter, hend,
        fun blanks' hblanks' => ?_⟩
      rw [List.append_assoc, statuses_behind_comma hblanks hword hgap hstatus, hreads _ hblanks']
      rfl
  | case3 blanks letters accepted hstatus rest' hcomma =>
      obtain ⟨after, rfl, hblanks, hword, hend, rfl⟩ := exists_of_ofText_eq_word hlayout
      cases h
      refine ⟨blanks ++ letters, after, (List.append_assoc ..).symm, rfl, hend,
        fun blanks' hblanks' => ?_⟩
      have hend' : EndsWord blanks' := fun c hc =>
        isWordChar_eq_false_of_isBlank (hblanks' c (List.mem_of_mem_head? hc))
      rw [List.append_assoc, ofText_append_word hblanks hword hend',
        ofText_eq_stop_iff.mpr ⟨rfl, hblanks'⟩]
      exact statuses_of_ne_comma hstatus _ fun _ _ h => nomatch h
  | case4 => cases h

/-- A refused text is right up to the reported place, where a token starts or nothing is left. -/
def PointsAtToken (read : String → Except Failure α) : Prop :=
  ∀ text failure, read text = .error failure →
    ∃ before after, text.toList = before ++ after ∧ Reports failure before after
      ∧ Viable read before ∧ StartsToken before after

theorem pointsAtToken_statuses {activity : String} :
    PointsAtToken (Dialect.read activity statuses) := by
  intro text failure hread
  obtain ⟨fault, hfault, hreports⟩ := reports_of_read_eq_error hread
  rcases refused_or_goes_on hfault with hstuck | ⟨list, rest, hlist, -, rfl⟩
  · obtain ⟨before, htext, hstart, more, list, hlist⟩ := statusExpected_of_error hstuck
    exact ⟨before, _, htext, hreports before htext, viable_iff.mpr ⟨more, list, [], hlist⟩, hstart⟩
  · obtain ⟨front, after, htext, rfl, hend, hreads⟩ := exists_of_statuses_eq_ok hlist
    have hmargin := isBlanks_margin_ofText after
    have hafter : (ofText after).margin ++ (ofText after).body = after := text_ofText after
    have hsplit : text.toList = front ++ (ofText after).margin ++ (ofText after).body := by
      rw [List.append_assoc, hafter, htext]
    refine ⟨_, _, hsplit, hreports _ hsplit, viable_iff.mpr ?_, startsDark_body after, ?_⟩
    · exact ⟨[], list, _, by rw [List.append_nil]; exact hreads _ hmargin⟩
    · refine (boundary_of_blanks hmargin _).prepend fun hnone => .inr ?_
      rw [hnone, List.nil_append] at hafter
      rwa [hafter]

end Answer

open Answer

namespace Dialect

/-- **A refused answer is reported where it goes wrong.** The line and the column are those of the
first wrong character of an extension, a set or a triple: some accepted text starts with what stands
before it, and none with what ends with it. For statuses they are those of a token, or of the end,
and some accepted text starts with what stands before it. -/
theorem reports_first_wrong_character (dialect : Dialect) :
    PointsOut dialect.readExtension ∧ PointsOut dialect.readSet ∧ PointsOut dialect.readTriple
      ∧ PointsAtToken dialect.readStatuses :=
  ⟨strict_extension.pointsOut, (strict_setReader dialect).pointsOut,
    (strict_triple (strict_setReader dialect)).pointsOut, pointsAtToken_statuses⟩

theorem reports_first_wrong_character_spaced :
    let text := "[\n a0 a1]"
    ∃ failure, iccma19.readExtension text = .error failure
      ∧ failure.wording = "expected ',' at line 2, column 5 (found 'a')"
      ∧ ∃ before after, text.toList = before ++ after ∧ Reports failure before after
        ∧ Viable iccma19.readExtension before
        ∧ ∀ c ∈ after.head?, ¬ Viable iccma19.readExtension (before ++ [c]) := by
  intro text
  have hwording : (match iccma19.readExtension text with
      | .ok _ => none
      | .error failure => some failure.wording) =
      some "expected ',' at line 2, column 5 (found 'a')" := by decide +kernel
  cases hread : iccma19.readExtension text with
  | ok e =>
      rw [hread] at hwording
      cases hwording
  | error failure =>
      rw [hread] at hwording
      obtain ⟨hextension, -⟩ := reports_first_wrong_character iccma19
      exact ⟨failure, rfl, Option.some.inj hwording, hextension text failure hread⟩

end Dialect

end SolverAudit
