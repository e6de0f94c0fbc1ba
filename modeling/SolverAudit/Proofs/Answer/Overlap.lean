import SolverAudit.Proofs.Answer.RoundTrip

/-!
# Answers in the other dialect

The dialects disagree on what stands between two extensions of a set: a comma in one, the end of a
line in the other. No text has both, so what both readers accept holds at most one extension, and
they read it alike. The wrong dialect therefore refuses an answer or reads it as it was meant.
-/

namespace SolverAudit

namespace Answer

variable {layout rest rest' : Layout}

/-! ### Texts that both readers accept -/

/-- Behind the first extension one reader wants a comma and the other one a new extension, so only
the closing bracket is left. -/
theorem eq_of_flatMembers_of_lineMembers {es es' : List Extension}
    (hflat : flatMembers layout = .ok (es, rest)) (hline : lineMembers layout = .ok (es', rest')) :
    es = es' ∧ rest = rest' ∧ es.length = 1 := by
  obtain ⟨e, after, he, hafter⟩ := exists_extension_of_flatMembers hflat
  obtain ⟨_, _, hopening⟩ := exists_opening_of_extension he
  rcases exists_extension_of_lineMembers hline with
    ⟨_, hclosing, -⟩ | ⟨e', after', others, he', -, hothers, rfl⟩
  · rw [hopening] at hclosing
    cases hclosing
  · obtain ⟨rfl, rfl⟩ : e = e' ∧ after = after' := by
      rw [he] at he'
      cases he'
      exact ⟨rfl, rfl⟩
    rcases exists_extension_of_lineMembers hothers with
      ⟨_, hclosing, rfl⟩ | ⟨_, _, _, hnext, -⟩
    · rcases hafter with ⟨_, hclosing', rfl⟩ | ⟨_, _, _, hcomma, -⟩
      · rw [hclosing] at hclosing'
        cases hclosing'
        exact ⟨rfl, rfl, rfl⟩
      · rw [hclosing] at hcomma
        cases hcomma
    · obtain ⟨_, _, hopening'⟩ := exists_opening_of_extension hnext
      rcases hafter with ⟨_, hclosing, -⟩ | ⟨_, _, _, hcomma, -⟩
      · rw [hopening'] at hclosing
        cases hclosing
      · rw [hopening'] at hcomma
        cases hcomma

theorem flatMembers_ne_ok_of_closing {es : List Extension} {blanks : List Char} {tail : Layout} :
    flatMembers (.token blanks .closing tail) ≠ .ok (es, rest) := by
  intro h
  obtain ⟨_, _, he, -⟩ := exists_extension_of_flatMembers h
  obtain ⟨_, _, hopening⟩ := exists_opening_of_extension he
  cases hopening

theorem eq_of_flatSet_of_lineSet {es es' : Extensions} (hflat : flatSet layout = .ok (es, rest))
    (hline : lineSet layout = .ok (es', rest')) : es = es' ∧ rest = rest' ∧ es.size ≤ 1 := by
  obtain ⟨blanks, tail, hlayout, hinside⟩ := exists_opening_of_flatSet hflat
  obtain ⟨blanks', tail', hlayout', hinside'⟩ := exists_opening_of_lineSet hline
  obtain ⟨-, -, rfl⟩ := Layout.token.inj (hlayout.symm.trans hlayout')
  rcases hinside with ⟨_, rfl, rfl⟩ | ⟨list, hlist, rfl⟩ <;>
    rcases hinside' with ⟨_, hclosing, rfl⟩ | ⟨list', -, hlist', rfl⟩
  · cases hclosing
    exact ⟨rfl, rfl, Nat.zero_le 1⟩
  · rcases exists_extension_of_lineMembers hlist' with ⟨_, hclosing, rfl⟩ | ⟨_, _, _, he, -⟩
    · cases hclosing
      exact ⟨OrderedSet.ofList_nil.symm, rfl, Nat.zero_le 1⟩
    · obtain ⟨_, _, hopening⟩ := exists_opening_of_extension he
      cases hopening
  · rw [hclosing] at hlist
    exact absurd hlist flatMembers_ne_ok_of_closing
  · obtain ⟨rfl, rfl, hlength⟩ := eq_of_flatMembers_of_lineMembers hlist hlist'
    obtain ⟨e, rfl⟩ := List.length_eq_one_iff.mp hlength
    exact ⟨rfl, rfl, (OrderedSet.size_ofList_singleton e).le⟩

theorem eq_of_triple_of_triple {sets sets' : Extensions × Extensions × Extensions}
    (hflat : triple flatSet layout = .ok (sets, rest))
    (hline : triple lineSet layout = .ok (sets', rest')) :
    sets = sets' ∧ sets.1.size ≤ 1 ∧ sets.2.1.size ≤ 1 ∧ sets.2.2.size ≤ 1 := by
  simp only [triple, bind_eq_ok] at hflat hline
  obtain ⟨_, hopening, ⟨first, _⟩, hfirst, _, hcomma, ⟨second, _⟩, hsecond, _, hcomma₂,
    ⟨third, _⟩, hthird, _, hclosing, hsame⟩ := hflat
  obtain ⟨_, hopening', ⟨first', _⟩, hfirst', _, hcomma', ⟨second', _⟩, hsecond', _, hcomma₂',
    ⟨third', _⟩, hthird', _, hclosing', hsame'⟩ := hline
  cases hsame
  cases hsame'
  -- The readers go through the triple side by side, so each set is read from where both stand.
  obtain rfl := Except.ok.inj (hopening.symm.trans hopening')
  obtain ⟨rfl, rfl, hsize⟩ := eq_of_flatSet_of_lineSet hfirst hfirst'
  obtain rfl := Except.ok.inj (hcomma.symm.trans hcomma')
  obtain ⟨rfl, rfl, hsize₂⟩ := eq_of_flatSet_of_lineSet hsecond hsecond'
  obtain rfl := Except.ok.inj (hcomma₂.symm.trans hcomma₂')
  obtain ⟨rfl, -, hsize₃⟩ := eq_of_flatSet_of_lineSet hthird hthird'
  exact ⟨rfl, hsize, hsize₂, hsize₃⟩

/-! ### What one dialect makes of the writings of the other -/

/-- A set of one extension on a line of its own is also a list without commas. -/
theorem reads_flatSet_lineSetText {es : Extensions} (hes : es.Named) (hsize : es.size ≤ 1) :
    Reads flatSet (lineSetText es) es := by
  intro rest
  rcases hlist : es.toList with _ | ⟨e, others⟩
  · rw [lineSetText, OrderedSet.eq_empty_of_toList hlist]
    rfl
  · have hothers : others = [] := by
      rw [OrderedSet.size, hlist] at hsize
      exact List.eq_nil_of_length_eq_zero (Nat.le_zero.mp (Nat.le_of_succ_le_succ hsize))
    rw [hothers] at hlist
    have he : e.Named := hes e (by rw [OrderedSet.mem_def, hlist]; exact List.mem_singleton_self e)
    have htext : lineSetText es ++ rest =
        '[' :: '\n' :: ' ' :: ' ' :: (extensionText e ++ '\n' :: ']' :: rest) := by
      simp [lineSetText, hlist]
    have hread : extension (.ofText ('\n' :: ' ' :: ' ' ::
        (extensionText e ++ '\n' :: ']' :: rest))) =
          .ok (e, .token ['\n'] .closing (.ofText rest)) :=
      extension_consBlank (extension_consBlank (extension_consBlank
        (reads_extension he ('\n' :: ']' :: rest)) ' ') ' ') '\n'
    rw [htext, Layout.ofText_opening, flatSet_of_flatMembers (flatMembers_of_closing hread),
      ← hlist, OrderedSet.ofList_toList]

theorem lineSet_ofText_flatSetText {es : Extensions} (hes : es ≠ ∅) (rest : List Char) :
    ∃ fault, lineSet (.ofText (flatSetText es ++ rest)) = .error fault := by
  rcases hlist : es.toList with _ | ⟨e, others⟩
  · exact absurd (OrderedSet.eq_empty_of_toList hlist) hes
  · obtain ⟨inside, htext⟩ : ∃ inside, flatSetText es ++ rest = '[' :: '[' :: inside := by
      rcases others with _ | ⟨next, others⟩ <;>
        simp [flatSetText, hlist, extensionText, bracketList]
    rw [htext]
    exact ⟨_, rfl⟩

end Answer

namespace Dialect

open Answer

variable {es : Extensions}

theorem eq_of_readSet_of_readSet {text : String} {es' : Extensions}
    (hflat : iccma17.readSet text = .ok es) (hline : iccma19.readSet text = .ok es') :
    es = es' ∧ es.size ≤ 1 := by
  obtain ⟨_, hflat⟩ := read_eq_ok.mp hflat
  obtain ⟨_, hline⟩ := read_eq_ok.mp hline
  obtain ⟨hsame, -, hsize⟩ := eq_of_flatSet_of_lineSet hflat hline
  exact ⟨hsame, hsize⟩

theorem readSet_writeSet_of_line (hes : es.Named) (hsize : es.size ≤ 1) :
    iccma17.readSet (iccma19.writeSet es) = .ok es :=
  read_asLine (reads_flatSet_lineSetText hes hsize) _

theorem malformed_readSet_writeSet_of_line (hes : es.Named) (hsize : 1 < es.size) :
    ∃ failure, iccma17.readSet (iccma19.writeSet es) = .error failure
      ∧ failure.kind = .malformed := by
  refine malformed_of_ne_ok fun es' hread => ?_
  -- Its own dialect reads the set back, so the other one could only find the same large set.
  have hback : iccma19.readSet (iccma19.writeSet es) = .ok es := read_asLine (reads_lineSet hes) _
  obtain ⟨rfl, hsmall⟩ := eq_of_readSet_of_readSet hread hback
  exact absurd hsmall (Nat.not_le.mpr hsize)

theorem readSet_writeSet_empty_of_flat : iccma19.readSet (iccma17.writeSet ∅) = .ok ∅ := by
  rw [readSet, read_eq_ok, writeSet, asLine, String.toList_ofList]
  exact ⟨['\n'], rfl⟩

theorem malformed_readSet_writeSet_of_flat (hes : es ≠ ∅) :
    ∃ failure, iccma19.readSet (iccma17.writeSet es) = .error failure
      ∧ failure.kind = .malformed := by
  refine malformed_of_ne_ok fun es' hread => ?_
  obtain ⟨_, hline⟩ := read_eq_ok.mp hread
  obtain ⟨fault, hfault⟩ := lineSet_ofText_flatSetText hes ['\n']
  rw [writeSet, asLine, String.toList_ofList] at hline
  cases hline.symm.trans hfault

/-- **The wrong dialect reads alike or refuses.** What both dialects accept as an extension set or
as a triple they read as the same value, of sets with one extension at most. The older dialect reads
what the newer one writes if it has one extension at most, and the newer one reads of what the older
one writes only the empty set; all else is malformed. -/
theorem reads_alike_or_refuses :
    (∀ text es es', iccma17.readSet text = .ok es → iccma19.readSet text = .ok es' →
      es = es' ∧ es.size ≤ 1)
      ∧ (∀ text sets sets', iccma17.readTriple text = .ok sets →
        iccma19.readTriple text = .ok sets' →
        sets = sets' ∧ sets.1.size ≤ 1 ∧ sets.2.1.size ≤ 1 ∧ sets.2.2.size ≤ 1)
      ∧ ∀ es : Extensions, es.Named →
        (es.size ≤ 1 → iccma17.readSet (iccma19.writeSet es) = .ok es)
        ∧ (¬ es.size ≤ 1 → ∃ failure, iccma17.readSet (iccma19.writeSet es) = .error failure
          ∧ failure.kind = .malformed)
        ∧ (es = ∅ → iccma19.readSet (iccma17.writeSet es) = .ok ∅)
        ∧ (es ≠ ∅ → ∃ failure, iccma19.readSet (iccma17.writeSet es) = .error failure
          ∧ failure.kind = .malformed) := by
  refine ⟨fun text es es' => eq_of_readSet_of_readSet, fun text sets sets' hflat hline => ?_,
    fun es hes => ⟨readSet_writeSet_of_line hes,
      fun hsize => malformed_readSet_writeSet_of_line hes (Nat.not_le.mp hsize), ?_,
      malformed_readSet_writeSet_of_flat⟩⟩
  · obtain ⟨_, hflat⟩ := read_eq_ok.mp hflat
    obtain ⟨_, hline⟩ := read_eq_ok.mp hline
    exact eq_of_triple_of_triple hflat hline
  · rintro rfl
    exact readSet_writeSet_empty_of_flat

theorem reads_alike_or_refuses_small :
    let one : Extensions := .ofList [.ofList ["a0"]]
    let two : Extensions :=
      ⟨[∅, ⟨["a0"], List.pairwise_singleton _ _⟩], List.pairwise_pair.mpr (by decide)⟩
    (one.Named ∧ one.size ≤ 1 ∧ two.Named ∧ ¬ two.size ≤ 1 ∧ two ≠ ∅ ∧ Extensions.Named ∅)
      ∧ iccma17.readSet (iccma19.writeSet one) = .ok one
      ∧ iccma19.readSet (iccma19.writeSet one) = .ok one
      ∧ (∀ es', iccma19.readSet (iccma19.writeSet one) = .ok es' → one = es' ∧ one.size ≤ 1)
      ∧ (∃ failure, iccma17.readSet (iccma19.writeSet two) = .error failure
        ∧ failure.kind = .malformed)
      ∧ iccma19.readSet (iccma17.writeSet ∅) = .ok ∅
      ∧ (∃ failure, iccma19.readSet (iccma17.writeSet two) = .error failure
        ∧ failure.kind = .malformed)
      ∧ iccma17.readTriple "[[], [],[]]" = .ok (∅, ∅, ∅)
      ∧ iccma19.readTriple "[[], [],[]]" = .ok (∅, ∅, ∅)
      ∧ (∅ : Extensions).size ≤ 1 := by
  intro one two
  have hone : one.Named := by
    simp only [one, Extensions.Named, Extension.Named, OrderedSet.mem_ofList,
      List.forall_mem_singleton]
    decide
  have htwo : two.Named := by decide
  have hsmall : one.size ≤ 1 := (OrderedSet.size_ofList_singleton _).le
  have hlarge : ¬ two.size ≤ 1 := by decide
  have hsome : two ≠ ∅ := by decide
  obtain ⟨hsets, htriples, hcross⟩ := reads_alike_or_refuses
  obtain ⟨hread, -⟩ := hcross one hone
  obtain ⟨-, hrefused, -, hrefused'⟩ := hcross two htwo
  obtain ⟨-, -, hempty, -⟩ := hcross ∅ named_empty
  have hback : iccma19.readSet (iccma19.writeSet one) = .ok one :=
    read_asLine (reads_lineSet hone) _
  have hflat : iccma17.readTriple "[[], [],[]]" = .ok (∅, ∅, ∅) := rfl
  have hline : iccma19.readTriple "[[], [],[]]" = .ok (∅, ∅, ∅) := rfl
  exact ⟨⟨hone, hsmall, htwo, hlarge, hsome, named_empty⟩, hread hsmall, hback,
    fun es' => hsets _ _ es' (hread hsmall), hrefused hlarge, hempty rfl, hrefused' hsome, hflat,
    hline, (htriples _ _ _ hflat hline).2.1⟩

end Dialect

end SolverAudit
