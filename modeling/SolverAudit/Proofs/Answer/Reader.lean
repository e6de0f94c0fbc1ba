import SolverAudit.Answer.Dialect
import SolverAudit.Proofs.Answer.Token
import SolverAudit.Proofs.Result

/-!
# What readers yield

A reader takes its labels from the words of a text, so every label that it yields is a name, that
is, has no blanks, brackets and commas and is not empty.
-/

namespace SolverAudit

namespace Answer

/-- A label that can stand in an answer. -/
def IsName (label : String) : Prop :=
  label ≠ "" ∧ ∀ c ∈ label.toList, isBlank c = false ∧ c ≠ '[' ∧ c ≠ ']' ∧ c ≠ ','

instance (label : String) : Decidable (IsName label) :=
  @instDecidableAnd _ _ inferInstance (List.decidableBAll _ label.toList)

theorem isName_iff {label : String} : IsName label ↔ IsWord label.toList := by
  simp only [IsName, IsWord, isWordChar_iff, ne_eq, String.toList_eq_nil_iff]

def Extension.Named (e : Extension) : Prop := ∀ label ∈ e, IsName label

instance (e : Extension) : Decidable e.Named :=
  List.decidableBAll _ e.toList

def Extensions.Named (es : Extensions) : Prop := ∀ e ∈ es, Extension.Named e

instance (es : Extensions) : Decidable es.Named :=
  List.decidableBAll _ es.toList

/-! ### Equations -/

section

variable {layout rest : Layout} {blanks : List Char} {e : Extension}

theorem extension_of_members {words : List String} (h : members layout = .ok (words, rest)) :
    extension (.token blanks .opening layout) = .ok (.ofList words, rest) := by
  rw [extension, h]
  · rfl
  · rintro _ _ rfl
    cases h

theorem exists_opening_of_extension (h : extension layout = .ok (e, rest)) :
    ∃ blanks tail, layout = .token blanks .opening tail := by
  unfold extension at h
  split at h
  · exact ⟨_, _, rfl⟩
  · exact ⟨_, _, rfl⟩
  · cases h

/-- Blanks in front of an extension do not matter. -/
theorem extension_consBlank (h : extension layout = .ok (e, rest)) (c : Char) :
    extension (layout.consBlank c) = .ok (e, rest) := by
  obtain ⟨blanks, tail, rfl⟩ := exists_opening_of_extension h
  rcases tail with _ | ⟨_, t, tail⟩
  · exact h
  · cases t <;> exact h

theorem flatMembers_of_closing (h : extension layout = .ok (e, .token blanks .closing rest)) :
    flatMembers layout = .ok ([e], rest) := by
  rw [flatMembers]
  split <;> simp_all

theorem flatMembers_of_comma (h : extension layout = .ok (e, .token blanks .comma rest)) :
    flatMembers layout = (flatMembers rest).map fun read => (e :: read.1, read.2) := by
  rw [flatMembers]
  split <;> simp_all

theorem flatSet_of_flatMembers {es : List Extension} (h : flatMembers layout = .ok (es, rest)) :
    flatSet (.token blanks .opening layout) = .ok (.ofList es, rest) := by
  rw [flatSet, h]
  · rfl
  · rintro _ _ rfl
    rw [flatMembers] at h
    cases h

theorem lineMembers_of_extension (h : extension layout = .ok (e, rest))
    (hline : rest.onNewLine = true) :
    lineMembers layout = (lineMembers rest).map fun read => (e :: read.1, read.2) := by
  obtain ⟨blanks, tail, rfl⟩ := exists_opening_of_extension h
  rw [lineMembers]
  · split <;> simp_all
  · intro _ _ hsame
    cases hsame

theorem lineSet_of_lineMembers {es : List Extension} (hline : layout.onNewLine = true)
    (h : lineMembers layout = .ok (es, rest)) :
    lineSet (.token blanks .opening layout) = .ok (.ofList es, rest) := by
  rw [lineSet.eq_def]
  dsimp only
  rw [if_pos hline, h]
  rfl

theorem statuses_of_comma {letters : List Char} {accepted : Bool}
    (h : status? letters = some accepted) (blanks blanks' : List Char) (layout : Layout) :
    statuses (.token blanks (.word letters) (.token blanks' .comma layout)) =
      (statuses layout).map fun read => (accepted :: read.1, read.2) := by
  rw [statuses, h]

theorem statuses_of_ne_comma {letters : List Char} {accepted : Bool}
    (h : status? letters = some accepted) (blanks : List Char)
    (hend : ∀ blanks tail, rest ≠ .token blanks .comma tail) :
    statuses (.token blanks (.word letters) rest) = .ok ([accepted], rest) := by
  rw [statuses, h]
  dsimp only
  split
  · exact absurd rfl (hend _ _)
  · rfl

end

/-! ### How sets are put together -/

section

variable {layout rest : Layout}

theorem exists_extension_of_flatMembers {es : List Extension}
    (h : flatMembers layout = .ok (es, rest)) :
    ∃ e after, extension layout = .ok (e, after)
      ∧ ((∃ blanks, after = .token blanks .closing rest ∧ es = [e])
        ∨ ∃ blanks tail others, after = .token blanks .comma tail
          ∧ flatMembers tail = .ok (others, rest) ∧ es = e :: others) := by
  rw [flatMembers] at h
  split at h
  · cases h
  · rename_i e blanks _ he
    cases h
    exact ⟨e, _, he, .inl ⟨blanks, rfl, rfl⟩⟩
  · rename_i e blanks tail he
    obtain ⟨⟨others, _⟩, hothers, hsame⟩ := map_eq_ok.mp h
    cases hsame
    exact ⟨e, _, he, .inr ⟨blanks, tail, others, rfl, hothers, rfl⟩⟩
  · cases h

theorem exists_extension_of_lineMembers {es : List Extension}
    (h : lineMembers layout = .ok (es, rest)) :
    (∃ blanks, layout = .token blanks .closing rest ∧ es = [])
      ∨ ∃ e after others, extension layout = .ok (e, after) ∧ after.onNewLine = true
        ∧ lineMembers after = .ok (others, rest) ∧ es = e :: others := by
  rw [lineMembers.eq_def] at h
  split at h
  · rename_i blanks _
    cases h
    exact .inl ⟨blanks, rfl, rfl⟩
  · split at h
    · cases h
    · rename_i e after he
      split at h
      · rename_i hline
        obtain ⟨⟨others, _⟩, hothers, hsame⟩ := map_eq_ok.mp h
        cases hsame
        exact .inr ⟨e, after, others, he, hline, hothers, rfl⟩
      · cases h

theorem exists_opening_of_flatSet {es : Extensions} (h : flatSet layout = .ok (es, rest)) :
    ∃ blanks tail, layout = .token blanks .opening tail
      ∧ ((∃ blanks, tail = .token blanks .closing rest ∧ es = ∅)
        ∨ ∃ list, flatMembers tail = .ok (list, rest) ∧ es = .ofList list) := by
  unfold flatSet at h
  split at h
  · cases h
    exact ⟨_, _, rfl, .inl ⟨_, rfl, rfl⟩⟩
  · obtain ⟨⟨list, _⟩, hlist, hsame⟩ := map_eq_ok.mp h
    cases hsame
    exact ⟨_, _, rfl, .inr ⟨list, hlist, rfl⟩⟩
  · cases h

theorem exists_opening_of_lineSet {es : Extensions} (h : lineSet layout = .ok (es, rest)) :
    ∃ blanks tail, layout = .token blanks .opening tail
      ∧ ((∃ blanks, tail = .token blanks .closing rest ∧ es = ∅)
        ∨ ∃ list, tail.onNewLine = true ∧ lineMembers tail = .ok (list, rest)
          ∧ es = .ofList list) := by
  unfold lineSet at h
  split at h
  · split at h
    · rename_i hline
      obtain ⟨⟨list, _⟩, hlist, hsame⟩ := map_eq_ok.mp h
      cases hsame
      exact ⟨_, _, rfl, .inr ⟨list, hline, hlist, rfl⟩⟩
    · split at h
      · cases h
        exact ⟨_, _, rfl, .inl ⟨_, rfl, rfl⟩⟩
      · cases h
  · cases h

theorem exists_word_of_statuses {list : List Bool} (h : statuses layout = .ok (list, rest)) :
    ∃ blanks letters accepted after, layout = .token blanks (.word letters) after
      ∧ status? letters = some accepted
      ∧ ((∃ blanks tail others, after = .token blanks .comma tail
          ∧ statuses tail = .ok (others, rest) ∧ list = accepted :: others)
        ∨ (∀ blanks tail, rest ≠ .token blanks .comma tail) ∧ after = rest
          ∧ list = [accepted]) := by
  unfold statuses at h
  split at h
  · split at h
    · cases h
    · rename_i hstatus
      split at h
      · obtain ⟨⟨others, _⟩, hothers, hsame⟩ := map_eq_ok.mp h
        cases hsame
        exact ⟨_, _, _, _, rfl, hstatus, .inl ⟨_, _, others, rfl, hothers, rfl⟩⟩
      · rename_i hend
        cases h
        exact ⟨_, _, _, _, rfl, hstatus, .inr ⟨hend, rfl, rfl⟩⟩
  · cases h

end

/-! ### Yielding names -/

section

variable {α β : Type}

/-- What the reader yields has the property, and the words of the rest are words. -/
def Yields (reader : Reader α) (p : α → Prop) : Prop :=
  ∀ ⦃layout : Layout⦄ ⦃value : α⦄ ⦃rest : Layout⦄, layout.Worded →
    reader layout = .ok (value, rest) → p value ∧ rest.Worded

theorem Yields.of_map {reader : Reader α} {p : α → Prop} {q : β → Prop} {f : α → β}
    (hreader : Yields reader p) (hf : ∀ x, p x → q (f x)) {layout rest : Layout} {y : β}
    (hworded : layout.Worded)
    (h : (reader layout).map (fun (x, rest) => (f x, rest)) = .ok (y, rest)) :
    q y ∧ rest.Worded := by
  obtain ⟨⟨x, rest'⟩, hread, hsame⟩ := map_eq_ok.mp h
  cases hsame
  exact (hreader hworded hread).imp_left (hf x)

theorem isName_ofList {letters : List Char} (h : IsWord letters) :
    IsName (String.ofList letters) := by
  rwa [isName_iff, String.toList_ofList]

theorem yields_members : Yields members fun words => ∀ word ∈ words, IsName word := by
  intro layout words rest hworded h
  fun_induction members layout generalizing words rest with
  | case1 =>
      cases h
      exact ⟨List.forall_mem_singleton.mpr (isName_ofList hworded.isWord), hworded.tail.tail⟩
  | case2 _ letters _ tail ih =>
      obtain ⟨⟨others, rest'⟩, hothers, hsame⟩ := map_eq_ok.mp h
      cases hsame
      obtain ⟨hnames, hrest⟩ := ih hworded.tail.tail hothers
      exact ⟨List.forall_mem_cons.mpr ⟨isName_ofList hworded.isWord, hnames⟩, hrest⟩
  | case3 => cases h
  | case4 => cases h

theorem yields_extension : Yields extension Extension.Named := by
  intro layout e rest hworded h
  unfold extension at h
  split at h
  · cases h
    exact ⟨fun _ hlabel => absurd hlabel (OrderedSet.not_mem_empty _), hworded.tail.tail⟩
  · exact yields_members.of_map
      (fun _ hnames label hlabel => hnames label (OrderedSet.mem_ofList.mp hlabel)) hworded.tail h
  · cases h

theorem yields_flatMembers : Yields flatMembers fun es => ∀ e ∈ es, Extension.Named e := by
  intro layout es rest hworded h
  fun_induction flatMembers layout generalizing es rest with
  | case1 => cases h
  | case2 layout e _ _ he =>
      cases h
      obtain ⟨hnamed, htail⟩ := yields_extension hworded he
      exact ⟨List.forall_mem_singleton.mpr hnamed, htail.tail⟩
  | case3 layout e _ _ he _ ih =>
      obtain ⟨⟨others, rest'⟩, hothers, hsame⟩ := map_eq_ok.mp h
      cases hsame
      obtain ⟨hnamed, htail⟩ := yields_extension hworded he
      obtain ⟨hnameds, hrest⟩ := ih htail.tail hothers
      exact ⟨List.forall_mem_cons.mpr ⟨hnamed, hnameds⟩, hrest⟩
  | case4 => cases h

theorem named_ofList (es : List Extension) (hes : ∀ e ∈ es, Extension.Named e) :
    Extensions.Named (.ofList es) :=
  fun e he => hes e (OrderedSet.mem_ofList.mp he)

theorem named_empty : Extensions.Named ∅ :=
  fun _ he => absurd he (OrderedSet.not_mem_empty _)

theorem yields_flatSet : Yields flatSet Extensions.Named := by
  intro layout es rest hworded h
  unfold flatSet at h
  split at h
  · cases h
    exact ⟨named_empty, hworded.tail.tail⟩
  · exact yields_flatMembers.of_map named_ofList hworded.tail h
  · cases h

theorem yields_lineMembers : Yields lineMembers fun es => ∀ e ∈ es, Extension.Named e := by
  intro layout es rest hworded h
  fun_induction lineMembers layout generalizing es rest with
  | case1 =>
      cases h
      exact ⟨fun _ he => absurd he List.not_mem_nil, hworded.tail⟩
  | case2 => cases h
  | case3 layout _ e _ he hline _ ih =>
      obtain ⟨⟨others, rest'⟩, hothers, hsame⟩ := map_eq_ok.mp h
      cases hsame
      obtain ⟨hnamed, htail⟩ := yields_extension hworded he
      obtain ⟨hnameds, hrest⟩ := ih htail hothers
      exact ⟨List.forall_mem_cons.mpr ⟨hnamed, hnameds⟩, hrest⟩
  | case4 => cases h

theorem yields_lineSet : Yields lineSet Extensions.Named := by
  intro layout es rest hworded h
  unfold lineSet at h
  split at h
  · split at h
    · exact yields_lineMembers.of_map named_ofList hworded.tail h
    · split at h
      · cases h
        exact ⟨named_empty, hworded.tail.tail⟩
      · cases h
  · cases h

theorem worded_of_expect {t : Token} {expected : Expectation} {layout rest : Layout}
    (hworded : layout.Worded) (h : expect t expected layout = .ok rest) : rest.Worded := by
  unfold expect at h
  split at h
  · split at h
    · cases h
      exact hworded.tail
    · cases h
  · cases h

theorem yields_triple {set : Reader Extensions} (hset : Yields set Extensions.Named) :
    Yields (triple set) fun (first, second, third) =>
      first.Named ∧ second.Named ∧ third.Named := by
  intro layout sets rest hworded h
  simp only [triple, bind_eq_ok] at h
  obtain ⟨_, hopening, ⟨first, _⟩, hfirst, _, hcomma, ⟨second, _⟩, hsecond, _, hcomma', ⟨third, _⟩,
    hthird, _, hclosing, hsame⟩ := h
  cases hsame
  obtain ⟨hfirst, hrest⟩ := hset (worded_of_expect hworded hopening) hfirst
  obtain ⟨hsecond, hrest⟩ := hset (worded_of_expect hrest hcomma) hsecond
  obtain ⟨hthird, hrest⟩ := hset (worded_of_expect hrest hcomma') hthird
  exact ⟨⟨hfirst, hsecond, hthird⟩, worded_of_expect hrest hclosing⟩

end

section

variable {α : Type} {reader : Reader α}

theorem whole_eq_ok {layout : Layout} {value : α} :
    whole reader layout = .ok value ↔ ∃ blanks, reader layout = .ok (value, .stop blanks) := by
  rw [whole, bind_eq_ok]
  constructor
  · rintro ⟨⟨value', rest⟩, hread, hend⟩
    cases rest with
    | stop blanks =>
        cases hend
        exact ⟨blanks, hread⟩
    | token => cases hend
  · rintro ⟨blanks, hread⟩
    exact ⟨_, hread, rfl⟩

end

end Answer

section

variable {α : Type} {activity text : String} {reader : Answer.Reader α}

theorem Dialect.read_eq_ok {value : α} :
    Dialect.read activity reader text = .ok value ↔
      ∃ blanks, reader (.ofText text.toList) = .ok (value, .stop blanks) := by
  rw [Dialect.read, mapError_eq_ok, Answer.readText, mapError_eq_ok, Answer.whole_eq_ok]

theorem Dialect.kind_of_read_eq_error {failure : Failure}
    (h : Dialect.read activity reader text = .error failure) : failure.kind = .malformed := by
  unfold Dialect.read at h
  cases hread : Answer.readText reader text.toList with
  | ok answer =>
      rw [hread] at h
      cases h
  | error misreading =>
      rw [hread] at h
      obtain rfl := Except.error.inj h
      dsimp only
      split <;> rfl

theorem Dialect.malformed_of_ne_ok
    (h : ∀ value, Dialect.read activity reader text ≠ .ok value) :
    ∃ failure, Dialect.read activity reader text = .error failure ∧ failure.kind = .malformed := by
  cases hread : Dialect.read activity reader text with
  | ok value => exact absurd hread (h value)
  | error failure => exact ⟨failure, rfl, Dialect.kind_of_read_eq_error hread⟩

theorem Answer.Yields.of_read {p : α → Prop} (hreader : Answer.Yields reader p) {value : α}
    (h : Dialect.read activity reader text = .ok value) : p value := by
  obtain ⟨blanks, hread⟩ := Dialect.read_eq_ok.mp h
  exact (hreader (Answer.Layout.worded_ofText _) hread).1

end

end SolverAudit
