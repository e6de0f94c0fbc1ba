import SolverAudit.Proofs.Answer.Reader
import SolverAudit.Proofs.Ordered.Set

/-!
# Answers read back

What a dialect writes, its reader reads back, as long as every label is a name. The written form of
a value is read from the front of any text that starts with it, which makes the round trips of the
parts into those of the whole. Labels that are no names are never read, so they are lost.
-/

namespace SolverAudit

namespace Answer

variable {α : Type}

/-- From every text that starts with the given one, the reader takes the value and leaves the rest
of the text. -/
def Reads (reader : Reader α) (text : List Char) (value : α) : Prop :=
  ∀ rest, reader (.ofText (text ++ rest)) = .ok (value, .ofText rest)

theorem bracketList_append (texts : List (List Char)) (rest : List Char) :
    bracketList texts ++ rest = '[' :: ([','].intercalate texts ++ ']' :: rest) := by
  simp [bracketList]

theorem intercalate_append (text next : List Char) (texts : List (List Char)) (rest : List Char) :
    [','].intercalate (text :: next :: texts) ++ rest =
      text ++ ',' :: ([','].intercalate (next :: texts) ++ rest) := by
  rw [List.intercalate_cons_cons, List.append_assoc, List.append_assoc, List.singleton_append]

/-! ### Extensions -/

theorem members_ofText {labels : List String} (hne : labels ≠ [])
    (hlabels : ∀ label ∈ labels, IsName label) (rest : List Char) :
    members (.ofText ([','].intercalate (labels.map String.toList) ++ ']' :: rest)) =
      .ok (labels, .ofText rest) := by
  induction labels with
  | nil => exact absurd rfl hne
  | cons label labels ih =>
      obtain ⟨hlabel, hlabels⟩ := List.forall_mem_cons.mp hlabels
      have hword := isName_iff.mp hlabel
      rcases labels with _ | ⟨next, labels⟩
      · rw [List.map_singleton, List.intercalate_singleton,
          Layout.ofText_word hword (endsWord_cons (c := ']') rfl rest), Layout.ofText_closing,
          members, String.ofList_toList]
      · rw [List.map_cons, List.map_cons, intercalate_append,
          Layout.ofText_word hword (endsWord_cons (c := ',') rfl _), Layout.ofText_comma, members,
          ← List.map_cons, ih (List.cons_ne_nil _ _) hlabels, String.ofList_toList]
        rfl

theorem reads_extension {e : Extension} (he : e.Named) : Reads extension (extensionText e) e := by
  intro rest
  rw [extensionText, bracketList_append, Layout.ofText_opening]
  rcases hlabels : e.toList with _ | ⟨label, labels⟩
  · rw [OrderedSet.eq_empty_of_toList hlabels]
    rfl
  · rw [extension_of_members (members_ofText (List.cons_ne_nil _ _) ?_ rest), ← hlabels,
      OrderedSet.ofList_toList]
    rw [← hlabels]
    exact he

/-! ### Sets of extensions -/

theorem flatMembers_ofText {es : List Extension} (hne : es ≠ [])
    (hes : ∀ e ∈ es, Extension.Named e) (rest : List Char) :
    flatMembers (.ofText ([','].intercalate (es.map extensionText) ++ ']' :: rest)) =
      .ok (es, .ofText rest) := by
  induction es with
  | nil => exact absurd rfl hne
  | cons e es ih =>
      obtain ⟨he, hes⟩ := List.forall_mem_cons.mp hes
      rcases es with _ | ⟨next, es⟩
      · rw [List.map_singleton, List.intercalate_singleton]
        exact flatMembers_of_closing (reads_extension he _)
      · rw [List.map_cons, List.map_cons, intercalate_append,
          flatMembers_of_comma (reads_extension he _), ← List.map_cons,
          ih (List.cons_ne_nil _ _) hes]
        rfl

theorem reads_flatSet {es : Extensions} (hes : es.Named) : Reads flatSet (flatSetText es) es := by
  intro rest
  rw [flatSetText, bracketList_append, Layout.ofText_opening]
  rcases hlist : es.toList with _ | ⟨e, others⟩
  · rw [OrderedSet.eq_empty_of_toList hlist]
    rfl
  · rw [flatSet_of_flatMembers (flatMembers_ofText (List.cons_ne_nil _ _) ?_ rest), ← hlist,
      OrderedSet.ofList_toList]
    rw [← hlist]
    exact hes

theorem onNewLine_ofText (rest : List Char) : (Layout.ofText ('\n' :: rest)).onNewLine = true := by
  rw [Layout.ofText_blank rfl]
  cases Layout.ofText rest <;> simp [Layout.consBlank, Layout.onNewLine, Layout.margin]

/-- The lines are read from the line feed before them on. -/
theorem lineMembers_ofText {es : List Extension} (hes : ∀ e ∈ es, Extension.Named e)
    (rest : List Char) :
    lineMembers (.ofText ('\n' ::
      (es.flatMap (fun e => [' ', ' '] ++ extensionText e ++ ['\n']) ++ ']' :: rest))) =
      .ok (es, .ofText rest) := by
  induction es with
  | nil =>
      rw [lineMembers.eq_def]
      rfl
  | cons e es ih =>
      obtain ⟨he, hes⟩ := List.forall_mem_cons.mp hes
      have hline := reads_extension he
        ('\n' :: (es.flatMap (fun e => [' ', ' '] ++ extensionText e ++ ['\n']) ++ ']' :: rest))
      -- In front of the extension stand the line feed of the line before and the indentation.
      have hindented := extension_consBlank
        (extension_consBlank (extension_consBlank hline ' ') ' ') '\n'
      rw [List.flatMap_cons, List.append_assoc, List.append_assoc, List.append_assoc]
      exact (lineMembers_of_extension hindented (onNewLine_ofText _)).trans
        (congrArg (Except.map _) (ih hes))

theorem reads_lineSet {es : Extensions} (hes : es.Named) : Reads lineSet (lineSetText es) es := by
  intro rest
  have htext : lineSetText es ++ rest = '[' :: '\n' ::
      (es.toList.flatMap (fun e => [' ', ' '] ++ extensionText e ++ ['\n']) ++ ']' :: rest) := by
    simp [lineSetText]
  rw [htext, Layout.ofText_opening,
    lineSet_of_lineMembers (onNewLine_ofText _) (lineMembers_ofText hes rest),
    OrderedSet.ofList_toList]

/-! ### Triples and statuses -/

theorem reads_triple {set : Reader Extensions} {setText : Extensions → List Char}
    (hset : ∀ es : Extensions, es.Named → Reads set (setText es) es)
    {first second third : Extensions} (hfirst : first.Named) (hsecond : second.Named)
    (hthird : third.Named) :
    Reads (triple set) (tripleText setText (first, second, third)) (first, second, third) := by
  intro rest
  rw [tripleText, bracketList_append, intercalate_append, intercalate_append,
    List.intercalate_singleton, Layout.ofText_opening]
  simp only [triple, bind_eq_ok]
  refine ⟨_, rfl, _, hset _ hfirst _, _, rfl, _, hset _ hsecond _, _, rfl, _, hset _ hthird _, _,
    rfl, rfl⟩

theorem isWord_statusText (s : Bool) : IsWord (statusText s) := by
  cases s <;> exact ⟨List.cons_ne_nil _ _, List.all_eq_true.mp rfl⟩

theorem status?_statusText (s : Bool) : status? (statusText s) = some s := by
  cases s <;> rfl

/-- Statuses are not closed by a bracket, so they are read up to the end of the line. -/
theorem statuses_ofText {list : List Bool} (hne : list ≠ []) :
    statuses (.ofText (statusesText list ++ ['\n'])) = .ok (list, .stop ['\n']) := by
  induction list with
  | nil => exact absurd rfl hne
  | cons s list ih =>
      have hword := isWord_statusText s
      rcases list with _ | ⟨next, list⟩
      · rw [statusesText, List.map_singleton, List.intercalate_singleton,
          Layout.ofText_word hword (endsWord_cons (c := '\n') rfl []), statuses, status?_statusText]
        rfl
      · rw [statusesText, List.map_cons, List.map_cons, intercalate_append,
          Layout.ofText_word hword (endsWord_cons (c := ',') rfl _), Layout.ofText_comma,
          statuses_of_comma (status?_statusText s), ← List.map_cons]
        exact congrArg (Except.map _) (ih (List.cons_ne_nil _ _))

end Answer

open Answer

namespace Dialect

variable {α : Type} {reader : Reader α}

theorem read_asLine {text : List Char} {value : α} (h : Reads reader text value)
    (activity : String) : read activity reader (asLine text) = .ok value := by
  rw [read_eq_ok, asLine, String.toList_ofList]
  exact ⟨['\n'], h ['\n']⟩

theorem reads_set (dialect : Dialect) {es : Extensions} (hes : es.Named) :
    Reads dialect.setReader (dialect.setText es) es := by
  cases dialect with
  | iccma17 => exact reads_flatSet hes
  | iccma19 => exact reads_lineSet hes

theorem yields_set (dialect : Dialect) : Yields dialect.setReader Extensions.Named := by
  cases dialect with
  | iccma17 => exact yields_flatSet
  | iccma19 => exact yields_lineSet

/-- **Answers are read back if and only if every label is a name.** Statuses are read back unless
there is none. -/
theorem read_written_iff (dialect : Dialect) :
    (∀ e, dialect.readExtension (dialect.writeExtension e) = .ok e ↔ e.Named)
      ∧ (∀ es, dialect.readSet (dialect.writeSet es) = .ok es ↔ es.Named)
      ∧ (∀ first second third, dialect.readTriple (dialect.writeTriple (first, second, third))
          = .ok (first, second, third) ↔ first.Named ∧ second.Named ∧ third.Named)
      ∧ (∀ statuses, statuses ≠ [] →
        dialect.readStatuses (dialect.writeStatuses statuses) = .ok statuses)
      ∧ ∃ failure, dialect.readStatuses (dialect.writeStatuses []) = .error failure
        ∧ failure.kind = .malformed := by
  refine ⟨fun e => ⟨yields_extension.of_read, fun he => read_asLine (reads_extension he) _⟩,
    fun es => ⟨dialect.yields_set.of_read, fun hes => read_asLine (dialect.reads_set hes) _⟩,
    fun first second third => ⟨(yields_triple dialect.yields_set).of_read, ?_⟩,
    fun statuses hne => ?_, ?_⟩
  · rintro ⟨hfirst, hsecond, hthird⟩
    exact read_asLine (reads_triple (fun _ => dialect.reads_set) hfirst hsecond hthird) _
  · rw [readStatuses, read_eq_ok, writeStatuses, asLine, String.toList_ofList]
    exact ⟨['\n'], statuses_ofText hne⟩
  · cases hread : dialect.readStatuses (dialect.writeStatuses []) with
    | error failure => exact ⟨failure, rfl, kind_of_read_eq_error hread⟩
    | ok list =>
        obtain ⟨blanks, hstatuses⟩ := read_eq_ok.mp hread
        rw [writeStatuses, asLine, String.toList_ofList] at hstatuses
        cases hstatuses

theorem read_written_names :
    let named : Extensions := .ofList [∅, .ofList ["a0", "a1"]]
    let blank : Extensions := .ofList [.ofList ["a 0"]]
    ([true, false] ≠ [] ∧ named.Named ∧ ¬ blank.Named)
      ∧ iccma19.readSet (iccma19.writeSet named) = .ok named
      ∧ iccma17.readTriple (iccma17.writeTriple (named, ∅, named)) = .ok (named, ∅, named)
      ∧ iccma17.readSet (iccma17.writeSet blank) ≠ .ok blank
      ∧ iccma19.readStatuses (iccma19.writeStatuses [true, false]) = .ok [true, false] := by
  intro named blank
  have hne : [true, false] ≠ [] := List.cons_ne_nil _ _
  have hnamed : named.Named := by
    simp only [named, Extensions.Named, Extension.Named, OrderedSet.mem_ofList,
      List.forall_mem_cons]
    exact ⟨fun _ hlabel => absurd hlabel (OrderedSet.not_mem_empty _), by decide, by decide⟩
  have hblank : ¬ blank.Named := by
    simp only [blank, Extensions.Named, Extension.Named, OrderedSet.mem_ofList,
      List.forall_mem_singleton]
    decide
  obtain ⟨-, hset, -, hstatuses, -⟩ := read_written_iff .iccma19
  obtain ⟨-, hset', htriple, -⟩ := read_written_iff .iccma17
  exact ⟨⟨hne, hnamed, hblank⟩, (hset named).mpr hnamed,
    (htriple named ∅ named).mpr ⟨hnamed, named_empty, hnamed⟩, mt (hset' blank).mp hblank,
    hstatuses _ hne⟩

end Dialect

end SolverAudit
