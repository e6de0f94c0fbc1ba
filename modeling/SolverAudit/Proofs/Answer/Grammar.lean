import SolverAudit.Proofs.Answer.RoundTrip
import SolverAudit.Proofs.Answer.Split

/-!
# The grammar of flat answers

In the older dialect every part of an answer is a bracketed list with commas between its items, or
a row of statuses. The grammar says which tokens stand for which value. A reader takes from the
front of a layout exactly what the grammar allows there, so whole texts are read if and only if
their tokens belong to the grammar, and the blanks between the tokens do not matter.
-/

namespace SolverAudit

namespace Answer

/-! ### Forms -/

/-- Which tokens stand for which value. -/
abbrev Form (α : Type) := List Token → α → Prop

/-- Items with a comma between each two. -/
inductive Separated {α : Type} (item : Form α) : Form (List α)
  | last {ts : List Token} {x : α} (h : item ts x) : Separated item ts [x]
  | next {ts us : List Token} {x : α} {xs : List α} (h : item ts x) (hs : Separated item us xs) :
      Separated item (ts ++ .comma :: us) (x :: xs)

/-- Separated items up to a closing bracket. -/
def Closed {α : Type} (item : Form α) : Form (List α) := fun ts xs =>
  ∃ inside, ts = inside ++ [.closing] ∧ Separated item inside xs

/-- A bracketed list stands for the set of its items. -/
def SetOf {α : Type} [Ord α] (item : Form α) : Form (OrderedSet α) := fun ts s =>
  ts = [.opening, .closing] ∧ s = ∅
    ∨ ∃ inside xs, ts = .opening :: inside ++ [.closing] ∧ Separated item inside xs
      ∧ ∀ x, x ∈ s ↔ x ∈ xs

def WordForm : Form String := fun ts label => ts = [.word label.toList]

def ExtensionForm : Form Extension := SetOf WordForm

def FlatSetForm : Form Extensions := SetOf ExtensionForm

def TripleForm (set : Form Extensions) : Form (Extensions × Extensions × Extensions) :=
  fun ts (first, second, third) => ∃ us vs ws,
    ts = .opening :: (us ++ .comma :: (vs ++ .comma :: (ws ++ [.closing])))
      ∧ set us first ∧ set vs second ∧ set ws third

def StatusForm : Form Bool := fun ts accepted => ts = [.word (statusText accepted)]

def StatusesForm : Form (List Bool) := Separated StatusForm

/-! ### Tokens at the front of a layout -/

namespace Layout

/-- The layout has the tokens in front and goes on with the rest. -/
inductive StartsWith (rest : Layout) : Layout → List Token → Prop
  | nil : StartsWith rest rest []
  | cons {blanks : List Char} {t : Token} {layout : Layout} {ts : List Token}
      (h : StartsWith rest layout ts) : StartsWith rest (token blanks t layout) (t :: ts)

variable {layout rest : Layout} {t : Token} {ts us : List Token}

theorem startsWith_nil : StartsWith rest layout [] ↔ layout = rest := by
  constructor
  · rintro ⟨⟩
    rfl
  · rintro rfl
    exact .nil

theorem startsWith_cons : StartsWith rest layout (t :: ts) ↔
    ∃ blanks tail, layout = token blanks t tail ∧ StartsWith rest tail ts := by
  constructor
  · rintro (_ | h)
    exact ⟨_, _, rfl, h⟩
  · rintro ⟨_, _, rfl, h⟩
    exact .cons h

theorem startsWith_singleton :
    StartsWith rest layout [t] ↔ ∃ blanks, layout = token blanks t rest := by
  simp only [startsWith_cons, startsWith_nil, exists_eq_right]

theorem startsWith_append : StartsWith rest layout (ts ++ us) ↔
    ∃ middle, StartsWith middle layout ts ∧ StartsWith rest middle us := by
  induction ts generalizing layout with
  | nil => simp only [List.nil_append, startsWith_nil, exists_eq_left']
  | cons t ts ih =>
      rw [List.cons_append, startsWith_cons]
      simp only [startsWith_cons, ih]
      grind

theorem exists_startsWith_stop :
    (∃ blanks, StartsWith (stop blanks) layout ts) ↔ layout.tokens = ts := by
  induction layout generalizing ts with
  | stop blanks =>
      constructor
      · rintro ⟨_, ⟨⟩⟩
        rfl
      · rintro rfl
        exact ⟨blanks, .nil⟩
  | token blanks t tail ih =>
      constructor
      · rintro ⟨_, _ | h⟩
        rw [tokens, ih.mp ⟨_, h⟩]
      · rintro rfl
        obtain ⟨_, h⟩ := ih.mpr rfl
        exact ⟨_, .cons h⟩

end Layout

open Layout

/-! ### Readers -/

section

variable {α : Type} {item form : Form α} {layout rest : Layout}

/-- One of the forms of the value stands in front of the rest. -/
def Stands (form : Form α) (layout : Layout) (x : α) (rest : Layout) : Prop :=
  ∃ ts, form ts x ∧ StartsWith rest layout ts

/-- What the reader takes is what has the form. -/
def Takes (reader : Reader α) (form : Form α) : Prop :=
  ∀ layout x rest, reader layout = .ok (x, rest) ↔ Stands form layout x rest

theorem stands_word {label : String} :
    Stands WordForm layout label rest ↔
      ∃ blanks, layout = .token blanks (.word label.toList) rest := by
  rw [← startsWith_singleton]
  exact exists_eq_left

theorem stands_closed {xs : List α} : Stands (Closed item) layout xs rest ↔
    ∃ x after, Stands item layout x after
      ∧ ((∃ blanks, after = .token blanks .closing rest ∧ xs = [x])
        ∨ ∃ blanks tail others, after = .token blanks .comma tail
          ∧ Stands (Closed item) tail others rest ∧ xs = x :: others) := by
  constructor
  · rintro ⟨_, ⟨inside, rfl, hinside⟩, hstarts⟩
    obtain ⟨_, hfront, hclosing⟩ := startsWith_append.mp hstarts
    obtain ⟨blanks, rfl⟩ := startsWith_singleton.mp hclosing
    cases hinside with
    | last hitem => exact ⟨_, _, ⟨_, hitem, hfront⟩, .inl ⟨blanks, rfl, rfl⟩⟩
    | next hitem hmore =>
        obtain ⟨_, hfirst, hcomma⟩ := startsWith_append.mp hfront
        obtain ⟨blanks', tail, rfl, htail⟩ := startsWith_cons.mp hcomma
        exact ⟨_, _, ⟨_, hitem, hfirst⟩, .inr ⟨blanks', tail, _, rfl,
          ⟨_, ⟨_, rfl, hmore⟩, startsWith_append.mpr ⟨_, htail, hclosing⟩⟩, rfl⟩⟩
  · rintro ⟨x, after, ⟨ts, hitem, hfront⟩, hafter⟩
    rcases hafter with ⟨_, rfl, rfl⟩ | ⟨_, tail, others, rfl, hothers, rfl⟩
    · exact ⟨_, ⟨ts, rfl, .last hitem⟩, startsWith_append.mpr ⟨_, hfront, .cons .nil⟩⟩
    · obtain ⟨_, ⟨inside, rfl, hinside⟩, hstarts⟩ := hothers
      refine ⟨_, ⟨_, rfl, .next hitem hinside⟩, ?_⟩
      rw [List.append_assoc]
      exact startsWith_append.mpr ⟨_, hfront, .cons hstarts⟩

/-- A reader of lists takes the closed lists if it goes on behind each item as they do. -/
theorem takes_closed {list : Reader (List α)}
    (hlist : ∀ layout xs rest, list layout = .ok (xs, rest) ↔
      ∃ x after, Stands item layout x after
        ∧ ((∃ blanks, after = .token blanks .closing rest ∧ xs = [x])
          ∨ ∃ blanks tail others, after = .token blanks .comma tail
            ∧ list tail = .ok (others, rest) ∧ xs = x :: others)) :
    Takes list (Closed item) := by
  intro layout xs rest
  induction hlength : xs.length using Nat.strongRecOn generalizing layout xs with
  | _ length ih =>
      rw [hlist, stands_closed]
      refine exists_congr fun x => exists_congr fun after => and_congr_right fun _ =>
        or_congr_right <| exists_congr fun blanks => exists_congr fun tail =>
          exists_congr fun others => and_congr_right fun _ => and_congr_left fun hxs => ?_
      have hshorter : others.length < length := by
        rw [← hlength, hxs]
        exact Nat.lt_succ_self _
      exact ih others.length hshorter tail others rfl

theorem takes_setOf [Ord α] [Std.TransOrd α] [Std.LawfulEqOrd α] {list : Reader (List α)}
    {set : Reader (OrderedSet α)} (hlist : Takes list (Closed item))
    (hset : ∀ layout s rest, set layout = .ok (s, rest) ↔
      ∃ blanks tail, layout = .token blanks .opening tail
        ∧ ((∃ blanks, tail = .token blanks .closing rest ∧ s = ∅)
          ∨ ∃ xs, list tail = .ok (xs, rest) ∧ s = .ofList xs)) :
    Takes set (SetOf item) := by
  intro layout s rest
  rw [hset]
  constructor
  · rintro ⟨_, _, rfl, ⟨_, rfl, rfl⟩ | ⟨xs, hxs, rfl⟩⟩
    · exact ⟨_, .inl ⟨rfl, rfl⟩, .cons (.cons .nil)⟩
    · obtain ⟨_, ⟨inside, rfl, hinside⟩, hstarts⟩ := (hlist _ _ _).mp hxs
      exact ⟨_, .inr ⟨inside, xs, rfl, hinside, fun _ => OrderedSet.mem_ofList⟩, .cons hstarts⟩
  · rintro ⟨_, ⟨rfl, rfl⟩ | ⟨inside, xs, rfl, hinside, hmembers⟩, hstarts⟩
    · obtain ⟨_, _, rfl, hclosing⟩ := startsWith_cons.mp hstarts
      obtain ⟨_, rfl⟩ := startsWith_singleton.mp hclosing
      exact ⟨_, _, rfl, .inl ⟨_, rfl, rfl⟩⟩
    · obtain ⟨_, tail, rfl, htail⟩ := startsWith_cons.mp hstarts
      have hxs : list tail = .ok (xs, rest) :=
        (hlist _ _ _).mpr ⟨_, ⟨inside, rfl, hinside⟩, htail⟩
      have hs : s = .ofList xs :=
        OrderedSet.ext fun x => (hmembers x).trans OrderedSet.mem_ofList.symm
      exact ⟨_, tail, rfl, .inr ⟨xs, hxs, hs⟩⟩

theorem takes_members : Takes members (Closed WordForm) := by
  refine takes_closed fun layout words rest => ?_
  simp only [stands_word]
  constructor
  · intro h
    unfold members at h
    split at h
    · rename_i letters _ _
      cases h
      exact ⟨String.ofList letters, _, ⟨_, by rw [String.toList_ofList]⟩, .inl ⟨_, rfl, rfl⟩⟩
    · rename_i letters _ tail
      obtain ⟨⟨others, _⟩, hothers, hsame⟩ := map_eq_ok.mp h
      cases hsame
      exact ⟨String.ofList letters, _, ⟨_, by rw [String.toList_ofList]⟩,
        .inr ⟨_, tail, others, rfl, hothers, rfl⟩⟩
    · cases h
    · cases h
  · rintro ⟨label, _, ⟨_, rfl⟩, ⟨_, rfl, rfl⟩ | ⟨_, tail, others, rfl, hothers, rfl⟩⟩
    · rw [members, String.ofList_toList]
    · rw [members, String.ofList_toList, hothers]
      rfl

theorem takes_extension : Takes extension ExtensionForm := by
  refine takes_setOf takes_members fun layout e rest => ?_
  constructor
  · intro h
    unfold extension at h
    split at h
    · cases h
      exact ⟨_, _, rfl, .inl ⟨_, rfl, rfl⟩⟩
    · obtain ⟨⟨words, _⟩, hwords, hsame⟩ := map_eq_ok.mp h
      cases hsame
      exact ⟨_, _, rfl, .inr ⟨words, hwords, rfl⟩⟩
    · cases h
  · rintro ⟨_, _, rfl, ⟨_, rfl, rfl⟩ | ⟨words, hwords, rfl⟩⟩
    · rfl
    · exact extension_of_members hwords

theorem takes_flatMembers : Takes flatMembers (Closed ExtensionForm) := by
  refine takes_closed fun layout es rest => ?_
  simp only [← takes_extension _ _ _]
  constructor
  · exact exists_extension_of_flatMembers
  · rintro ⟨e, _, he, ⟨_, rfl, rfl⟩ | ⟨_, tail, others, rfl, hothers, rfl⟩⟩
    · exact flatMembers_of_closing he
    · rw [flatMembers_of_comma he, hothers]
      rfl

theorem takes_flatSet : Takes flatSet FlatSetForm := by
  refine takes_setOf takes_flatMembers fun layout es rest => ?_
  constructor
  · exact exists_opening_of_flatSet
  · rintro ⟨_, _, rfl, ⟨_, rfl, rfl⟩ | ⟨list, hlist, rfl⟩⟩
    · rfl
    · exact flatSet_of_flatMembers hlist

theorem expect_eq_ok {t : Token} {expected : Expectation} :
    expect t expected layout = .ok rest ↔ ∃ blanks, layout = .token blanks t rest := by
  constructor
  · intro h
    unfold expect at h
    split at h
    · split at h
      · rename_i hsame
        cases h
        exact ⟨_, by rw [hsame]⟩
      · cases h
    · cases h
  · rintro ⟨_, rfl⟩
    rw [expect, if_pos rfl]

theorem takes_triple {set : Reader Extensions} {setForm : Form Extensions}
    (hset : Takes set setForm) : Takes (triple set) (TripleForm setForm) := by
  rintro layout ⟨first, second, third⟩ rest
  simp only [triple, bind_eq_ok, expect_eq_ok]
  constructor
  · rintro ⟨_, ⟨_, rfl⟩, ⟨_, _⟩, hfirst, _, ⟨_, rfl⟩, ⟨_, _⟩, hsecond, _, ⟨_, rfl⟩, ⟨_, _⟩, hthird,
      _, ⟨_, rfl⟩, hsame⟩
    cases hsame
    obtain ⟨us, hus, hfirst⟩ := (hset _ _ _).mp hfirst
    obtain ⟨vs, hvs, hsecond⟩ := (hset _ _ _).mp hsecond
    obtain ⟨ws, hws, hthird⟩ := (hset _ _ _).mp hthird
    refine ⟨_, ⟨us, vs, ws, rfl, hus, hvs, hws⟩, .cons ?_⟩
    exact startsWith_append.mpr ⟨_, hfirst, .cons <| startsWith_append.mpr ⟨_, hsecond,
      .cons <| startsWith_append.mpr ⟨_, hthird, .cons .nil⟩⟩⟩
  · rintro ⟨_, ⟨us, vs, ws, rfl, hus, hvs, hws⟩, hstarts⟩
    obtain ⟨_, _, rfl, hinside⟩ := startsWith_cons.mp hstarts
    obtain ⟨_, hfirst, hcomma⟩ := startsWith_append.mp hinside
    obtain ⟨_, _, rfl, hinside⟩ := startsWith_cons.mp hcomma
    obtain ⟨_, hsecond, hcomma⟩ := startsWith_append.mp hinside
    obtain ⟨_, _, rfl, hinside⟩ := startsWith_cons.mp hcomma
    obtain ⟨_, hthird, hclosing⟩ := startsWith_append.mp hinside
    obtain ⟨_, rfl⟩ := startsWith_singleton.mp hclosing
    exact ⟨_, ⟨_, rfl⟩, _, (hset _ _ _).mpr ⟨us, hus, hfirst⟩, _, ⟨_, rfl⟩, _,
      (hset _ _ _).mpr ⟨vs, hvs, hsecond⟩, _, ⟨_, rfl⟩, _, (hset _ _ _).mpr ⟨ws, hws, hthird⟩, _,
      ⟨_, rfl⟩, rfl⟩

/-! ### Statuses -/

theorem status?_eq_some {letters : List Char} {accepted : Bool} :
    status? letters = some accepted ↔ letters = statusText accepted := by
  constructor
  · intro h
    unfold status? at h
    split at h
    · cases h
      assumption
    · split at h
      · cases h
        assumption
      · cases h
  · rintro rfl
    exact status?_statusText accepted

/-- Statuses have no closing bracket, so they are read as long as commas follow. -/
theorem statuses_eq_ok {list : List Bool} : statuses layout = .ok (list, rest) ↔
    Stands StatusesForm layout list rest ∧ ∀ blanks tail, rest ≠ .token blanks .comma tail := by
  constructor
  · intro h
    induction list generalizing layout with
    | nil =>
        obtain ⟨_, _, _, _, -, -, ⟨_, _, _, -, -, hsame⟩ | ⟨-, -, hsame⟩⟩ :=
          exists_word_of_statuses h
        · cases hsame
        · cases hsame
    | cons s list ih =>
        obtain ⟨_, _, _, _, rfl, hs, ⟨_, _, _, rfl, hothers, hsame⟩ | ⟨hend, rfl, hsame⟩⟩ :=
          exists_word_of_statuses h
        · cases hsame
          obtain rfl := status?_eq_some.mp hs
          obtain ⟨⟨ts, hts, hstarts⟩, hend⟩ := ih hothers
          exact ⟨⟨_, .next rfl hts, .cons (.cons hstarts)⟩, hend⟩
        · cases hsame
          obtain rfl := status?_eq_some.mp hs
          exact ⟨⟨_, .last rfl, .cons .nil⟩, hend⟩
  · rintro ⟨⟨ts, hts, hstarts⟩, hend⟩
    induction hts generalizing layout with
    | @last _ s h =>
        obtain rfl := h
        obtain ⟨_, rfl⟩ := startsWith_singleton.mp hstarts
        exact statuses_of_ne_comma (status?_statusText s) _ hend
    | @next _ _ s _ h _ ih =>
        obtain rfl := h
        obtain ⟨_, _, rfl, hcomma⟩ := startsWith_cons.mp hstarts
        obtain ⟨_, tail, rfl, htail⟩ := startsWith_cons.mp hcomma
        rw [statuses_of_comma (status?_statusText s), ih htail]
        rfl

end

/-! ### Whole texts -/

section

variable {α : Type} {reader : Reader α} {form : Form α} {activity text : String} {value : α}

theorem stands_stop {layout : Layout} :
    (∃ blanks, Stands form layout value (.stop blanks)) ↔ form layout.tokens value := by
  constructor
  · rintro ⟨blanks, ts, hts, hstarts⟩
    rwa [exists_startsWith_stop.mp ⟨blanks, hstarts⟩]
  · intro hform
    obtain ⟨blanks, hstarts⟩ := exists_startsWith_stop.mpr rfl
    exact ⟨blanks, _, hform, hstarts⟩

theorem Takes.read_eq_ok (h : Takes reader form) :
    Dialect.read activity reader text = .ok value ↔
      form (Layout.ofText text.toList).tokens value := by
  simp only [Dialect.read_eq_ok, h _ _ _, stands_stop]

theorem read_statuses_eq_ok {list : List Bool} :
    Dialect.read activity statuses text = .ok list ↔
      StatusesForm (Layout.ofText text.toList).tokens list := by
  refine Dialect.read_eq_ok.trans (Iff.trans (exists_congr fun blanks => ?_) stands_stop)
  rw [statuses_eq_ok]
  exact and_iff_left fun _ _ h => nomatch h

/-- Exactly the texts whose tokens have the form are read, as the value that they stand for. Blanks
between tokens do not matter, and every other text is malformed. -/
structure Recognises (read : String → Except Failure α) (form : Form α) : Prop where
  accepts_iff : ∀ text value,
    read text = .ok value ↔ ∃ ts, Split text.toList ts ∧ form ts value
  refuses : ∀ text, (∀ ts value, Split text.toList ts → ¬ form ts value) →
    ∃ failure, read text = .error failure ∧ failure.kind = .malformed
  ignores_blanks : ∀ before blanks after value, (∀ c ∈ blanks, isBlank c = true) →
    Boundary before after →
    (read (.ofList (before ++ (blanks ++ after))) = .ok value ↔
      read (.ofList (before ++ after)) = .ok value)

theorem recognises_of_tokens
    (h : ∀ text value, Dialect.read activity reader text = .ok value ↔
      form (Layout.ofText text.toList).tokens value) :
    Recognises (Dialect.read activity reader) form := by
  have haccepts : ∀ text value, Dialect.read activity reader text = .ok value ↔
      ∃ ts, Split text.toList ts ∧ form ts value := by
    intro text value
    simp only [h, split_iff, exists_eq_left']
  refine ⟨haccepts, fun text hnone => ?_, fun before blanks after value hblanks hgap => ?_⟩
  · refine Dialect.malformed_of_ne_ok fun value hread => ?_
    obtain ⟨ts, hts, hform⟩ := (haccepts text value).mp hread
    exact hnone ts value hts hform
  · simp only [haccepts, String.toList_ofList, split_insert_blanks hblanks hgap]

end

end Answer

open Answer

namespace Dialect

/-- **The older dialect is read by its grammar.** A text has exactly one sequence of tokens, and
each reader accepts it if and only if its grammar has that sequence, as the value it stands for;
else the text is malformed. Blanks between two tokens change nothing. -/
theorem iccma17_recognises_grammar :
    (∀ text, ∃! ts, Split text ts)
      ∧ Recognises iccma17.readExtension ExtensionForm
      ∧ Recognises iccma17.readSet FlatSetForm
      ∧ Recognises iccma17.readTriple (TripleForm FlatSetForm)
      ∧ Recognises iccma17.readStatuses StatusesForm := by
  refine ⟨existsUnique_split, ?_, ?_, ?_, ?_⟩
  · exact recognises_of_tokens fun _ _ => takes_extension.read_eq_ok
  · exact recognises_of_tokens fun _ _ => takes_flatSet.read_eq_ok
  · exact recognises_of_tokens fun _ _ => (takes_triple takes_flatSet).read_eq_ok
  · exact recognises_of_tokens fun _ _ => read_statuses_eq_ok

theorem iccma17_recognises_spaced :
    let tokens : List Token := [.opening, .word ['a', '0'], .comma, .word ['a', '1'], .closing]
    let e : Extension := .ofList ["a0", "a1"]
    (Split "[a0 , a1]".toList tokens ∧ ExtensionForm tokens e
        ∧ (∀ c ∈ [' '], isBlank c = true) ∧ Boundary "[a0".toList ", a1]".toList
        ∧ ∀ ts value, Split "".toList ts → ¬ ExtensionForm ts value)
      ∧ iccma17.readExtension "[a0 , a1]" = .ok e
      ∧ iccma17.readExtension (.ofList ("[a0".toList ++ ", a1]".toList)) = .ok e
      ∧ ∃ failure, iccma17.readExtension "" = .error failure ∧ failure.kind = .malformed := by
  intro tokens e
  have hsplit : Split "[a0 , a1]".toList tokens := split_iff.mpr rfl
  have hfirst : WordForm [.word ['a', '0']] "a0" := rfl
  have hsecond : WordForm [.word ['a', '1']] "a1" := rfl
  have hform : ExtensionForm tokens e :=
    .inr ⟨[.word ['a', '0'], .comma, .word ['a', '1']], ["a0", "a1"], rfl,
      .next hfirst (.last hsecond), fun _ => OrderedSet.mem_ofList⟩
  have hblank : ∀ c ∈ [' '], isBlank c = true := List.forall_mem_singleton.mpr rfl
  have hgap : Boundary "[a0".toList ", a1]".toList := .inr (endsWord_cons (c := ',') rfl _)
  have hnone : ∀ ts value, Split "".toList ts → ¬ ExtensionForm ts value := by
    rintro ts value hts (⟨rfl, -⟩ | ⟨_, _, rfl, -⟩)
    · cases hts.tokens_ofText
    · cases hts.tokens_ofText
  obtain ⟨-, hextension, -⟩ := iccma17_recognises_grammar
  have hread : iccma17.readExtension "[a0 , a1]" = .ok e :=
    (hextension.accepts_iff _ e).mpr ⟨tokens, hsplit, hform⟩
  exact ⟨⟨hsplit, hform, hblank, hgap, hnone⟩, hread,
    (hextension.ignores_blanks _ [' '] _ e hblank hgap).mp hread, hextension.refuses "" hnone⟩

end Dialect

end SolverAudit
