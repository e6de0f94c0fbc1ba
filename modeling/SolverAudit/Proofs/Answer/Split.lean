import Mathlib.Logic.ExistsUnique
import SolverAudit.Proofs.Answer.Token

/-!
# Splitting texts into tokens

Brackets and commas are tokens of their own. What else is no blank makes words, each as long as
possible. Every text is split in exactly one way, and blanks put between two tokens do not change
how.
-/

namespace SolverAudit.Answer

/-- The tokens of a text. A word goes on as long as letters follow. -/
inductive Split : List Char → List Token → Prop
  | nil : Split [] []
  | blank {c : Char} {rest : List Char} {ts : List Token} (hc : isBlank c = true)
      (h : Split rest ts) : Split (c :: rest) ts
  | opening {rest : List Char} {ts : List Token} (h : Split rest ts) :
      Split ('[' :: rest) (.opening :: ts)
  | closing {rest : List Char} {ts : List Token} (h : Split rest ts) :
      Split (']' :: rest) (.closing :: ts)
  | comma {rest : List Char} {ts : List Token} (h : Split rest ts) :
      Split (',' :: rest) (.comma :: ts)
  | word {letters rest : List Char} {ts : List Token} (hletters : IsWord letters)
      (hend : EndsWord rest) (h : Split rest ts) : Split (letters ++ rest) (.word letters :: ts)

section

variable {c : Char} {text rest : List Char} {ts : List Token}

theorem exists_word_of_letter (hc : isWordChar c = true) (rest : List Char) :
    ∃ letters tail, c :: rest = letters ++ tail ∧ IsWord letters ∧ EndsWord tail := by
  induction rest generalizing c with
  | nil =>
      refine ⟨[c], [], rfl, ⟨List.cons_ne_nil _ _, List.forall_mem_singleton.mpr hc⟩, ?_⟩
      rintro _ ⟨⟩
  | cons next rest ih =>
      cases hnext : isWordChar next with
      | true =>
          obtain ⟨letters, tail, htext, hword, hend⟩ := ih hnext
          exact ⟨c :: letters, tail, congrArg (c :: ·) htext,
            ⟨List.cons_ne_nil _ _, List.forall_mem_cons.mpr ⟨hc, hword.2⟩⟩, hend⟩
      | false =>
          exact ⟨[c], next :: rest, rfl,
            ⟨List.cons_ne_nil _ _, List.forall_mem_singleton.mpr hc⟩, endsWord_cons hnext rest⟩

theorem Split.tokens_ofText (h : Split text ts) : (Layout.ofText text).tokens = ts := by
  induction h with
  | nil => rfl
  | blank hc _ ih => rw [Layout.ofText_blank hc, Layout.tokens_consBlank, ih]
  | opening _ ih => exact congrArg (Token.opening :: ·) ih
  | closing _ ih => exact congrArg (Token.closing :: ·) ih
  | comma _ ih => exact congrArg (Token.comma :: ·) ih
  | word hletters hend _ ih => rw [Layout.ofText_word hletters hend, Layout.tokens, ih]

theorem split_ofText (text : List Char) : Split text (Layout.ofText text).tokens := by
  induction hlength : text.length using Nat.strongRecOn generalizing text with
  | _ length ih =>
      rcases text with _ | ⟨c, rest⟩
      · exact .nil
      have hrest : Split rest (Layout.ofText rest).tokens :=
        ih rest.length (hlength ▸ Nat.lt_succ_self _) rest rfl
      rcases isWordChar_or c with hletter | hblank | rfl | rfl | rfl
      · -- The word is taken as a whole, so the recursion goes on behind its last letter.
        obtain ⟨letters, tail, htext, hword, hend⟩ := exists_word_of_letter hletter rest
        have htail : tail.length < length := by
          have hpositive := List.length_pos_iff.mpr hword.1
          rw [← hlength, htext, List.length_append]
          omega
        rw [htext, Layout.ofText_word hword hend]
        exact .word hword hend (ih tail.length htail tail rfl)
      · rw [Layout.ofText_blank hblank, Layout.tokens_consBlank]
        exact .blank hblank hrest
      · exact .opening hrest
      · exact .closing hrest
      · exact .comma hrest

/-- The layout of a text has the tokens that the text is split into. -/
theorem split_iff : Split text ts ↔ (Layout.ofText text).tokens = ts := by
  constructor
  · exact Split.tokens_ofText
  · rintro rfl
    exact split_ofText text

theorem existsUnique_split (text : List Char) : ∃! ts, Split text ts :=
  ⟨_, split_ofText text, fun _ h => h.tokens_ofText.symm⟩

end

/-! ### Putting texts together -/

section

variable {before after blanks : List Char} {ts us : List Token}

/-- No word goes on from one text into the other. -/
def Boundary (before after : List Char) : Prop :=
  (∀ c ∈ before.getLast?, isWordChar c = false) ∨ EndsWord after

theorem Boundary.of_append (h : Boundary (before ++ blanks) after) : Boundary blanks after := by
  refine h.imp_left fun hlast c hc => hlast c ?_
  rw [Option.mem_def] at hc ⊢
  rw [List.getLast?_append, hc, Option.some_or]

theorem Boundary.tail {c : Char} (h : Boundary (c :: blanks) after) : Boundary blanks after := by
  rw [← List.singleton_append] at h
  exact h.of_append

theorem Boundary.endsWord (h : Boundary before after) (hword : IsWord before) :
    EndsWord after := by
  obtain ⟨hne, hletters⟩ := hword
  rcases h with hlast | hend
  · have hletter := hletters _ (List.getLast_mem hne)
    rw [hlast _ (List.getLast?_eq_some_getLast hne)] at hletter
    cases hletter
  · exact hend

theorem Split.append (h : Split before ts) (h' : Split after us) (hgap : Boundary before after) :
    Split (before ++ after) (ts ++ us) := by
  induction h with
  | nil => exact h'
  | blank hc _ ih => exact .blank hc (ih hgap.tail)
  | opening _ ih => exact .opening (ih hgap.tail)
  | closing _ ih => exact .closing (ih hgap.tail)
  | comma _ ih => exact .comma (ih hgap.tail)
  | @word letters rest _ hletters hend _ ih =>
      rw [List.append_assoc]
      refine .word hletters ?_ (ih hgap.of_append)
      rcases rest with _ | ⟨c, rest⟩
      · rw [List.append_nil] at hgap
        exact hgap.endsWord hletters
      · exact hend

theorem split_nil_of_blanks (hblanks : ∀ c ∈ blanks, isBlank c = true) : Split blanks [] := by
  induction blanks with
  | nil => exact .nil
  | cons c blanks ih =>
      obtain ⟨hc, hblanks⟩ := List.forall_mem_cons.mp hblanks
      exact .blank hc (ih hblanks)

theorem isWordChar_eq_false_of_isBlank {c : Char} (hc : isBlank c = true) :
    isWordChar c = false := by
  simp [isWordChar, hc]

theorem Boundary.blanks_append (hgap : Boundary before after)
    (hblanks : ∀ c ∈ blanks, isBlank c = true) : Boundary before (blanks ++ after) := by
  rcases blanks with _ | ⟨c, blanks⟩
  · exact hgap
  · exact .inr (endsWord_cons (isWordChar_eq_false_of_isBlank (hblanks c List.mem_cons_self)) _)

theorem boundary_of_blanks (hblanks : ∀ c ∈ blanks, isBlank c = true) (after : List Char) :
    Boundary blanks after :=
  .inl fun c hc => isWordChar_eq_false_of_isBlank (hblanks c (List.mem_of_mem_getLast? hc))

/-- Blanks between two tokens do not change the tokens. -/
theorem split_insert_blanks (hblanks : ∀ c ∈ blanks, isBlank c = true)
    (hgap : Boundary before after) :
    Split (before ++ (blanks ++ after)) ts ↔ Split (before ++ after) ts := by
  have hbefore := split_ofText before
  have hafter := split_ofText after
  have hnarrow := hbefore.append hafter hgap
  have hwide := hbefore.append
    ((split_nil_of_blanks hblanks).append hafter (boundary_of_blanks hblanks after))
    (hgap.blanks_append hblanks)
  rw [split_iff, split_iff, hnarrow.tokens_ofText, hwide.tokens_ofText, List.nil_append]

end

end SolverAudit.Answer
