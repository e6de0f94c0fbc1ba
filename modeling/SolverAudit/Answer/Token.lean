import SolverAudit.Text.Basic

/-!
# Tokens of an answer

An answer of an argumentation solver is made of brackets, commas and words, with blanks between
them. A text is laid out as its tokens, each with the blanks in front of it, so nothing is lost and
the position of every token can be told.
-/

namespace SolverAudit.Answer

inductive Token where
  | opening
  | closing
  | comma
  | word (letters : List Char)
deriving DecidableEq, Repr

def Token.text : Token → List Char
  | .opening => ['[']
  | .closing => [']']
  | .comma => [',']
  | .word letters => letters

def isWordChar (c : Char) : Bool :=
  !isBlank c && c != '[' && c != ']' && c != ','

/-- The tokens of a text, each after the blanks in front of it, and the blanks at the end. -/
inductive Layout where
  | stop (blanks : List Char)
  | token (blanks : List Char) (token : Token) (rest : Layout)
deriving DecidableEq, Repr

namespace Layout

def size : Layout → Nat
  | stop _ => 0
  | token _ _ rest => rest.size + 1

def tokens : Layout → List Token
  | stop _ => []
  | token _ t rest => t :: rest.tokens

def margin : Layout → List Char
  | stop blanks => blanks
  | token blanks _ _ => blanks

def body : Layout → List Char
  | stop _ => []
  | token _ t rest => t.text ++ rest.margin ++ rest.body

def text (layout : Layout) : List Char :=
  layout.margin ++ layout.body

def onNewLine (layout : Layout) : Bool :=
  '\n' ∈ layout.margin

def consBlank (c : Char) : Layout → Layout
  | stop blanks => stop (c :: blanks)
  | token blanks t rest => token (c :: blanks) t rest

/-- A character of a word in front: it joins a word that follows at once. -/
def consLetter (c : Char) : Layout → Layout
  | token [] (.word letters) rest => token [] (.word (c :: letters)) rest
  | layout => token [] (.word [c]) layout

def ofText : List Char → Layout
  | [] => stop []
  | c :: rest =>
    if isBlank c then (ofText rest).consBlank c
    else if c = '[' then token [] .opening (ofText rest)
    else if c = ']' then token [] .closing (ofText rest)
    else if c = ',' then token [] .comma (ofText rest)
    else (ofText rest).consLetter c

theorem text_consBlank (c : Char) (layout : Layout) :
    (layout.consBlank c).text = c :: layout.text := by
  cases layout <;> rfl

theorem text_consLetter (c : Char) (layout : Layout) :
    (layout.consLetter c).text = c :: layout.text := by
  unfold consLetter
  split <;> simp [text, margin, body, Token.text]

/-- A layout holds every character of its text. -/
theorem text_ofText (text : List Char) : (ofText text).text = text := by
  induction text with
  | nil => rfl
  | cons c rest ih =>
    simp only [ofText]
    split
    · rw [text_consBlank, ih]
    · split
      · next h => rw [h]; exact congrArg ('[' :: ·) ih
      · split
        · next h => rw [h]; exact congrArg (']' :: ·) ih
        · split
          · next h => rw [h]; exact congrArg (',' :: ·) ih
          · rw [text_consLetter, ih]

end Layout

end SolverAudit.Answer
