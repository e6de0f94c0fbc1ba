import SolverAudit.Proofs.Formula.Dimacs
import SolverAudit.Proofs.Ordered.Set

/-!
# Written formulas read back

A text in the DIMACS format is cut into lines, a line into words, and a word into a sign and digits.
Each of these undoes one step of writing, for any numbers of variables and clauses and any literals,
so what was written can be read back, and texts are equal only if what they were written from is.
-/

namespace SolverAudit

/-- Items that are read back one by one are read back in a row. -/
theorem mapM_map_eq_some {α β : Type} {write : α → β} {read? : β → Option α}
    (hread : ∀ x, read? (write x) = some x) (xs : List α) :
    (xs.map write).mapM read? = some xs := by
  have hpure : read? ∘ write = fun x => pure x := funext hread
  rw [List.mapM_map, hpure, List.mapM_pure, List.map_id']
  rfl

namespace Literal

/-- The literal of a number, which has a minus sign in front for a negation. -/
def ofText? : List Char → Option Literal
  | '-' :: digits => (Numeral.natural? digits).bind fun n => ofInt? (-n)
  | digits => (Numeral.natural? digits).bind fun n => ofInt? n

theorem ofText?_text (l : Literal) : ofText? l.text = some l := by
  have hread := ofInt?_toInt l
  unfold text
  unfold toInt at hread
  by_cases hpositive : l.positive = true
  · rw [if_pos hpositive] at hread ⊢
    unfold ofText?
    split
    · rename_i rest hsign
      have hdigit : '-'.isDigit = true :=
        Numeral.isDigit_of_mem_digits (n := l.var) (by rw [hsign]; exact List.mem_cons_self)
      exact absurd hdigit (by decide)
    · rw [Numeral.natural?_digits, Option.bind_some, hread]
  · rw [if_neg hpositive] at hread ⊢
    rw [ofText?, Numeral.natural?_digits, Option.bind_some, hread]

end Literal

namespace Dimacs

/-! ### Lines -/

/-- The literals that a line lists in front of the zero that ends it. -/
def listed? (line : List Char) : Option (List Literal) :=
  let words := wordsBy isAsciiBlank line
  if words.getLast? = some ['0'] then words.dropLast.mapM Literal.ofText? else none

theorem listed?_zeroTerminated (ls : List Literal) : listed? (zeroTerminated ls) = some ls := by
  rw [listed?, words_zeroTerminated, List.getLast?_concat, if_pos rfl, List.dropLast_concat,
    mapM_map_eq_some Literal.ofText?_text]

/-- The numbers of variables and clauses that a header gives. -/
def counts? (line : List Char) : Option (Nat × Nat) :=
  match wordsBy isAsciiBlank line with
  | [['p'], ['c', 'n', 'f'], varCount, clauseCount] => do
    return (← Numeral.natural? varCount, ← Numeral.natural? clauseCount)
  | _ => none

theorem isAsciiBlank_of_mem_digits {n : Nat} : ∀ c ∈ Numeral.digits n, isAsciiBlank c = false :=
  fun _ hc => isAsciiBlank_of_isDigit (Numeral.isDigit_of_mem_digits hc)

/-- A number at the end of a line. -/
theorem words_digits (n : Nat) : wordsBy isAsciiBlank (Numeral.digits n) = [Numeral.digits n] := by
  have hends : ∀ c ∈ ([] : List Char).head?, isAsciiBlank c = true := by simp
  simpa [wordsBy_of_gap] using
    wordsBy_word_append isAsciiBlank_of_mem_digits Nat.toDigits_ne_nil hends

/-- A number with a space behind it. -/
theorem words_digits_append (n : Nat) (rest : List Char) :
    wordsBy isAsciiBlank (Numeral.digits n ++ ' ' :: rest) =
      Numeral.digits n :: wordsBy isAsciiBlank rest :=
  wordsBy_append_cons isAsciiBlank_of_mem_digits Nat.toDigits_ne_nil rfl rest

theorem counts?_header (varCount clauseCount : Nat) :
    counts? (header varCount clauseCount) = some (varCount, clauseCount) := by
  have hletter : ∀ c ∈ ['p'], isAsciiBlank c = false := by simp [isAsciiBlank]
  have hformat : ∀ c ∈ ['c', 'n', 'f'], isAsciiBlank c = false := by simp [isAsciiBlank]
  have hwords : wordsBy isAsciiBlank (header varCount clauseCount) =
      [['p'], ['c', 'n', 'f'], Numeral.digits varCount, Numeral.digits clauseCount] := by
    calc
      wordsBy isAsciiBlank (header varCount clauseCount) =
          wordsBy isAsciiBlank (['p'] ++ ' ' :: (['c', 'n', 'f'] ++ ' ' ::
            (Numeral.digits varCount ++ ' ' :: Numeral.digits clauseCount))) := by
        simp [header]
      _ = _ := by
        rw [wordsBy_append_cons hletter (List.cons_ne_nil _ _) rfl,
          wordsBy_append_cons hformat (List.cons_ne_nil _ _) rfl, words_digits_append,
          words_digits]
  rw [counts?, hwords]
  simp only [Numeral.natural?_digits]
  rfl

def weighed? (line : List Char) : Option (Literal × Nat) :=
  match wordsBy isAsciiBlank line with
  | [literal, weight] => do return (← Literal.ofText? literal, ← Numeral.natural? weight)
  | _ => none

theorem weighed?_weightLine (entry : Literal × Nat) : weighed? (weightLine entry) = some entry := by
  obtain ⟨l, weight⟩ := entry
  have hwords : wordsBy isAsciiBlank (weightLine (l, weight)) =
      [l.text, Numeral.digits weight] := by
    rw [weightLine, List.append_assoc, List.singleton_append,
      wordsBy_append_cons (fun _ hc => Literal.isAsciiBlank_of_mem_text hc) l.text_ne_nil rfl,
      words_digits]
  rw [weighed?, hwords]
  simp only [Literal.ofText?_text, Numeral.natural?_digits]
  rfl

/-! ### Texts -/

def readFormula? (text : String) : Option (Nat × List Clause) :=
  match finishedLines? text.toList with
  | some (first :: rows) => do
    let (varCount, clauseCount) ← counts? first
    let clauses ← rows.mapM listed?
    if clauses.length = clauseCount then some (varCount, clauses) else none
  | _ => none

def readModels? (text : String) : Option (List (List Literal)) :=
  (finishedLines? text.toList).bind fun rows => rows.mapM listed?

def readWeights? (text : String) : Option (List (Literal × Nat)) :=
  (finishedLines? text.toList).bind fun rows => rows.mapM weighed?

theorem newline_not_mem_digits (n : Nat) : '\n' ∉ Numeral.digits n := fun hmem =>
  absurd (isAsciiBlank_of_mem_digits _ hmem) (by decide)

theorem newline_not_mem_header (varCount clauseCount : Nat) :
    '\n' ∉ header varCount clauseCount := by
  simp [header, newline_not_mem_digits]

theorem newline_not_mem_weightLine (entry : Literal × Nat) : '\n' ∉ weightLine entry := by
  have htext : '\n' ∉ entry.1.text := fun hmem =>
    absurd (Literal.isAsciiBlank_of_mem_text hmem) (by decide)
  simp [weightLine, htext, newline_not_mem_digits]

theorem newline_not_mem_clauseLines (clauses : List Clause) :
    ∀ row ∈ clauses.map zeroTerminated, '\n' ∉ row :=
  List.forall_mem_map.mpr fun clause _ => newline_not_mem_zeroTerminated clause

theorem newline_not_mem_formulaLines (varCount : Nat) (clauses : List Clause) :
    ∀ row ∈ header varCount clauses.length :: clauses.map zeroTerminated, '\n' ∉ row :=
  List.forall_mem_cons.mpr
    ⟨newline_not_mem_header varCount clauses.length, newline_not_mem_clauseLines clauses⟩

theorem readFormula?_formula (varCount : Nat) (clauses : List Clause) :
    readFormula? (formula varCount clauses) = some (varCount, clauses) := by
  rw [readFormula?, formula, String.toList_ofList,
    finishedLines?_unlines (newline_not_mem_formulaLines varCount clauses)]
  simp only [counts?_header, mapM_map_eq_some listed?_zeroTerminated, Option.bind_eq_bind,
    Option.bind_some, if_true]

theorem models_eq (ms : List Assignment) :
    models ms = String.ofList (unlines ((ms.map OrderedSet.toList).map zeroTerminated)) := by
  rw [models, List.map_map]
  rfl

theorem readModels?_models (ms : List Assignment) :
    readModels? (models ms) = some (ms.map OrderedSet.toList) := by
  rw [readModels?, models_eq, String.toList_ofList,
    finishedLines?_unlines (newline_not_mem_clauseLines _), Option.bind_some,
    mapM_map_eq_some listed?_zeroTerminated]

theorem readWeights?_weights (table : List (Literal × Nat)) :
    readWeights? (weights table) = some table := by
  have hnewline : ∀ row ∈ table.map weightLine, '\n' ∉ row :=
    List.forall_mem_map.mpr fun entry _ => newline_not_mem_weightLine entry
  rw [readWeights?, weights, String.toList_ofList, finishedLines?_unlines hnewline,
    Option.bind_some, mapM_map_eq_some weighed?_weightLine]

/-! ### Main statement -/

theorem formula_injective : Function.Injective2 formula := by
  intro varCount varCount' clauses clauses' hsame
  have hread := congrArg readFormula? hsame
  rw [readFormula?_formula, readFormula?_formula, Option.some.injEq, Prod.mk.injEq] at hread
  exact hread

theorem models_injective : Function.Injective models := by
  intro ms ms' hsame
  have hread := congrArg readModels? hsame
  rw [readModels?_models, readModels?_models, Option.some.injEq] at hread
  exact List.map_injective_iff.mpr OrderedSet.toList_injective hread

theorem weights_injective : Function.Injective weights := by
  intro table table' hsame
  have hread := congrArg readWeights? hsame
  rw [readWeights?_weights, readWeights?_weights, Option.some.injEq] at hread
  exact hread

/-- **The texts lose nothing.** Formulas, lists of models and lists of weights have equal texts only
if they are equal, whatever the literals are, and formulas that share all their payloads are the
same. Each line of a clause or a model, up to the zero that ends it, lists its literals in order. -/
theorem texts_lose_nothing :
    (∀ varCount varCount' clauses clauses',
        formula varCount clauses = formula varCount' clauses' →
          varCount = varCount' ∧ clauses = clauses')
      ∧ (∀ ms ms', models ms = models ms' → ms = ms')
      ∧ (∀ table table', weights table = weights table' → table = table')
      ∧ (∀ varCount clauses, ∃ first rows,
        lines (formula varCount clauses).toList = first :: rows ++ [[]]
          ∧ rows.map listed? = clauses.map some)
      ∧ (∀ ms : List Assignment, ∃ rows, lines (models ms).toList = rows ++ [[]]
        ∧ rows.map listed? = ms.map fun m => some m.toList)
      ∧ ∀ f g : Formula, (∀ kind, payload f kind = payload g kind) → f = g := by
  have hlisted : ∀ clauses : List Clause,
      (clauses.map zeroTerminated).map listed? = clauses.map some := by
    intro clauses
    rw [List.map_map]
    exact List.map_congr_left fun clause _ => listed?_zeroTerminated clause
  refine ⟨fun _ _ _ _ hsame => formula_injective hsame, fun _ _ hsame => models_injective hsame,
    fun _ _ hsame => weights_injective hsame, fun varCount clauses => ?_, fun ms => ?_,
    fun f g hsame => ?_⟩
  · refine ⟨header varCount clauses.length, clauses.map zeroTerminated, ?_, hlisted clauses⟩
    rw [formula, String.toList_ofList, lines_unlines (newline_not_mem_formulaLines _ _)]
  · refine ⟨_, ?_, (hlisted _).trans (List.map_map ..)⟩
    rw [models_eq, String.toList_ofList, lines_unlines (newline_not_mem_clauseLines _)]
  · obtain ⟨varCount, clauses, ms⟩ := f
    obtain ⟨varCount', clauses', ms'⟩ := g
    obtain ⟨rfl, rfl⟩ := formula_injective (Except.ok.inj (hsame "cnf"))
    obtain rfl := OrderedSet.toList_injective (models_injective (Except.ok.inj (hsame "models")))
    rfl

theorem texts_lose_nothing_empty_clause :
    let clauses : List Clause := [[⟨0, true⟩, ⟨1, false⟩], [], [⟨0, false⟩, ⟨0, false⟩]]
    let text := "p cnf 2 3\n1 -2 0\n0\n-1 -1 0\n"
    let m : Assignment := ⟨[⟨0, true⟩], List.pairwise_singleton _ _⟩
    (formula 2 clauses = text ∧ models [∅, m] = "0\n1 0\n"
        ∧ weights [(⟨1, false⟩, 9)] = "-2 9\n")
      ∧ (∀ varCount' clauses', text = formula varCount' clauses' →
        2 = varCount' ∧ clauses = clauses')
      ∧ (∀ ms', "0\n1 0\n" = models ms' → [∅, m] = ms')
      ∧ ∀ table', "-2 9\n" = weights table' → [(⟨1, false⟩, 9)] = table' := by
  intro clauses text m
  obtain ⟨hformula, hmodels, hweights, -⟩ := texts_lose_nothing
  have htexts : formula 2 clauses = text ∧ models [∅, m] = "0\n1 0\n"
      ∧ weights [(⟨1, false⟩, 9)] = "-2 9\n" := ⟨by decide, by decide, by decide⟩
  exact ⟨htexts, fun _ _ h => hformula _ _ _ _ (htexts.1.trans h),
    fun _ h => hmodels _ _ (htexts.2.1.trans h), fun _ h => hweights _ _ (htexts.2.2.trans h)⟩

end Dimacs

end SolverAudit
