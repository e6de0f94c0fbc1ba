import SolverAudit.Proofs.Storage.Payload
import SolverAudit.Session.Basic

/-!
# Trials

What a session does at a node is settled by the number of the node, its instance and what the solver
makes of it. A visit counts that and leaves a folder if the trial fails, and nothing else.
-/

namespace SolverAudit

open Storage

/-! ### The payloads of the problems -/

theorem Problem.storable (problem : Problem) :
    ∀ kind ∈ Payloads.kinds problem.Instance, Storable problem.Instance kind := by
  have hname : ∀ kind ∈ Payloads.kinds problem.Instance, IsFileName s!"instance.{kind}" := by
    cases problem <;> decide
  have hshort : ∀ kind ∈ Payloads.kinds problem.Instance,
      s!"instance.{kind}".utf8ByteSize ≤ longestFileName := by
    cases problem <;> decide
  have htext : ∀ x : problem.Instance, ∀ kind ∈ Payloads.kinds problem.Instance,
      (Payloads.text? x kind).isSome = true := by
    intro x
    rw [← List.all_eq_true]
    cases problem <;> rfl
  exact fun kind hkind =>
    ⟨hname kind hkind, hshort kind hkind, fun x => Option.isSome_iff_exists.mp (htext x kind hkind)⟩

theorem Checker.required_subset (checker : Checker) :
    checker.required ⊆ Payloads.kinds checker.problem.Instance := by
  cases checker with
  | framework query =>
      change ["apx"] ⊆ Payloads.kinds Framework
      decide
  | satisfiability | counting | weightedCounting => decide

namespace Session

/-! ### Trials -/

/-- What a session comes across at a node. -/
structure Trial (s : Session) where
  number : Nat
  node : s.checker.problem.Instance
  /-- What the solver made of the instance, unless the session ignored it. -/
  answer? : Option (Except Failure String)

namespace Trial

variable {s : Session}

/-- What the check of an output comes to, or the failure of the solver. -/
def outcome? (t : s.Trial) : Option (Except Failure Verdict) :=
  t.answer?.map fun answer => answer >>= s.checker.check t.node s.dialect

/-- The solver fails, or the check of its output is not a success. -/
def fails (t : s.Trial) : Bool := t.outcome?.any fun outcome => outcome ≠ .ok .success

def output (t : s.Trial) : String :=
  match t.answer? with
  | some (.ok output) => output
  | _ => ""

def explanation (t : s.Trial) : String := (t.outcome?.bind explanation?).getD ""

/-- The files that are kept of a trial that fails. -/
def files (t : s.Trial) : List (String × String) :=
  payloadFiles t.node (Payloads.kinds s.checker.problem.Instance)
    ++ [("solver_output.txt", kept t.output), ("explanation.txt", kept t.explanation)]

/-- Where the files are kept, below the place of the output directory. -/
def place (home : Place) (t : s.Trial) : Place := home ++ [instanceName t.number]

/-- What a trial leaves of a storage. -/
def leave (home : Place) (t : s.Trial) (storage : Storage) : Storage :=
  if t.fails then storage.withFolder (t.place home) t.files else storage

def count (t : s.Trial) (tally : Tally) : Tally :=
  if t.answer?.isNone then tally.withIgnored
  else if t.fails then tally.withCheck.withError
  else tally.withCheck

/-- How far a session has got after a trial. -/
def advance (t : s.Trial) (progress : Progress) : Progress :=
  { progress.next with tally := t.count progress.tally }

end Trial

/-- The paths of the files that the solver needs of an instance. -/
def paths (s : Session) (number : Nat) : List String :=
  payloadPaths s.checker.required (Path.join s.directory (instanceName number))

/-- The storage that the solver sees: those files are the only ones in a folder of their own. -/
def seen (s : Session) (home : Place) (storage : Storage) (number : Nat)
    (x : s.checker.problem.Instance) : Storage :=
  storage.withFolder (home ++ [instanceName number]) (payloadFiles x s.checker.required)

def answer (s : Session) (home : Place) (storage : Storage) (number : Nat)
    (x : s.checker.problem.Instance) : Except Failure String :=
  s.solver.run (s.checker.call x (s.paths number)) (s.seen home storage number x)

def outcome (s : Session) (home : Place) (storage : Storage) (number : Nat)
    (x : s.checker.problem.Instance) : Except Failure Verdict :=
  s.answer home storage number x >>= s.checker.check x s.dialect

/-- What happens at a node: unless its instance is ignored, the solver is called on it. -/
def trial (s : Session) (home : Place) (storage : Storage) (number : Nat)
    (x : s.checker.problem.Instance) : s.Trial where
  number := number
  node := x
  answer? := if s.checker.ignores x then none else some (s.answer home storage number x)

/-- The trials at nodes with numbers from the given one on, each in the storage that the ones before
it have left. -/
def trials (s : Session) (home : Place) (storage : Storage) (number : Nat) :
    List s.checker.problem.Instance → List s.Trial
  | [] => []
  | x :: rest =>
    let first := s.trial home storage number x
    first :: s.trials home (first.leave home storage) (number + 1) rest

variable {s : Session} {home : Place} {storage : Storage} {number : Nat} {progress : Progress}
  {x : s.checker.problem.Instance}

/-! ### Outcomes -/

theorem explanation?_eq_none {outcome : Except Failure Verdict} :
    explanation? outcome = none ↔ outcome = .ok .success := by
  rcases outcome with failure | _ | discrepancy <;> simp [explanation?]

theorem Trial.fails_of_answer?_eq_none {t : s.Trial} (h : t.answer? = none) : t.fails = false := by
  rw [Trial.fails, Trial.outcome?, h]
  rfl

theorem answer?_trial (hignores : s.checker.ignores x = false) :
    (s.trial home storage number x).answer? = some (s.answer home storage number x) := by
  rw [trial, hignores, if_neg Bool.false_ne_true]

theorem outcome?_trial (hignores : s.checker.ignores x = false) :
    (s.trial home storage number x).outcome? = some (s.outcome home storage number x) := by
  rw [Trial.outcome?, answer?_trial hignores]
  rfl

theorem fails_trial (hignores : s.checker.ignores x = false) :
    (s.trial home storage number x).fails = true ↔
      s.outcome home storage number x ≠ .ok .success := by
  rw [Trial.fails, outcome?_trial hignores, Option.any_some, decide_eq_true_iff]

/-- The session consults the solver as the trial says. -/
theorem consult_eq (hignores : s.checker.ignores x = false) :
    s.consult x (s.paths number) (s.seen home storage number x) =
      (s.outcome home storage number x, (s.trial home storage number x).output) := by
  rw [Trial.output, answer?_trial hignores, consult, outcome, answer]
  rcases s.solver.run _ _ with failure | output <;> rfl

/-! ### Visits -/

theorem run_count (counted : Tally → Tally) (storage : Storage) (progress : Progress) :
    (count counted).run (storage, progress) =
      (.ok (), storage, { progress with tally := counted progress.tally }) := rfl

/-- What the visit to a node with a number needs: there is room for its folder. -/
abbrev Ready (s : Session) (home : Place) (storage : Storage) (number : Nat) : Prop :=
  storage.Vacant s.directory (instanceName number) home

theorem run_visit_of_ignores (hignores : s.checker.ignores x = true) :
    (s.visit x).run (storage, progress) =
      (.ok (), storage, { progress.next with tally := progress.tally.withIgnored }) := by
  rw [visit, Attempt.run_bind_of_ok (Attempt.run_onSecond_change _ storage progress),
    if_pos hignores]
  exact run_count _ _ progress.next

/-- What a visit does when the outcome is known: a success is forgotten, a failure is kept. -/
def conclude (s : Session) (x : s.checker.problem.Instance) (directory output : String) :
    Option String → Attempt (Storage × Progress) Unit
  | none => Attempt.onFirst (forget directory)
  | some explanation => do
    count Tally.withError
    Attempt.onFirst do
      discard (storeAllPayloads x directory)
      keep (Path.join directory "solver_output.txt") output
      keep (Path.join directory "explanation.txt") explanation

/-- A visit stores what the solver needs, consults it and concludes. -/
theorem run_visit_eq_conclude (hready : s.Ready home storage progress.next.index)
    (hignores : s.checker.ignores x = false) :
    (s.visit x).run (storage, progress) =
      (s.conclude x (Path.join s.directory (instanceName progress.next.index))
        (s.trial home storage progress.next.index x).output
        (explanation? (s.outcome home storage progress.next.index x))).run
        (s.seen home storage progress.next.index x,
          { progress.next with tally := progress.tally.withCheck }) := by
  have hstore : (storePayloads x s.checker.required
      (Path.join s.directory (instanceName progress.next.index))).run storage =
        (.ok (s.paths progress.next.index), s.seen home storage progress.next.index x) :=
    hready.run_storePayloads
      (fun kind hkind => s.checker.problem.storable kind (s.checker.required_subset hkind)) x
  rw [visit, Attempt.run_bind_of_ok (Attempt.run_onSecond_change _ storage progress), hignores,
    if_neg Bool.false_ne_true,
    Attempt.run_bind_of_ok (Attempt.run_onFirst_of_ok hstore progress.next),
    Attempt.run_bind_of_ok (Attempt.run_onFirst_change _ _ progress.next), consult_eq hignores]
  dsimp only
  rw [Attempt.run_bind_of_ok (run_count _ _ progress.next)]
  cases explanation? _ <;> rfl

/-! ### Conclusions -/

/-- Of a success nothing is left. -/
theorem run_conclude_none (hready : s.Ready home storage number) (output : String) :
    (s.conclude x (Path.join s.directory (instanceName number)) output none).run
        (s.seen home storage number x, progress) =
      (.ok (), storage, progress) := by
  have hremove := hready.withoutDirectory (payloadFiles x s.checker.required)
  rw [conclude, forget]
  exact Attempt.run_onFirst_of_ok
    (Attempt.run_during_of_ok (run_attempt_of_ok hremove) _) progress

theorem run_keep (hready : s.Ready home storage number) {file : String} (hfile : IsFileName file)
    (hshort : file.utf8ByteSize ≤ longestFileName) (files : List (String × String))
    (text : String) :
    (keep (Path.join (Path.join s.directory (instanceName number)) file) text).run
        (storage.withFolder (home ++ [instanceName number]) files) =
      (.ok (), storage.withFolder (home ++ [instanceName number])
        (files ++ [(file, kept text)])) :=
  Attempt.run_during_of_ok (run_attempt_of_ok (hready.withFile hfile hshort files (kept text))) _

/-- The payloads that the solver needed are stored once more among all payloads. -/
theorem run_storeAllPayloads_seen (hready : s.Ready home storage number) :
    (discard (storeAllPayloads x (Path.join s.directory (instanceName number)))).run
        (s.seen home storage number x) =
      (.ok (), storage.withFolder (home ++ [instanceName number])
        (payloadFiles x (Payloads.kinds s.checker.problem.Instance))) := by
  have hstore := hready.run_storePayloads_again s.checker.problem.storable x
    (payloadFiles x s.checker.required)
  have hnames : (payloadFiles x s.checker.required).map Prod.fst ⊆
      (payloadFiles x (Payloads.kinds s.checker.problem.Instance)).map Prod.fst := by
    rw [names_payloadFiles, names_payloadFiles]
    exact List.map_subset _ s.checker.required_subset
  rw [withFolder_append_of_subset hnames] at hstore
  exact Attempt.run_bind_of_ok hstore

/-- Of a failure all payloads are left, the output and the explanation. -/
theorem run_conclude_some (hready : s.Ready home storage number) (output explanation : String) :
    (s.conclude x (Path.join s.directory (instanceName number)) output (some explanation)).run
        (s.seen home storage number x, progress) =
      (.ok (),
        storage.withFolder (home ++ [instanceName number])
          (payloadFiles x (Payloads.kinds s.checker.problem.Instance)
            ++ [("solver_output.txt", kept output), ("explanation.txt", kept explanation)]),
        { progress with tally := progress.tally.withError }) := by
  rw [conclude, Attempt.run_bind_of_ok (run_count _ _ progress)]
  refine Attempt.run_onFirst_of_ok ?_ _
  rw [Attempt.run_bind_of_ok (run_storeAllPayloads_seen hready),
    Attempt.run_bind_of_ok (run_keep hready (by decide) (by decide) _ output),
    run_keep hready (by decide) (by decide), List.append_assoc]
  rfl

/-! ### What a visit does -/

/-- **A visit is its trial.** It does not fail, counts the trial and leaves what the trial leaves,
whatever the solver makes of the instance. -/
theorem run_visit (hready : s.Ready home storage progress.next.index) :
    (s.visit x).run (storage, progress) =
      (.ok (), (s.trial home storage progress.next.index x).leave home storage,
        (s.trial home storage progress.next.index x).advance progress) := by
  by_cases hignores : s.checker.ignores x = true
  · have hanswer : (s.trial home storage progress.next.index x).answer? = none := by
      rw [trial, if_pos hignores]
    rw [run_visit_of_ignores hignores, Trial.leave, Trial.advance, Trial.count, hanswer,
      Trial.fails_of_answer?_eq_none hanswer]
    rfl
  · rw [Bool.not_eq_true] at hignores
    rw [run_visit_eq_conclude hready hignores, Trial.leave, Trial.advance, Trial.count,
      answer?_trial hignores]
    cases hexplanation : explanation? (s.outcome home storage progress.next.index x) with
    | none =>
        have hfails : (s.trial home storage progress.next.index x).fails = false := by
          rw [← Bool.not_eq_true, fails_trial hignores, not_not]
          exact explanation?_eq_none.mp hexplanation
        rw [run_conclude_none hready, hfails]
        rfl
    | some explanation =>
        have hfails : (s.trial home storage progress.next.index x).fails = true := by
          rw [fails_trial hignores]
          intro hsuccess
          rw [explanation?_eq_none.mpr hsuccess] at hexplanation
          cases hexplanation
        have hkept : (s.trial home storage progress.next.index x).explanation = explanation := by
          rw [Trial.explanation, outcome?_trial hignores, Option.bind_some, hexplanation]
          rfl
        rw [run_conclude_some hready, hfails, ← hkept]
        rfl

end Session

end SolverAudit
