import SolverAudit.Proofs.Problem.Generation
import SolverAudit.Proofs.Session.Trial

/-!
# Whole sessions

A session has one trial at each node of the tree, in the order of the walk, and nothing that a
solver does stops it. Its counters add up to the number of nodes, and what it leaves in its output
directory are the folders of the trials that failed.
-/

namespace SolverAudit.Session

open Storage

variable {s : Session} {home : Place}

/-- What trials leave of a storage, one after the other. -/
def leaveAll (home : Place) (trials : List s.Trial) (storage : Storage) : Storage :=
  trials.foldl (fun storage t => t.leave home storage) storage

def countAll (trials : List s.Trial) (tally : Tally) : Tally :=
  trials.foldl (fun tally t => t.count tally) tally

/-- What is kept at a place below the output directory of a trial that fails. -/
inductive Trial.Keeps (home : Place) (t : s.Trial) : Place → Entry → Prop where
  | folder : Keeps home t (t.place home) .directory
  | file {file : String × String} (hfile : file ∈ t.files) :
      Keeps home t (t.place home ++ [file.1]) (.file file.2)

/-! ### Trials and their nodes -/

theorem map_node_trials (s : Session) (home : Place) (storage : Storage) (number : Nat)
    (nodes : List s.checker.problem.Instance) :
    (s.trials home storage number nodes).map Trial.node = nodes := by
  induction nodes generalizing storage number with
  | nil => rfl
  | cons x rest ih => exact congrArg (x :: ·) (ih _ _)

theorem map_number_trials (s : Session) (home : Place) (storage : Storage) (number : Nat)
    (nodes : List s.checker.problem.Instance) :
    (s.trials home storage number nodes).map Trial.number = List.range' number nodes.length := by
  induction nodes generalizing storage number with
  | nil => rfl
  | cons x rest ih => exact congrArg (number :: ·) (ih _ _)

theorem answer?_eq_none_of_mem_trials {storage : Storage} {number : Nat}
    {nodes : List s.checker.problem.Instance} {t : s.Trial}
    (ht : t ∈ s.trials home storage number nodes) :
    t.answer? = none ↔ s.checker.ignores t.node = true := by
  induction nodes generalizing storage number with
  | nil => cases ht
  | cons x rest ih =>
      rcases List.mem_cons.mp ht with rfl | ht
      · by_cases hignores : s.checker.ignores x = true <;> simp [trial, hignores]
      · exact ih ht

/-! ### Counters -/

theorem countAll_eq (trials : List s.Trial) (tally : Tally) :
    countAll trials tally =
      { checks := tally.checks + trials.countP (·.answer?.isSome)
        errors := tally.errors + trials.countP Trial.fails
        ignored := tally.ignored + trials.countP (·.answer?.isNone) } := by
  induction trials generalizing tally with
  | nil => rfl
  | cons t rest ih =>
      change countAll rest (t.count tally) = _
      rw [ih, Trial.count, List.countP_cons, List.countP_cons, List.countP_cons]
      cases hanswer : t.answer? with
      | none =>
          simp [Tally.withIgnored, Trial.fails_of_answer?_eq_none hanswer]
          omega
      | some answer =>
          by_cases hfails : t.fails = true <;> simp [Tally.withCheck, Tally.withError, hfails] <;>
            omega

theorem countP_isNone_trials (s : Session) (home : Place) (storage : Storage) (number : Nat)
    (nodes : List s.checker.problem.Instance) :
    (s.trials home storage number nodes).countP (·.answer?.isNone) =
      nodes.countP s.checker.ignores := by
  have hsame : ∀ t ∈ s.trials home storage number nodes,
      (t.answer?.isNone = true ↔ s.checker.ignores t.node = true) := fun t ht => by
    rw [Option.isNone_iff_eq_none, answer?_eq_none_of_mem_trials ht]
  calc
    (s.trials home storage number nodes).countP (·.answer?.isNone) =
        (s.trials home storage number nodes).countP (s.checker.ignores ∘ Trial.node) :=
      List.countP_congr hsame
    _ = ((s.trials home storage number nodes).map Trial.node).countP s.checker.ignores :=
      List.countP_map.symm
    _ = nodes.countP s.checker.ignores := by rw [map_node_trials]

theorem countP_isSome_add_countP_isNone (trials : List s.Trial) :
    trials.countP (·.answer?.isSome) + trials.countP (·.answer?.isNone) = trials.length := by
  rw [List.length_eq_countP_add_countP (·.answer?.isSome)]
  congr 1
  refine List.countP_congr fun t _ => ?_
  cases t.answer? <;> simp

/-! ### Numbers and places -/

theorem ne_home_of_below {name : String} {place : Place} (h : home ++ [name] <+: place) :
    place ≠ home := by
  rintro rfl
  have hlength := h.length_le
  rw [List.length_append, List.length_singleton] at hlength
  omega

/-- Places in folders of different instances are different. -/
theorem eq_of_instanceName_below {number number' : Nat} {place : Place}
    (h : home ++ [instanceName number] <+: place) (h' : home ++ [instanceName number'] <+: place) :
    number = number' := by
  have hfolders : home ++ [instanceName number] <+: home ++ [instanceName number'] :=
    List.prefix_of_prefix_length_le h h' (by simp)
  have hsame := hfolders.eq_of_length (by simp)
  exact instanceName_injective (by simpa using hsame)

theorem Trial.Keeps.below {t : s.Trial} {place : Place} {entry : Entry}
    (h : t.Keeps home place entry) : t.place home <+: place := by
  cases h with
  | folder => exact List.prefix_refl _
  | file hfile => exact List.prefix_append _ _

/-- A session with its output directory at home has got to a number: nothing is yet where the
folders of the instances from that number on go. -/
structure Awaits (s : Session) (home : Place) (storage : Storage) (number : Nat) : Prop where
  leads : storage.LeadsTo s.directory home
  free : ∀ later, number ≤ later → storage.Free (home ++ [instanceName later])

/-- The longest numbers that leave enough room in paths. -/
def longestNumber : Nat := 24

/-- The number of bytes that the paths below the output directory may add to its own. -/
def margin : Nat := 64

variable {storage : Storage} {number : Nat}

theorem Awaits.ready (h : s.Awaits home storage number)
    (hroom : s.directory.utf8ByteSize + margin ≤ longestPath)
    (hnumber : number < 10 ^ longestNumber) : s.Ready home storage number where
  isFileName := isFileName_instanceName (by decide) (by decide) hnumber
  room := by
    have hname := utf8ByteSize_instanceName_le (by decide) hnumber
    have hjoin := Path.utf8ByteSize_join_le s.directory (instanceName number)
    simp only [margin, longestNumber] at hname hroom
    rw [longestFileName]
    omega
  leads := h.leads
  free := h.free number (Nat.le_refl _)

theorem Awaits.leave (h : s.Awaits home storage number) {t : s.Trial} (ht : t.number = number) :
    s.Awaits home (t.leave home storage) (number + 1) := by
  have hplace : t.place home = home ++ [instanceName number] := by rw [Trial.place, ht]
  have hfree := h.free number (Nat.le_refl _)
  rw [Trial.leave, hplace]
  split
  · refine ⟨h.leads.withFolder hfree, fun later hlater other hother => ?_⟩
    have hnot : ¬ home ++ [instanceName number] <+: other := fun hbelow => by
      have hsame := eq_of_instanceName_below hbelow hother
      omega
    rw [entry?_withFolder_of_not_below hnot]
    exact h.free later (Nat.le_of_succ_le hlater) other hother
  · exact ⟨h.leads, fun later hlater => h.free later (Nat.le_of_succ_le hlater)⟩

/-! ### The walk of a session -/

theorem run_visits {progress : Progress} {nodes : List s.checker.problem.Instance}
    (hawaits : s.Awaits home storage progress.next.index)
    (hroom : s.directory.utf8ByteSize + margin ≤ longestPath)
    (hlimit : progress.next.index + nodes.length ≤ 10 ^ longestNumber) :
    (nodes.forM s.visit).run (storage, progress) =
      (.ok (), leaveAll home (s.trials home storage progress.next.index nodes) storage,
        ⟨progress.index + nodes.length,
          countAll (s.trials home storage progress.next.index nodes) progress.tally⟩) := by
  induction nodes generalizing storage progress with
  | nil => rfl
  | cons x rest ih =>
      rw [List.length_cons] at hlimit
      have hvisit := run_visit (x := x) (hawaits.ready hroom (by omega))
      have hnext : ((s.trial home storage progress.next.index x).advance progress).next.index =
          progress.next.index + 1 := rfl
      have hrest := ih (hnext ▸ hawaits.leave (t := s.trial home storage progress.next.index x) rfl)
        (by omega)
      rw [hnext] at hrest
      rw [Attempt.run_forM_cons, hvisit, List.length_cons, ← Nat.succ_add_eq_add_succ]
      exact hrest

/-! ### What is left -/

theorem Trial.names_files_nodup (t : s.Trial) : (t.files.map Prod.fst).Nodup := by
  have hnames : ∀ problem : Problem,
      (((Payloads.kinds problem.Instance).map fun kind => s!"instance.{kind}")
        ++ ["solver_output.txt", "explanation.txt"]).Nodup := by
    intro problem
    cases problem <;> decide
  rw [Trial.files, List.map_append, names_payloadFiles]
  exact hnames s.checker.problem

/-- A trial that fails adds its folder to what is there, and no other trial adds anything. -/
theorem Trial.entry?_leave {t : s.Trial} (hfree : storage.Free (t.place home)) (place : Place)
    (entry : Entry) :
    entry? (t.leave home storage) place = some entry ↔
      storage.entry? place = some entry ∨ t.fails = true ∧ t.Keeps home place entry := by
  rw [Trial.leave]
  by_cases hfails : t.fails = true
  · rw [if_pos hfails]
    by_cases hbelow : t.place home <+: place
    · rw [entry?_withFolder hfree t.names_files_nodup hbelow, hfree place hbelow]
      constructor
      · rintro (⟨rfl, rfl⟩ | ⟨file, hfile, rfl, rfl⟩)
        · exact .inr ⟨hfails, .folder⟩
        · exact .inr ⟨hfails, .file hfile⟩
      · rintro (hnone | ⟨-, hkeeps⟩)
        · cases hnone
        · cases hkeeps with
          | folder => exact .inl ⟨rfl, rfl⟩
          | file hfile => exact .inr ⟨_, hfile, rfl, rfl⟩
    · have hnone : ¬ t.Keeps home place entry := fun hkeeps => hbelow hkeeps.below
      rw [entry?_withFolder_of_not_below hbelow]
      simp [hnone]
  · rw [if_neg hfails]
    simp [hfails]

theorem entry?_leaveAll {nodes : List s.checker.problem.Instance}
    (hawaits : s.Awaits home storage number) (place : Place) (entry : Entry) :
    entry? (leaveAll home (s.trials home storage number nodes) storage) place = some entry ↔
      storage.entry? place = some entry
        ∨ ∃ t ∈ s.trials home storage number nodes, t.fails = true ∧ t.Keeps home place entry := by
  induction nodes generalizing storage number with
  | nil => simp [trials, leaveAll]
  | cons x rest ih =>
      have hfirst := Trial.entry?_leave (t := s.trial home storage number x)
        (hawaits.free number (Nat.le_refl _)) place entry
      have hrest := ih (hawaits.leave (t := s.trial home storage number x) rfl)
      rw [trials, List.exists_mem_cons_iff, ← or_assoc, ← hfirst]
      exact hrest

/-! ### Main statement -/

/-- Nothing gets in the way of a session: its output directory can be created, it is empty then, and
there is room for the paths below it. -/
structure Prepared (s : Session) (before ready : Storage) (home : Place) : Prop where
  created : (createOutput s.directory).run before = (.ok (), ready)
  leads : ready.LeadsTo s.directory home
  empty : ∀ place, home <+: place → place ≠ home → ready.entry? place = none
  room : s.directory.utf8ByteSize + margin ≤ longestPath

variable {before ready : Storage}

theorem Prepared.awaits (h : s.Prepared before ready home) (number : Nat) :
    s.Awaits home ready number where
  leads := h.leads
  free _ _ other hother :=
    h.empty other ((List.prefix_append _ _).trans hother) (ne_home_of_below hother)

/-- Any session with room for its paths is prepared where its output directory is to be created in
the current one of a fresh storage. -/
theorem prepared_fresh (here : Place) (hname : IsFileName s.directory)
    (hroom : s.directory.utf8ByteSize + margin ≤ longestPath) :
    s.Prepared (fresh here) ((fresh here).put (here ++ [s.directory]) .directory)
      (here ++ [s.directory]) := by
  have hjoin : Path.join "" s.directory = s.directory := by simp [Path.join]
  have hfree := free_fresh here s.directory
  have hleads := leadsTo_here (fresh here)
  have hsize : (Path.join "" s.directory).utf8ByteSize ≤ longestPath := by
    rw [hjoin]
    omega
  have hcreate := run_createDirectory_join_of_absent hleads hname hsize hfree.entry?_eq_none
  have hthere : entry? ((fresh here).put (here ++ [s.directory]) .directory)
      (here ++ [s.directory]) = some .directory := entry?_put_self _ (by simp) _
  have hinto := (hleads.put (by rw [hfree.entry?_eq_none]; simp) .directory).join hname hthere
  rw [hjoin] at hcreate hinto
  refine ⟨Attempt.run_during_of_ok hcreate _, hinto, fun place hbelow hne => ?_, hroom⟩
  rw [entry?_put_of_ne _ hne, hfree place hbelow]

theorem run_eq_of_walk {σ : Type} [Source σ] {source : σ} {finish : Context σ}
    {progress : Progress} {after : Storage}
    (hcreated : (createOutput s.directory).run before = (.ok (), ready))
    (hwalk : (s.checker.problem.generator.walk s.visit s.depth).run
      (Context.fresh source, ready, {}) = (.ok (), finish, after, progress)) :
    (s.run source).run before = (.ok progress.tally, after) := by
  have hresult : ∀ result : Except Failure Unit × Context σ × Storage × Progress,
      result = (.ok (), finish, after, progress) →
      (result.1.map fun _ => result.2.2.2.tally, result.2.2.1) = (.ok progress.tally, after) := by
    rintro _ rfl
    rfl
  rw [run, Attempt.run_bind_of_ok hcreated]
  exact hresult _ hwalk

/-- What a session comes to, after its trials at the nodes of the tree. -/
structure Accounts (s : Session) (home : Place) (ready : Storage)
    (nodes : List s.checker.problem.Instance) (tally : Tally) (after : Storage) : Prop where
  /-- The trials are made at the nodes, in their order. -/
  atNodes : (s.trials home ready 1 nodes).map Trial.node = nodes
  /-- They are numbered from one on, the ignored ones as well. -/
  numbered : (s.trials home ready 1 nodes).map Trial.number = List.range' 1 nodes.length
  /-- The solver is called on all instances but the ignored ones. -/
  ignores : ∀ t ∈ s.trials home ready 1 nodes,
    t.answer? = none ↔ s.checker.ignores t.node = true
  total : tally.checks + tally.ignored = nodes.length
  ignored : tally.ignored = nodes.countP s.checker.ignores
  errors : tally.errors = (s.trials home ready 1 nodes).countP Trial.fails
  /-- No payload of a node is missing. -/
  payloads : ∀ t ∈ s.trials home ready 1 nodes,
    ∀ kind ∈ Payloads.kinds s.checker.problem.Instance,
      payload t.node kind = .ok (payloadText t.node kind)
  /-- In the output directory, there is what is kept of the failing trials and nothing else. -/
  kept : ∀ place entry, home <+: place → place ≠ home →
    (after.entry? place = some entry ↔
      ∃ t ∈ s.trials home ready 1 nodes, t.fails = true ∧ t.Keeps home place entry)
  /-- Elsewhere, nothing changes. -/
  elsewhere : ∀ place, ¬ (home <+: place ∧ place ≠ home) → after.entry? place = ready.entry? place

theorem Prepared.accounts (h : s.Prepared before ready home)
    (nodes : List s.checker.problem.Instance) :
    s.Accounts home ready nodes (countAll (s.trials home ready 1 nodes) {})
      (leaveAll home (s.trials home ready 1 nodes) ready) where
  atNodes := map_node_trials ..
  numbered := map_number_trials ..
  ignores _ ht := answer?_eq_none_of_mem_trials ht
  total := by
    have hlength := congrArg List.length (map_node_trials s home ready 1 nodes)
    rw [List.length_map, ← countP_isSome_add_countP_isNone] at hlength
    rw [countAll_eq]
    dsimp only
    omega
  ignored := by
    rw [countAll_eq, ← countP_isNone_trials s home ready 1 nodes]
    exact Nat.zero_add _
  errors := by
    rw [countAll_eq]
    exact Nat.zero_add _
  payloads t _ kind hkind := (s.checker.problem.storable kind hkind).payload_eq_ok t.node
  kept place entry hbelow hne := by
    rw [entry?_leaveAll (h.awaits 1), h.empty place hbelow hne]
    simp
  elsewhere place hplace := by
    refine Option.ext fun entry => ?_
    rw [entry?_leaveAll (h.awaits 1)]
    constructor
    · rintro (hentry | ⟨t, -, -, hkeeps⟩)
      · exact hentry
      · have hbelow : home <+: place := (List.prefix_append _ _).trans hkeeps.below
        exact absurd ⟨hbelow, ne_home_of_below hkeeps.below⟩ hplace
    · exact .inl

/-- A session with a solver that is missing. -/
def unanswered : Session where
  checker := .framework .credulous
  solver := { name := "solver", program := fun _ _ => .error .notFound }
  dialect := .iccma19
  depth := 2
  directory := "out"

end SolverAudit.Session
