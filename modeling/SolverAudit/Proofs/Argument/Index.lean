import SolverAudit.Argument.Index
import SolverAudit.Proofs.Argument.Label
import SolverAudit.Proofs.Ordered.Map
import SolverAudit.Proofs.Ordered.Occurrence

/-!
# Numbers in the order of first requests

The two tables of a registry are changed one after the other, by requests and resets in any order.
On the tables of a registry every request gives the reply of the registry and leaves the tables of
the registry after it, so the tables undo each other and no number is looked up that is not there.
What the registry knows are the labels asked for since the last reset, numbered in the order in
which they were first asked for, and the arguments that it has handed out since then are those.
-/

namespace SolverAudit.Registry

variable {r : Registry} {label : String} {history : List Request}

/-! ### The tables of a registry -/

theorem get?_ofList_zipIdx {labels : List String} (hdistinct : labels.Nodup) (label : String) :
    (OrderedMap.ofList labels.zipIdx).get? label =
      if label ∈ labels then some (labels.idxOf label) else none := by
  induction labels using List.reverseRecOn with
  | nil => rfl
  | append_singleton labels last ih =>
      obtain ⟨hlabels, -, hlast⟩ := List.nodup_append'.mp hdistinct
      have hnew : last ∉ labels := fun hmem => hlast hmem (List.mem_singleton_self last)
      rw [List.zipIdx_append, List.zipIdx_singleton, OrderedMap.ofList_concat,
        OrderedMap.get?_insert, ih hlabels]
      by_cases hsame : label = last
      · subst hsame
        simp [List.idxOf_append, hnew]
      · by_cases hmem : label ∈ labels
        · simp [List.idxOf_append, hsame, hmem]
        · simp [hsame, hmem]

theorem numbers_indexed (r : Registry) (label : String) :
    r.indexed.numbers.get? label =
      if label ∈ r.labels then some (r.labels.idxOf label) else none :=
  get?_ofList_zipIdx r.distinct label

theorem id_eq_of_mem {a : Argument} (ha : a ∈ r.arguments) : a.id = r.labels.idxOf a.label := by
  obtain ⟨hid, hlabel⟩ := List.getElem?_eq_some_iff.mp (mem_arguments.mp ha)
  rw [← hlabel]
  exact (r.distinct.idxOf_getElem a.id hid).symm

theorem get_of_mem (hlabel : label ∈ r.labels) :
    r.get label = .ok ⟨r.labels.idxOf label, label⟩ := by
  have hplace : r.labels.idxOf? label = some (r.labels.idxOf label) :=
    List.findIdx?_eq_some_iff_findIdx_eq.mpr ⟨List.idxOf_lt_length_iff.mpr hlabel, rfl⟩
  rw [get, get?, hplace]
  rfl

theorem get_of_mem_arguments {a : Argument} (ha : a ∈ r.arguments) : r.get a.label = .ok a := by
  have hid := id_eq_of_mem ha
  rw [get_of_mem (List.mem_of_getElem? (mem_arguments.mp ha)), ← hid]

theorem get_of_not_mem (hlabel : label ∉ r.labels) : r.get label = .error ⟨label⟩ := by
  rw [get, get?, List.idxOf?_eq_none_iff.mpr hlabel]
  rfl

theorem arguments_eq_some_iff {number : Nat} {a : Argument} :
    r.arguments[number]? = some a ↔ a.id = number ∧ r.labels[number]? = some a.label := by
  obtain ⟨id, label⟩ := a
  simp only [arguments, List.getElem?_map, List.getElem?_zipIdx, Nat.zero_add]
  cases r.labels[number]? with
  | none => simp
  | some known => simp [eq_comm (a := number)]

/-- The number of a label leads to its argument. -/
theorem arguments_indexed_of_mem (hlabel : label ∈ r.labels) :
    r.indexed.arguments[r.labels.idxOf label]? = some ⟨r.labels.idxOf label, label⟩ :=
  arguments_eq_some_iff.mpr ⟨rfl, List.getElem?_idxOf hlabel⟩

/-! ### Requests to the tables -/

theorem intern?_indexed (r : Registry) (label : String) :
    r.indexed.intern? label = some ((r.intern label).1, (r.intern label).2.indexed) := by
  by_cases hlabel : label ∈ r.labels
  · have hintern : r.intern label = (⟨r.labels.idxOf label, label⟩, r) := by
      rw [intern, dif_pos hlabel]
    rw [Indexed.intern?, numbers_indexed, if_pos hlabel, hintern]
    dsimp only
    rw [arguments_indexed_of_mem hlabel]
    rfl
  · have hnumber : (r.intern label).1 = ⟨r.arguments.length, label⟩ := by
      rw [intern, dif_neg hlabel]
      simp [arguments, size]
    have hlabels : (r.intern label).2.labels = r.labels ++ [label] := by
      rw [intern, dif_neg hlabel]
    have hnumbers : (r.intern label).2.indexed.numbers =
        r.indexed.numbers.insert label r.arguments.length := by
      rw [indexed, hlabels, List.zipIdx_append, List.zipIdx_singleton, OrderedMap.ofList_concat]
      simp [indexed, arguments]
    have harguments : (r.intern label).2.indexed.arguments =
        r.indexed.arguments ++ [⟨r.arguments.length, label⟩] := by
      rw [← hnumber]
      exact arguments_intern hlabel
    rw [Indexed.intern?, numbers_indexed, if_neg hlabel]
    refine congrArg some (Prod.ext hnumber.symm ?_)
    exact (Indexed.mk.injEq ..).mpr ⟨harguments.symm, hnumbers.symm⟩

theorem get?_indexed (r : Registry) (label : String) :
    r.indexed.get? label = some (r.get label) := by
  by_cases hlabel : label ∈ r.labels
  · rw [Indexed.get?, numbers_indexed, if_pos hlabel, get_of_mem hlabel]
    dsimp only
    rw [arguments_indexed_of_mem hlabel]
    rfl
  · rw [Indexed.get?, numbers_indexed, if_neg hlabel, get_of_not_mem hlabel]

theorem answer?_indexed (r : Registry) (request : Request) :
    r.indexed.answer? request = some ((r.answer request).1, (r.answer request).2.indexed) := by
  cases request with
  | intern label =>
      rw [Indexed.answer?, intern?_indexed]
      rfl
  | get label =>
      rw [Indexed.answer?, get?_indexed, answer]
      cases r.get label <;> rfl
  | reset => rfl

/-- The tables after requests are those of the registry after the same requests. -/
theorem afterRequests?_eq (history : List Request) :
    Indexed.afterRequests? history = some (afterRequests history).indexed := by
  have hrun : ∀ r : Registry, history.foldlM
      (fun t request => ((t : Indexed).answer? request).map Prod.snd) r.indexed =
        some (history.foldl (fun r request => (r.answer request).2) r).indexed := by
    intro r
    induction history generalizing r with
    | nil => rfl
    | cons request history ih =>
        rw [List.foldlM_cons, answer?_indexed]
        exact ih (r.answer request).2
  exact hrun ∅

/-! ### The labels since the last reset -/

/-- The labels that were to be interned since the last reset, in the order of the requests. -/
def asked : List Request → List String :=
  List.foldl (fun labels request =>
    match request with
    | .intern label => labels ++ [label]
    | .get _ => labels
    | .reset => []) []

theorem afterRequests_concat (history : List Request) (request : Request) :
    afterRequests (history ++ [request]) = ((afterRequests history).answer request).2 := by
  rw [afterRequests, List.foldl_append]
  rfl

theorem asked_intern (history : List Request) (label : String) :
    asked (history ++ [.intern label]) = asked history ++ [label] := by
  rw [asked, List.foldl_append]
  rfl

theorem asked_get (history : List Request) (label : String) :
    asked (history ++ [.get label]) = asked history := by
  rw [asked, List.foldl_append]
  rfl

theorem asked_reset (history : List Request) : asked (history ++ [.reset]) = [] := by
  rw [asked, List.foldl_append]
  rfl

theorem answer_get (r : Registry) (label : String) : (r.answer (.get label)).2 = r := by
  rw [answer]
  cases r.get label <;> rfl

/-- The registry knows the labels in the order in which they were first asked for. -/
theorem labels_afterRequests (history : List Request) :
    (afterRequests history).labels = (asked history).eraseDups := by
  induction history using List.reverseRecOn with
  | nil => rfl
  | append_singleton history request ih =>
      rw [afterRequests_concat]
      cases request with
      | intern label =>
          have hmem : label ∈ (afterRequests history).labels ↔ label ∈ asked history := by
            rw [ih, List.mem_eraseDups]
          rw [asked_intern, eraseDups_concat, answer, ← ih]
          by_cases hlabel : label ∈ asked history
          · rw [intern, dif_pos (hmem.mpr hlabel), if_pos hlabel]
          · rw [intern, dif_neg (fun h => hlabel (hmem.mp h)), if_neg hlabel]
      | get label => rw [asked_get, answer_get, ih]
      | reset =>
          rw [asked_reset]
          rfl

/-! ### Tables in step -/

/-- The tables number the labels in the order in which they were first asked for, and undo each
other. A label that was asked for leads to its argument and changes nothing when it is interned
again; any other one is unknown. -/
structure Indexed.Numbers (t : Indexed) (labels : List String) : Prop where
  labels_eq : t.arguments.map Argument.label = labels.eraseDups
  ids_eq : t.arguments.map Argument.id = List.range t.arguments.length
  distinct : (t.arguments.map Argument.label).Nodup
  inverse : ∀ label number, t.numbers.get? label = some number ↔
    ∃ a, t.arguments[number]? = some a ∧ a.label = label
  interned : ∀ label ∈ labels, ∃ a, a.label = label ∧ t.get? label = some (.ok a)
    ∧ t.intern? label = some (a, t)
  unknown : ∀ label, label ∉ labels → t.get? label = some (.error ⟨label⟩)

theorem numbers_indexed_eq_some_iff {number : Nat} :
    r.indexed.numbers.get? label = some number ↔
      ∃ a, r.indexed.arguments[number]? = some a ∧ a.label = label := by
  rw [numbers_indexed]
  constructor
  · intro hnumber
    split at hnumber
    · rename_i hlabel
      cases hnumber
      exact ⟨_, arguments_indexed_of_mem hlabel, rfl⟩
    · cases hnumber
  · rintro ⟨a, ha, rfl⟩
    obtain ⟨rfl, hlabel⟩ := arguments_eq_some_iff.mp ha
    rw [if_pos (List.mem_of_getElem? hlabel), ← id_eq_of_mem (List.mem_of_getElem? ha)]

theorem numbers_afterRequests (history : List Request) :
    (afterRequests history).indexed.Numbers (asked history) := by
  have hlabels := labels_afterRequests history
  have hknown : ∀ label, label ∈ (afterRequests history).labels ↔ label ∈ asked history := by
    intro label
    rw [hlabels, List.mem_eraseDups]
  generalize afterRequests history = r at hlabels hknown
  constructor
  case labels_eq => exact r.map_label_arguments.trans hlabels
  case ids_eq =>
    have hids : r.arguments.map Argument.id = r.labels.zipIdx.map Prod.snd := by
      simp [arguments, Function.comp_def]
    rw [indexed, hids, List.zipIdx_map_snd, List.range_eq_range']
    simp [arguments]
  case distinct => exact r.map_label_arguments ▸ r.distinct
  case inverse => exact fun _ _ => numbers_indexed_eq_some_iff
  case interned =>
    intro label hlabel
    have hmem := (hknown label).mpr hlabel
    have ha := List.mem_of_getElem? (arguments_indexed_of_mem hmem)
    refine ⟨⟨r.labels.idxOf label, label⟩, rfl, ?_, ?_⟩
    · rw [get?_indexed, get_of_mem hmem]
    · rw [intern?_indexed, intern_of_mem ha]
  case unknown =>
    intro label hlabel
    rw [get?_indexed, get_of_not_mem (mt (hknown label).mp hlabel)]

/-! ### Handed out arguments -/

/-- The argument was given as a reply, and no reset has followed. -/
def Handed (history : List Request) (a : Argument) : Prop :=
  ∃ before request after t t', history = before ++ request :: after ∧ .reset ∉ after
    ∧ Indexed.afterRequests? before = some t ∧ t.answer? request = some (.argument a, t')

variable {a b : Argument} {request : Request}

theorem mem_arguments_of_answer (h : (r.answer request).1 = .argument a) :
    a ∈ (r.answer request).2.arguments := by
  cases request with
  | intern label =>
      obtain rfl := Reply.argument.inj h
      exact mem_arguments_intern r label
  | get label =>
      rw [answer_get]
      by_cases hlabel : label ∈ r.labels
      · rw [answer, get_of_mem hlabel] at h
        obtain rfl := Reply.argument.inj h
        exact List.mem_of_getElem? (arguments_indexed_of_mem hlabel)
      · rw [answer, get_of_not_mem hlabel] at h
        cases h
  | reset => cases h

theorem arguments_subset_answer (r : Registry) (hrequest : request ≠ .reset) :
    r.arguments ⊆ (r.answer request).2.arguments := by
  cases request with
  | intern label => exact arguments_subset_intern r label
  | get label =>
      rw [answer_get]
      exact List.Subset.refl _
  | reset => exact absurd rfl hrequest

/-- The registry still knows what it has handed out since the last reset. -/
theorem Handed.mem (h : Handed history a) : a ∈ (afterRequests history).arguments := by
  obtain ⟨before, request, after, t, t', rfl, hreset, ht, hreply⟩ := h
  rw [afterRequests?_eq, Option.some.injEq] at ht
  subst ht
  rw [answer?_indexed] at hreply
  have hfirst := (Prod.mk.inj (Option.some.inj hreply)).1
  induction after using List.reverseRecOn with
  | nil =>
      rw [afterRequests_concat]
      exact mem_arguments_of_answer hfirst
  | append_singleton after last ih =>
      rw [List.mem_append, not_or, List.mem_singleton] at hreset
      rw [← List.cons_append, ← List.append_assoc, afterRequests_concat]
      exact arguments_subset_answer _ (Ne.symm hreset.2) (ih hreset.1)

theorem eq_iff_of_mem (ha : a ∈ r.arguments) (hb : b ∈ r.arguments) :
    a = b ↔ a.label = b.label := by
  refine ⟨congrArg Argument.label, fun hlabel => ?_⟩
  exact (Argument.mk.injEq ..).mpr ⟨by rw [id_eq_of_mem ha, id_eq_of_mem hb, hlabel], hlabel⟩

/-- Arguments that a registry knows are ordered by their numbers, as these are different. -/
theorem compare_eq_lt_iff_of_mem (ha : a ∈ r.arguments) (hb : b ∈ r.arguments) :
    compare a b = .lt ↔ r.labels.idxOf a.label < r.labels.idxOf b.label := by
  have hcompare : compare a b = (compare a.id b.id).then (compare a.label b.label) := rfl
  rw [hcompare, Ordering.then_eq_lt, Nat.compare_eq_lt, Nat.compare_eq_eq, id_eq_of_mem ha,
    id_eq_of_mem hb, or_iff_left]
  rintro ⟨hid, hlabel⟩
  have hmem : a.label ∈ r.labels := List.mem_of_getElem? (mem_arguments.mp ha)
  rw [(List.idxOf_inj hmem).mp hid] at hlabel
  simp at hlabel

theorem label_mem_asked (ha : a ∈ (afterRequests history).arguments) : a.label ∈ asked history := by
  have hmem := List.mem_of_getElem? (mem_arguments.mp ha)
  rwa [labels_afterRequests, List.mem_eraseDups] at hmem

/-- Nothing is left of what was before the last reset. -/
theorem afterRequests_congr {history' : List Request} (hsame : asked history' = asked history) :
    afterRequests history' = afterRequests history := by
  have hlabels : (afterRequests history').labels = (afterRequests history).labels := by
    rw [labels_afterRequests, labels_afterRequests, hsame]
  exact (Registry.mk.injEq ..).mpr hlabels

/-! ### Main statement -/

/-- **Numbers follow first requests.** After any requests the tables number the labels interned
since the last reset in the order in which they were first asked for, undo each other, and forget
all that was before the reset. Interning or looking up the label of an argument handed out since
then gives this argument again, and changes nothing. Two such arguments are the same exactly if
their labels are, and they are ordered as their labels were first asked for. -/
theorem numbers_follow_first_requests (history : List Request) :
    ∃ t, Indexed.afterRequests? history = some t
      ∧ t.Numbers (asked history)
      ∧ (∀ history', asked history' = asked history →
        Indexed.afterRequests? history' = some t)
      ∧ (∀ a, Handed history a → t.intern? a.label = some (a, t) ∧ t.get? a.label = some (.ok a))
      ∧ ∀ a b, Handed history a → Handed history b →
        (a = b ↔ a.label = b.label)
        ∧ (compare a b = .lt ↔
          (asked history).idxOf a.label < (asked history).idxOf b.label) := by
  refine ⟨_, afterRequests?_eq history, numbers_afterRequests history, fun history' hsame => ?_,
    fun a ha => ?_, fun a b ha hb => ⟨eq_iff_of_mem ha.mem hb.mem, ?_⟩⟩
  · rw [afterRequests?_eq, afterRequests_congr hsame]
  · rw [intern?_indexed, get?_indexed, intern_of_mem ha.mem, get_of_mem_arguments ha.mem]
    exact ⟨rfl, rfl⟩
  · rw [compare_eq_lt_iff_of_mem ha.mem hb.mem, labels_afterRequests]
    exact idxOf_eraseDups_lt_iff (label_mem_asked ha.mem) (label_mem_asked hb.mem)

theorem numbers_follow_first_requests_reset :
    let history : List Request := [.intern "a", .reset, .intern "b", .intern "a", .get "b"]
    let first : Argument := ⟨0, "b"⟩
    let second : Argument := ⟨1, "a"⟩
    Handed history first ∧ Handed history second ∧ asked history = asked [.intern "b", .intern "a"]
      ∧ ∃ t, Indexed.afterRequests? history = some t ∧ t.intern? "a" = some (second, t)
        ∧ t.get? "c" = some (.error ⟨"c"⟩) ∧ first ≠ second ∧ compare first second = .lt
        ∧ Indexed.afterRequests? [.intern "b", .intern "a"] = some t := by
  intro history first second
  have hfirst : Handed history first :=
    ⟨[.intern "a", .reset], .intern "b", [.intern "a", .get "b"], _, _, rfl, by decide, rfl, rfl⟩
  have hsecond : Handed history second :=
    ⟨[.intern "a", .reset, .intern "b"], .intern "a", [.get "b"], _, _, rfl, by decide, rfl, rfl⟩
  obtain ⟨t, ht, hnumbers, hforget, hagain, horder⟩ := numbers_follow_first_requests history
  obtain ⟨hsame, hlt⟩ := horder first second hfirst hsecond
  exact ⟨hfirst, hsecond, rfl, t, ht, (hagain second hsecond).1,
    hnumbers.unknown "c" (by decide), mt hsame.mp (by decide), hlt.mpr (by decide), hforget _ rfl⟩

end SolverAudit.Registry
