import Mathlib.Algebra.BigOperators.Group.Finset.Basic
import Mathlib.Algebra.BigOperators.Group.Finset.Piecewise
import SolverAudit.Argument.Tables
import SolverAudit.Proofs.Argument.Isolated
import SolverAudit.Proofs.Argument.Label

/-!
# Tables that tell one relation

The tables of a framework repeat each other, and nothing but the calls keeps them in step. A call on
the tables that tell a framework never asks for a missing place, gives the result that it gives on
the framework, and leaves the tables that tell the framework after the call. So after any calls,
refused or not, the tables tell one framework, and a refused call has left no trace: the set into
which an attack was put had it before.
-/

namespace SolverAudit.Framework

variable {af af' : Framework} {source target : Nat}

/-! ### Reading the tables of a framework -/

section

variable (af)

theorem hasAttack_tables (source target : Nat) :
    af.tables.hasAttack source target = af.hasAttack source target :=
  decide_eq_decide.mpr OrderedSet.mem_ofList

theorem getElem?_map_range (f : Nat → List Nat) (size place : Nat) :
    ((List.range size).map f)[place]? = if place < size then some (f place) else none := by
  by_cases hplace : place < size <;> simp [hplace]

theorem attackedBy?_tables (source : Nat) : af.tables.attackedBy? source = af.attackedBy? source :=
  getElem?_map_range _ _ _

theorem attackersOf?_tables (target : Nat) :
    af.tables.attackersOf? target = af.attackersOf? target :=
  getElem?_map_range _ _ _

theorem size_attackSet : af.attackSet.size = af.attacks.length :=
  OrderedSet.size_ofList af.attacks_distinct

end

/-- Both ends of an attack are there. -/
theorem exists_ends?_tables {a : Attack} (ha : a ∈ af.attackSet) :
    ∃ source target, af.argument? a.source = some source ∧ af.argument? a.target = some target
      ∧ af.tables.ends? a = some (source, target) := by
  obtain ⟨hsource, htarget⟩ := af.within a (OrderedSet.mem_ofList.mp ha)
  obtain ⟨source, hsource⟩ := argument?_eq_some hsource
  obtain ⟨target, htarget⟩ := argument?_eq_some htarget
  refine ⟨source, target, hsource, htarget, ?_⟩
  rw [argument?] at hsource htarget
  simp [Tables.ends?, tables, hsource, htarget]

/-- The arguments of a pair are at the ends of the attack. -/
def Tables.IsEnds (t : Tables) (a : Attack) (pair : Argument × Argument) : Prop :=
  t.arguments[a.source]? = some pair.1 ∧ t.arguments[a.target]? = some pair.2

/-- All attacks are listed by their ends. -/
theorem attackArguments?_tables (af : Framework) :
    af.tables.attackArguments? = some af.attackArguments
      ∧ List.Forall₂ af.tables.IsEnds af.attackSet.toList af.attackArguments := by
  let ends : Attack → Option (Argument × Argument) := fun a => do
    let source ← af.argument? a.source
    let target ← af.argument? a.target
    return (source, target)
  have hlist : ∀ attacks : List Attack, (∀ a ∈ attacks, a ∈ af.attackSet) →
      attacks.mapM af.tables.ends? = some (attacks.filterMap ends)
        ∧ List.Forall₂ af.tables.IsEnds attacks (attacks.filterMap ends) := by
    intro attacks hall
    induction attacks with
    | nil => exact ⟨rfl, .nil⟩
    | cons a attacks ih =>
        obtain ⟨ha, hall⟩ := List.forall_mem_cons.mp hall
        obtain ⟨source, target, hsource, htarget, htable⟩ := exists_ends?_tables ha
        obtain ⟨hrest, hends⟩ := ih hall
        have hpair : ends a = some (source, target) := by simp [ends, hsource, htarget]
        rw [List.filterMap_cons_some hpair]
        refine ⟨?_, .cons ⟨hsource, htarget⟩ hends⟩
        rw [List.mapM_cons, htable, hrest]
        rfl
  exact hlist _ fun _ ha => ha

/-! ### Changing the tables of a framework -/

namespace Tables

variable {α β : Type} {t : Tables}

@[simp]
theorem on_pure (x : α) : (pure x : Edit α).on t = some (.ok x, t) := rfl

@[simp]
theorem on_throw (refusal : Refusal) : (throw refusal : Edit α).on t = some (.error refusal, t) :=
  rfl

@[simp]
theorem on_get : (get : Edit Tables).on t = some (.ok t, t) := rfl

@[simp]
theorem on_set (t' : Tables) : (set t' : Edit Unit).on t = some (.ok (), t') := rfl

@[simp]
theorem on_modify (f : Tables → Tables) : (modify f : Edit Unit).on t = some (.ok (), f t) := rfl

@[simp]
theorem on_ask (read : Tables → Option α) :
    (Edit.ask read).on t = (read t).map fun x => (.ok x, t) := rfl

@[simp]
theorem on_bind (edit : Edit α) (next : α → Edit β) :
    (edit >>= next).on t = (edit.on t).bind fun
      | (.ok x, t') => (next x).on t'
      | (.error refusal, t') => some (.error refusal, t') := by
  change Option.bind (edit.on t) _ = _
  congr 1
  funext ⟨result, t'⟩
  cases result <;> rfl

@[simp]
theorem on_ite {c : Prop} [Decidable c] (edit edit' : Edit α) :
    (if c then edit else edit').on t = if c then edit.on t else edit'.on t :=
  apply_ite (fun edit : Edit α => edit.on t) c edit edit'

theorem on_insertAttack (a : Attack) :
    (Edit.insertAttack a).on t =
      some (.ok !(a ∈ t.attacks), { t with attacks := t.attacks.insert a }) := by
  simp only [Edit.insertAttack, on_bind, on_get, on_set, on_pure, Option.bind_some]

theorem on_labelAt {place : Nat} {a : Argument} (ha : t.arguments[place]? = some a) :
    (Edit.labelAt place).on t = some (.ok a.label, t) := by
  simp only [Edit.labelAt, on_bind, on_ask, ha, Option.map_some, Option.bind_some, on_pure]

theorem on_pushFrom {source target : Nat} {attacksFrom : List (List Nat)}
    (h : Edit.pushAt? t.attacksFrom source target = some attacksFrom) :
    (Edit.pushFrom source target).on t = some (.ok (), { t with attacksFrom }) := by
  simp only [Edit.pushFrom, on_bind, on_ask, h, Option.map_some, Option.bind_some, on_modify]

theorem on_pushTo {source target : Nat} {attacksTo : List (List Nat)}
    (h : Edit.pushAt? t.attacksTo target source = some attacksTo) :
    (Edit.pushTo source target).on t = some (.ok (), { t with attacksTo }) := by
  simp only [Edit.pushTo, on_bind, on_ask, h, Option.map_some, Option.bind_some, on_modify]

/-- A list is pushed to at one place and stays as it is at the others. -/
theorem pushAt?_map_range {f g : Nat → List Nat} {size place other : Nat} (hplace : place < size)
    (hpush : ∀ i, g i = if i = place then f i ++ [other] else f i) :
    Edit.pushAt? ((List.range size).map f) place other = some ((List.range size).map g) := by
  have hold : ((List.range size).map f)[place]? = some (f place) := by
    rw [getElem?_map_range, if_pos hplace]
  have hset : ((List.range size).map f).set place (f place ++ [other]) =
      (List.range size).map g := by
    refine List.ext_getElem (by simp) fun i hi hi' => ?_
    rw [List.getElem_set, List.getElem_map, List.getElem_map, List.getElem_range, hpush]
    by_cases hsame : i = place
    · rw [if_pos hsame.symm, if_pos hsame, hsame]
    · rw [if_neg (Ne.symm hsame), if_neg hsame]
  rw [Edit.pushAt?, hold]
  exact congrArg some hset

section

variable {source target : Nat}

theorem addAttack_on_of_outside (houtside : t.size ≤ source ∨ t.size ≤ target) :
    (addAttack source target).on t = some (.error (.outOfRange source target t.size), t) := by
  simp only [addAttack, on_bind, on_get, Option.bind_some, on_ite, if_pos houtside, on_throw]

/-- What is put into the set was there before, so the refusal finds the tables as they were. -/
theorem addAttack_on_of_mem {a b : Argument} (hsource : source < t.size) (htarget : target < t.size)
    (hmem : ⟨source, target⟩ ∈ t.attacks) (ha : t.arguments[source]? = some a)
    (hb : t.arguments[target]? = some b) :
    (addAttack source target).on t = some (.error (.attackPresent a.label b.label), t) := by
  have hinside : ¬ (t.size ≤ source ∨ t.size ≤ target) := by omega
  have hsame : t.attacks.insert ⟨source, target⟩ = t.attacks := by
    refine OrderedSet.ext fun attack => ?_
    rw [OrderedSet.mem_insert]
    exact or_iff_right_of_imp fun h => h ▸ hmem
  simp only [addAttack, on_bind, on_get, Option.bind_some, on_ite, if_neg hinside,
    on_insertAttack, hmem, decide_true, Bool.not_true, Bool.false_eq_true, if_false, hsame,
    on_labelAt ha, on_labelAt hb, on_throw]

theorem addAttack_on_of_not_mem {attacksFrom attacksTo : List (List Nat)}
    (hsource : source < t.size) (htarget : target < t.size) (hnew : ⟨source, target⟩ ∉ t.attacks)
    (hfrom : Edit.pushAt? t.attacksFrom source target = some attacksFrom)
    (hto : Edit.pushAt? t.attacksTo target source = some attacksTo) :
    (addAttack source target).on t =
      some (.ok (), ⟨t.arguments, t.attacks.insert ⟨source, target⟩, attacksFrom, attacksTo⟩) := by
  have hinside : ¬ (t.size ≤ source ∨ t.size ≤ target) := by omega
  simp only [addAttack, on_bind, on_get, Option.bind_some, on_ite, if_neg hinside,
    on_insertAttack, hnew, decide_false, Bool.not_false, if_true]
  rw [on_pushFrom (t := { t with attacks := t.attacks.insert ⟨source, target⟩ }) hfrom,
    Option.bind_some]
  exact on_pushTo hto

end

end Tables

/-! ### Calls on the tables of a framework -/

section

variable (hattacks : af'.attacks = af.attacks ++ [⟨source, target⟩])
include hattacks

theorem attackedBy_of_attack (i : Nat) :
    af'.attackedBy i = if i = source then af.attackedBy i ++ [target] else af.attackedBy i := by
  by_cases hsame : i = source
  · simp [attackedBy, hattacks, hsame]
  · simp [attackedBy, hattacks, hsame, Ne.symm hsame]

theorem attackersOf_of_attack (i : Nat) :
    af'.attackersOf i = if i = target then af.attackersOf i ++ [source] else af.attackersOf i := by
  by_cases hsame : i = target
  · simp [attackersOf, hattacks, hsame]
  · simp [attackersOf, hattacks, hsame, Ne.symm hsame]

theorem attackSet_of_attack : af'.attackSet = af.attackSet.insert ⟨source, target⟩ := by
  refine OrderedSet.ext fun a => ?_
  simp only [attackSet, OrderedSet.mem_insert, OrderedSet.mem_ofList, hattacks, List.mem_append,
    List.mem_singleton, or_comm]

end

theorem Isolates.tables_eq {a : Argument} (h : Isolates af a af') :
    af'.tables = ⟨af.arguments ++ [a], af.attackSet, af.tables.attacksFrom ++ [[]],
      af.tables.attacksTo ++ [[]]⟩ := by
  have hfrom : af'.attackedBy = af.attackedBy := by
    funext i
    rw [attackedBy, attackedBy, h.attacks_eq]
  have hto : af'.attackersOf = af.attackersOf := by
    funext i
    rw [attackersOf, attackersOf, h.attacks_eq]
  have hfrom_last : af.attackedBy af.size = [] := by
    apply List.eq_nil_iff_forall_not_mem.mpr
    intro i hi
    rw [mem_attackedBy, hasAttack_eq_false (.inl (Nat.le_refl _))] at hi
    cases hi
  have hto_last : af.attackersOf af.size = [] := by
    apply List.eq_nil_iff_forall_not_mem.mpr
    intro i hi
    rw [mem_attackersOf, hasAttack_eq_false (.inr (Nat.le_refl _))] at hi
    cases hi
  simp only [tables, h.size_eq, h.arguments_eq, attackSet, h.attacks_eq, hfrom, hto,
    List.range_succ, List.map_append, List.map_cons, List.map_nil, hfrom_last, hto_last]

theorem afterCall_of_ok {c : Call} (h : af.call c = .ok af') : af.afterCall c = af' := by
  rw [afterCall, h]

theorem afterCall_of_error {c : Call} {refusal : Refusal} (h : af.call c = .error refusal) :
    af.afterCall c = af := by
  rw [afterCall, h]

/-- The place of a new argument is the number of arguments before. -/
theorem addArgument_on_tables (af : Framework) (a : Argument) :
    (Tables.addArgument a).on af.tables =
      some ((af.addArgument a).map fun _ => af.size, (af.afterCall (.argument a)).tables) := by
  simp only [Tables.addArgument, Tables.on_bind, Tables.on_get, Option.bind_some, Tables.on_ite,
    Tables.on_throw, Tables.on_modify, Tables.on_pure]
  by_cases ha : a ∈ af.arguments
  · have hrefused : af.call (.argument a) = .error (.argumentPresent a.label) :=
      addArgument_of_mem ha
    have htables : a ∈ af.tables.arguments := ha
    rw [if_pos htables, afterCall_of_error hrefused, addArgument_of_mem ha]
    rfl
  · obtain ⟨af', hadd, -⟩ := addArgument_of_not_mem ha
    have htables : a ∉ af.tables.arguments := ha
    rw [if_neg htables, afterCall_of_ok (c := .argument a) hadd, hadd,
      (isolates_of_addArgument hadd).tables_eq]
    simp [Tables.size, tables, size, Except.map]

theorem addAttack_of_not_lt (hrange : ¬ (source < af.size ∧ target < af.size)) :
    af.addAttack source target = .error (.outOfRange source target af.size) := by
  rw [addAttack, dif_neg hrange]

/-- Any attack within the framework that is not there can be added. -/
theorem addAttack_of_not_hasAttack (hrange : source < af.size ∧ target < af.size)
    (hnew : ¬ af.hasAttack source target = true) :
    ∃ af', af.addAttack source target = .ok af' ∧ af'.arguments = af.arguments
      ∧ af'.attacks = af.attacks ++ [⟨source, target⟩] := by
  have hmissing : Missing true af source target :=
    ⟨hrange.1, hrange.2, .inl rfl, Bool.eq_false_of_not_eq_true hnew⟩
  exact hmissing.addAttack

/-- An attack that is there is named by its ends. -/
theorem addAttack_of_hasAttack (hattack : af.hasAttack source target = true) :
    ∃ a b, af.argument? source = some a ∧ af.argument? target = some b
      ∧ af.addAttack source target = .error (.attackPresent a.label b.label) := by
  obtain ⟨hsource, htarget⟩ := lt_size_of_hasAttack hattack
  have hmem : (⟨source, target⟩ : Attack) ∈ af.attacks := by simpa [hasAttack] using hattack
  refine ⟨_, _, List.getElem?_eq_getElem hsource, List.getElem?_eq_getElem htarget, ?_⟩
  rw [addAttack, dif_pos ⟨hsource, htarget⟩, dif_pos hmem]
  rfl

theorem addAttack_on_tables (af : Framework) (source target : Nat) :
    (Tables.addAttack source target).on af.tables =
      some ((af.addAttack source target).map fun _ => (),
        (af.afterCall (.attack source target)).tables) := by
  by_cases hrange : source < af.size ∧ target < af.size
  · obtain ⟨hsource, htarget⟩ := hrange
    by_cases hattack : af.hasAttack source target = true
    · obtain ⟨a, b, ha, hb, hrefused⟩ := addAttack_of_hasAttack hattack
      have hmem : ⟨source, target⟩ ∈ af.tables.attacks := by
        rw [← hasAttack_tables] at hattack
        simpa [Tables.hasAttack] using hattack
      rw [afterCall_of_error (c := .attack source target) hrefused, hrefused]
      exact Tables.addAttack_on_of_mem hsource htarget hmem ha hb
    · obtain ⟨af', hadd, harguments, hattacks⟩ :=
        addAttack_of_not_hasAttack ⟨hsource, htarget⟩ hattack
      have hsize : af'.size = af.size := congrArg List.length harguments
      have hnew : ⟨source, target⟩ ∉ af.tables.attacks := by
        rw [← hasAttack_tables] at hattack
        simpa [Tables.hasAttack] using hattack
      have htables : af'.tables = ⟨af.arguments, af.attackSet.insert ⟨source, target⟩,
          (List.range af.size).map af'.attackedBy, (List.range af.size).map af'.attackersOf⟩ := by
        rw [tables, harguments, attackSet_of_attack hattacks, hsize]
      rw [afterCall_of_ok (c := .attack source target) hadd, hadd, htables]
      exact Tables.addAttack_on_of_not_mem hsource htarget hnew
        (Tables.pushAt?_map_range hsource (attackedBy_of_attack hattacks))
        (Tables.pushAt?_map_range htarget (attackersOf_of_attack hattacks))
  · have houtside : af.tables.size ≤ source ∨ af.tables.size ≤ target := by
      change af.size ≤ source ∨ af.size ≤ target
      omega
    have hrefused := addAttack_of_not_lt hrange
    rw [afterCall_of_error (c := .attack source target) hrefused, hrefused]
    exact Tables.addAttack_on_of_outside houtside

theorem call_on_tables (af : Framework) (c : Call) :
    (Tables.call c).on af.tables = some ((af.call c).map fun _ => (), (af.afterCall c).tables) := by
  cases c with
  | argument a =>
      rw [Tables.call, Tables.on_bind, addArgument_on_tables, Option.bind_some, call]
      cases af.addArgument a <;> rfl
  | attack source target => exact addAttack_on_tables af source target

theorem tables_empty : tables ∅ = ∅ := by
  have hset : attackSet ∅ = ∅ := OrderedSet.ofList_nil
  rw [tables, hset]
  rfl

/-- The tables after calls are those of the framework after the same calls. -/
theorem afterCalls?_eq (calls : List Call) :
    Tables.afterCalls? calls = some (afterCalls calls).tables := by
  have hrun : ∀ af : Framework, calls.foldlM
      (fun t c => ((Tables.call c).on t).map Prod.snd) af.tables =
        some (calls.foldl afterCall af).tables := by
    intro af
    induction calls generalizing af with
    | nil => rfl
    | cons c calls ih =>
        rw [List.foldlM_cons, call_on_tables]
        exact ih (af.afterCall c)
  rw [Tables.afterCalls?, ← tables_empty]
  exact hrun ∅

/-! ### Refusals -/

/-- The calls to be refused: an argument that is there, and an attack that is there or leads outside
the framework. -/
def Tables.Refuses (t : Tables) : Call → Prop
  | .argument a => a ∈ t.arguments
  | .attack source target =>
    t.size ≤ source ∨ t.size ≤ target ∨ t.hasAttack source target = true

theorem call_eq_error_iff {c : Call} :
    (∃ refusal, af.call c = .error refusal) ↔ af.tables.Refuses c := by
  cases c with
  | argument a =>
      by_cases ha : a ∈ af.arguments
      · exact iff_of_true ⟨_, addArgument_of_mem ha⟩ ha
      · obtain ⟨af', hadd, -⟩ := addArgument_of_not_mem ha
        refine iff_of_false ?_ ha
        rintro ⟨refusal, hrefused⟩
        cases hadd.symm.trans hrefused
  | attack source target =>
      rw [Tables.Refuses, hasAttack_tables]
      change _ ↔ af.size ≤ source ∨ af.size ≤ target ∨ _
      by_cases hrange : source < af.size ∧ target < af.size
      · by_cases hattack : af.hasAttack source target = true
        · obtain ⟨a, b, -, -, hrefused⟩ := addAttack_of_hasAttack hattack
          exact iff_of_true ⟨_, hrefused⟩ (.inr (.inr hattack))
        · obtain ⟨af', hadd, -⟩ := addAttack_of_not_hasAttack hrange hattack
          refine iff_of_false ?_ ?_
          · rintro ⟨refusal, hrefused⟩
            cases hadd.symm.trans hrefused
          · rintro (hout | hout | hpresent)
            · omega
            · omega
            · exact hattack hpresent
      · exact iff_of_true ⟨_, addAttack_of_not_lt hrange⟩ (by omega)

/-- What a call comes to: it is refused exactly if it has to be, and tables that refuse it stay as
they are. -/
structure Tables.Answers (t : Tables) (c : Call) (result : Except Refusal Unit) (t' : Tables) :
    Prop where
  refused_iff : (∃ refusal, result = .error refusal) ↔ t.Refuses c
  unchanged : (∃ refusal, result = .error refusal) → t' = t

theorem answers_tables (af : Framework) (c : Call) :
    af.tables.Answers c ((af.call c).map fun _ => ()) (af.afterCall c).tables := by
  have herror : (∃ refusal, (af.call c).map (fun _ => ()) = .error refusal) ↔
      ∃ refusal, af.call c = .error refusal := by
    cases af.call c <;> simp [Except.map]
  refine ⟨herror.trans call_eq_error_iff, fun hresult => ?_⟩
  obtain ⟨refusal, hrefused⟩ := herror.mp hresult
  rw [afterCall_of_error hrefused]

/-! ### Tables in step -/

/-- The tables tell the same attacks: for each place, which it attacks and which attack it, without
repetitions. The set has as many attacks as either table has entries, and they are listed once each
by their ends, in the order of the places. -/
structure Tables.Consistent (t : Tables) : Prop where
  distinct : t.arguments.Nodup
  length_from : t.attacksFrom.length = t.size
  length_to : t.attacksTo.length = t.size
  within : ∀ i j, t.hasAttack i j = true → i < t.size ∧ j < t.size
  attackedBy : ∀ i < t.size, ∃ targets, t.attackedBy? i = some targets ∧ targets.Nodup
    ∧ ∀ j, j ∈ targets ↔ t.hasAttack i j = true
  attackersOf : ∀ j < t.size, ∃ sources, t.attackersOf? j = some sources ∧ sources.Nodup
    ∧ ∀ i, i ∈ sources ↔ t.hasAttack i j = true
  count_from : t.attacks.size = t.attacksFrom.flatten.length
  count_to : t.attacks.size = t.attacksTo.flatten.length
  sorted : t.attacks.toList.Pairwise fun a b =>
    a.source < b.source ∨ a.source = b.source ∧ a.target < b.target
  listed : ∃ pairs, t.attackArguments? = some pairs
    ∧ List.Forall₂ t.IsEnds t.attacks.toList pairs

theorem lt_or_eq_of_compare_attack {a b : Attack} (h : compare a b = .lt) :
    a.source < b.source ∨ a.source = b.source ∧ a.target < b.target := by
  have h : (compare a.source b.source).then (compare a.target b.target) = .lt := h
  rw [Ordering.then_eq_lt] at h
  exact h.imp Nat.compare_eq_lt.mp (And.imp Nat.compare_eq_eq.mp Nat.compare_eq_lt.mp)

section

variable {α : Type} (near far : α → Nat) {size : Nat} {xs : List α}
  (hwithin : ∀ a ∈ xs, near a < size)
include hwithin

/-- Each element is counted at the place that it is near to. -/
theorem sum_countP_near :
    ∑ i ∈ Finset.range size, xs.countP (fun a => near a == i) = xs.length := by
  induction xs with
  | nil => simp
  | cons a xs ih =>
      obtain ⟨ha, hwithin⟩ := List.forall_mem_cons.mp hwithin
      calc
        ∑ i ∈ Finset.range size, (a :: xs).countP (fun a => near a == i) =
            ∑ i ∈ Finset.range size,
              (xs.countP (fun a => near a == i) + if near a = i then 1 else 0) := by
          simp only [List.countP_cons, beq_iff_eq]
        _ = xs.length + 1 := by
          rw [Finset.sum_add_distrib, ih hwithin, Finset.sum_ite_eq,
            if_pos (Finset.mem_range.mpr ha)]

theorem length_flatten_near :
    ((List.range size).map fun i => (xs.filter fun a => near a == i).map far).flatten.length =
      xs.length := by
  have hsum : ((List.range size).map fun i => xs.countP fun a => near a == i).sum = xs.length :=
    sum_countP_near near hwithin
  rw [← hsum, List.length_flatten, List.map_map]
  congr 1
  refine List.map_congr_left fun i _ => ?_
  rw [Function.comp, List.length_map, List.countP_eq_length_filter]

end

theorem consistent_tables (af : Framework) : af.tables.Consistent where
  distinct := af.distinct
  length_from := by simp [tables, Tables.size, size]
  length_to := by simp [tables, Tables.size, size]
  within i j hattack := by
    rw [hasAttack_tables] at hattack
    exact lt_size_of_hasAttack hattack
  attackedBy i hi := by
    refine ⟨af.attackedBy i, ?_, af.nodup_attackedBy i, fun j => ?_⟩
    · rw [attackedBy?_tables]
      exact if_pos hi
    · rw [hasAttack_tables, mem_attackedBy]
  attackersOf j hj := by
    refine ⟨af.attackersOf j, ?_, af.nodup_attackersOf j, fun i => ?_⟩
    · rw [attackersOf?_tables]
      exact if_pos hj
    · rw [hasAttack_tables, mem_attackersOf]
  count_from := by
    rw [tables, size_attackSet]
    exact (length_flatten_near Attack.source Attack.target fun a ha => (af.within a ha).1).symm
  count_to := by
    rw [tables, size_attackSet]
    exact (length_flatten_near Attack.target Attack.source fun a ha => (af.within a ha).2).symm
  sorted := af.attackSet.increasing.imp lt_or_eq_of_compare_attack
  listed := ⟨_, attackArguments?_tables af⟩

/-! ### Main statement -/

/-- **The tables tell one relation.** After any calls, refused or not, the tables are those of the
framework after the same calls, so they are consistent and read as the framework does. Every further
call gets its result, which is a refusal exactly if the argument or attack is there or the attack
leads outside the framework, and a refused call leaves the tables as they are. -/
theorem tables_tell_one_relation (calls : List Call) :
    let af := afterCalls calls
    Tables.afterCalls? calls = some af.tables
      ∧ af.tables.Consistent
      ∧ (∀ i j, af.tables.hasAttack i j = af.hasAttack i j)
      ∧ (∀ i, af.tables.attackedBy? i = af.attackedBy? i)
      ∧ (∀ j, af.tables.attackersOf? j = af.attackersOf? j)
      ∧ af.tables.attackArguments? = some af.attackArguments
      ∧ ∀ c, ∃ result t', (Tables.call c).on af.tables = some (result, t')
        ∧ result = (af.call c).map (fun _ => ()) ∧ t' = (af.afterCall c).tables
        ∧ af.tables.Answers c result t' := by
  intro af
  exact ⟨afterCalls?_eq calls, consistent_tables af, hasAttack_tables af, attackedBy?_tables af,
    attackersOf?_tables af, (attackArguments?_tables af).1,
    fun c => ⟨_, _, call_on_tables af c, rfl, rfl, answers_tables af c⟩⟩

theorem tables_tell_one_relation_refused :
    let calls : List Call := [.argument ⟨0, "a0"⟩, .argument ⟨1, "a1"⟩, .attack 1 0,
      .argument ⟨0, "a0"⟩, .attack 0 2, .attack 0 1, .attack 1 0]
    ∃ t, Tables.afterCalls? calls = some t ∧ t.Consistent ∧ t.size = 2
      ∧ t.attackedBy? 1 = some [0] ∧ t.hasAttack 0 1 = true
      ∧ ∃ result, (Tables.call (.attack 1 0)).on t = some (result, t) := by
  intro calls
  obtain ⟨hafter, hconsistent, hattack, hattacked, -, -, hcalls⟩ := tables_tell_one_relation calls
  obtain ⟨result, t', hcall, -, -, hanswers⟩ := hcalls (.attack 1 0)
  have hrefuses : (afterCalls calls).tables.Refuses (.attack 1 0) :=
    .inr (.inr ((hattack 1 0).trans (by decide)))
  refine ⟨_, hafter, hconsistent, by decide, ?_, ?_, result, ?_⟩
  · rw [hattacked]
    decide
  · rw [hattack]
    decide
  · rw [hcall, hanswers.unchanged (hanswers.refused_iff.mpr hrefuses)]

end SolverAudit.Framework
