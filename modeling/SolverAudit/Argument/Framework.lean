import SolverAudit.Argument.Registry
import SolverAudit.Text.Basic

/-!
# Argumentation frameworks

A framework has distinct arguments, which are referred to by their places, and attacks between them.
It remembers the order in which arguments and attacks were added; two frameworks with the same
arguments and the same set of attacks count as equal.

Two formats list the arguments of a framework in order, then its attacks in increasing order: as
facts of a logic program, and as the nodes and edges of a graph.
-/

namespace SolverAudit

structure Attack where
  source : Nat
  target : Nat
deriving DecidableEq, Repr

namespace Attack

instance : Ord Attack := ⟨compareLex (compareOn source) (compareOn target)⟩

instance : Std.TransOrd Attack :=
  inferInstanceAs (Std.TransCmp (compareLex (compareOn source) (compareOn target)))

instance : Std.LawfulEqOrd Attack where
  compare_self := by
    intro a
    have h : compareLex (compareOn source) (compareOn target) a a = .eq := Std.ReflCmp.compare_self
    exact h
  eq_of_compare := by
    intro a b h
    have h : compareLex (compareOn source) (compareOn target) a b = .eq := h
    rw [compareLex_eq_eq] at h
    obtain ⟨sameSource, sameTarget⟩ := h
    cases a
    cases b
    congr
    · exact Std.LawfulEqCmp.eq_of_compare sameSource
    · exact Std.LawfulEqCmp.eq_of_compare sameTarget

end Attack

structure Framework where
  arguments : List Argument
  /-- The attacks in the order in which they were added. -/
  attacks : List Attack
  distinct : arguments.Nodup
  attacks_distinct : attacks.Nodup
  within : ∀ a ∈ attacks, a.source < arguments.length ∧ a.target < arguments.length
deriving DecidableEq

namespace Framework

def empty : Framework := ⟨[], [], .nil, .nil, by simp⟩

instance : EmptyCollection Framework := ⟨empty⟩

instance : Inhabited Framework := ⟨empty⟩

def size (af : Framework) : Nat := af.arguments.length

def attackSet (af : Framework) : OrderedSet Attack := .ofList af.attacks

instance : BEq Framework where
  beq af bf := af.arguments == bf.arguments && af.attackSet == bf.attackSet

def hasAttack (af : Framework) (source target : Nat) : Bool :=
  (⟨source, target⟩ : Attack) ∈ af.attacks

def attackedBy (af : Framework) (source : Nat) : List Nat :=
  (af.attacks.filter fun a => a.source == source).map Attack.target

def attackersOf (af : Framework) (target : Nat) : List Nat :=
  (af.attacks.filter fun a => a.target == target).map Attack.source

theorem lt_size_of_hasAttack {af : Framework} {source target : Nat}
    (h : af.hasAttack source target = true) : source < af.size ∧ target < af.size :=
  af.within ⟨source, target⟩ (by simpa [hasAttack] using h)

@[simp]
theorem mem_attackedBy {af : Framework} {source target : Nat} :
    target ∈ af.attackedBy source ↔ af.hasAttack source target = true := by
  simp only [attackedBy, List.mem_map, List.mem_filter, beq_iff_eq, hasAttack, decide_eq_true_eq]
  constructor
  · rintro ⟨attack, ⟨hmem, rfl⟩, rfl⟩
    exact hmem
  · exact fun hmem => ⟨⟨source, target⟩, ⟨hmem, rfl⟩, rfl⟩

@[simp]
theorem mem_attackersOf {af : Framework} {source target : Nat} :
    source ∈ af.attackersOf target ↔ af.hasAttack source target = true := by
  simp only [attackersOf, List.mem_map, List.mem_filter, beq_iff_eq, hasAttack, decide_eq_true_eq]
  constructor
  · rintro ⟨attack, ⟨hmem, rfl⟩, rfl⟩
    exact hmem
  · exact fun hmem => ⟨⟨source, target⟩, ⟨hmem, rfl⟩, rfl⟩

/-- An attack is told by its ends, so at one end there are as many places as attacks. -/
theorem nodup_ends {near far : Attack → Nat}
    (hends : ∀ a b : Attack, near a = near b → far a = far b → a = b) (af : Framework)
    (place : Nat) : ((af.attacks.filter fun a => near a == place).map far).Nodup := by
  refine List.pairwise_map.mpr (List.Pairwise.imp_of_mem ?_ (af.attacks_distinct.filter _))
  intro a b ha hb hne hfar
  have hnear : near a = place := by simpa using (List.mem_filter.mp ha).2
  have hnear' : near b = place := by simpa using (List.mem_filter.mp hb).2
  exact hne (hends a b (hnear.trans hnear'.symm) hfar)

theorem nodup_attackedBy (af : Framework) (source : Nat) : (af.attackedBy source).Nodup :=
  nodup_ends (fun ⟨_, _⟩ ⟨_, _⟩ hsource htarget => (Attack.mk.injEq ..).mpr ⟨hsource, htarget⟩)
    af source

theorem nodup_attackersOf (af : Framework) (target : Nat) : (af.attackersOf target).Nodup :=
  nodup_ends (fun ⟨_, _⟩ ⟨_, _⟩ htarget hsource => (Attack.mk.injEq ..).mpr ⟨hsource, htarget⟩)
    af target

def argument? (af : Framework) (place : Nat) : Option Argument := af.arguments[place]?

theorem argument?_eq_some {af : Framework} {place : Nat} (h : place < af.size) :
    ∃ a, af.argument? place = some a :=
  ⟨_, List.getElem?_eq_getElem h⟩

theorem argument?_injective {af : Framework} {place place' : Nat} {a : Argument}
    (h : af.argument? place = some a) (h' : af.argument? place' = some a) : place = place' :=
  (List.getElem?_inj (List.getElem?_eq_some_iff.mp h).1 af.distinct).mp (h.trans h'.symm)

def attackedBy? (af : Framework) (source : Nat) : Option (List Nat) :=
  if source < af.size then some (af.attackedBy source) else none

def attackersOf? (af : Framework) (target : Nat) : Option (List Nat) :=
  if target < af.size then some (af.attackersOf target) else none

/-- The arguments at the ends of each attack, in increasing order of the attacks. -/
def attackArguments (af : Framework) : List (Argument × Argument) :=
  af.attackSet.toList.filterMap fun a => do
    let source ← af.argument? a.source
    let target ← af.argument? a.target
    return (source, target)

def argumentSet (af : Framework) (places : List Nat) : OrderedSet Argument :=
  .ofList (places.filterMap af.argument?)

theorem mem_argumentSet {af : Framework} {places : List Nat} {a : Argument} :
    a ∈ af.argumentSet places ↔ ∃ place ∈ places, af.argument? place = some a := by
  simp [argumentSet]

theorem argumentSet_congr {af : Framework} {places places' : List Nat}
    (hsame : ∀ place, place ∈ places ↔ place ∈ places') :
    af.argumentSet places = af.argumentSet places' := by
  refine OrderedSet.ext fun a => ?_
  simp only [mem_argumentSet, hsame]

/-! ### Growing by hand -/

inductive Refusal where
  | argumentPresent (label : String)
  | outOfRange (source target size : Nat)
  | attackPresent (source target : String)
deriving DecidableEq, Repr

instance : Cause Refusal where
  kind
    | .argumentPresent _ => .invalidArgument
    | .outOfRange .. => .other
    | .attackPresent .. => .other
  wording
    | .argumentPresent label => s!"argument {label} is already in the framework"
    | .outOfRange source target size =>
      s!"cannot add an attack from identifiers {source} to {target}; " ++
        s!"the framework has {size} argument(s)"
    | .attackPresent source target =>
      s!"cannot add an attack from {source} to {target}; this attack already exists"

def addArgument (af : Framework) (a : Argument) : Except Refusal Framework :=
  if h : a ∈ af.arguments then
    .error (.argumentPresent a.label)
  else
    .ok { af with
      arguments := af.arguments ++ [a]
      distinct := by
        refine List.nodup_append.2 ⟨af.distinct, by simp, ?_⟩
        intro old ho new hn
        rw [List.mem_singleton.1 hn]
        exact fun same => h (same ▸ ho)
      within := by
        intro attack hm
        have := af.within attack hm
        simp only [List.length_append, List.length_singleton]
        omega }

def addAttack (af : Framework) (source target : Nat) : Except Refusal Framework :=
  if range : source < af.size ∧ target < af.size then
    if h : (⟨source, target⟩ : Attack) ∈ af.attacks then
      .error (.attackPresent (af.arguments.get ⟨source, range.1⟩).label
        (af.arguments.get ⟨target, range.2⟩).label)
    else
      .ok { af with
        attacks := af.attacks ++ [⟨source, target⟩]
        attacks_distinct := by
          refine List.nodup_append.2 ⟨af.attacks_distinct, by simp, ?_⟩
          intro old ho new hn
          rw [List.mem_singleton.1 hn]
          exact fun same => h (same ▸ ho)
        within := by
          intro attack hm
          rcases List.mem_append.1 hm with hm | hm
          · exact af.within attack hm
          · rw [List.mem_singleton.1 hm]
            exact range }
  else
    .error (.outOfRange source target af.size)

/-! ### Listings -/

def argumentFact (a : Argument) : List Char :=
  ['a', 'r', 'g', '('] ++ a.label.toList ++ [')', '.']

def attackFact : Argument × Argument → List Char
  | (source, target) =>
    ['a', 't', 't', '('] ++ source.label.toList ++ [','] ++ target.label.toList ++ [')', '.']

def facts (af : Framework) : String :=
  String.ofList (unlines (af.arguments.map argumentFact ++ af.attackArguments.map attackFact))

def edge : Argument × Argument → List Char
  | (source, target) => source.label.toList ++ [' '] ++ target.label.toList

def graph (af : Framework) : String :=
  String.ofList (unlines
    (af.arguments.map (fun a => a.label.toList) ++ [['#']] ++ af.attackArguments.map edge))

end Framework

end SolverAudit
