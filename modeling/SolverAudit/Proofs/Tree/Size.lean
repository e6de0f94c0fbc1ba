import SolverAudit.Proofs.Tree.DepthFirst

/-!
# Sizes of trees

Below each node there are at most as many subtrees as effective growths, so a tree of some levels
has at most so many nodes as the next greater number to the power of the levels.
-/

namespace SolverAudit

variable {σ ι : Type}

namespace Course

theorem length_andThen_le (first : Course σ ι) (rest : Context σ → Course σ ι) :
    (first.andThen rest).visits.length ≤
      first.visits.length + (rest first.context).visits.length := by
  cases hending : first.ending with
  | error failure =>
      rw [andThen_of_error hending]
      exact Nat.le_add_right _ _
  | ok _ => rw [andThen_of_ok hending, List.length_append]

theorem length_below_le {descend : Visit σ ι → Course σ ι} {size : Nat}
    (hdescend : ∀ u, (descend u).visits.length ≤ size) (v : Visit σ ι)
    (entries : List (Growth σ ι × Nat)) (context : Context σ) :
    (below descend v entries context).visits.length ≤ entries.length * size := by
  refine below_induction
    (motive := fun entries _ course => course.visits.length ≤ entries.length * size)
    ?nil ?stop ?grow ?skip entries context
  case nil => exact fun _ => Nat.zero_le _
  case stop => exact fun _ _ _ _ _ _ _ _ => Nat.zero_le _
  case grow =>
    intro growth place rest before child after _ _ ih
    have hchild := hdescend ⟨v.path ++ [place], child, after⟩
    have hrest := ih (descend ⟨v.path ++ [place], child, after⟩).context
    calc
      ((descend ⟨v.path ++ [place], child, after⟩).andThen
          (below descend v rest)).visits.length ≤ _ := length_andThen_le _ _
      _ ≤ size + rest.length * size := Nat.add_le_add hchild hrest
      _ = ((growth, place) :: rest).length * size := by
        rw [List.length_cons, Nat.succ_mul, Nat.add_comm]
  case skip =>
    intro growth place rest context _ ih
    rw [List.length_cons, Nat.succ_mul]
    omega

theorem length_ofNode_le (growths : List (Growth σ ι)) (levels : Nat) (v : Visit σ ι) :
    (ofNode growths levels v).visits.length ≤ (growths.length + 1) ^ levels := by
  induction levels generalizing v with
  | zero => exact Nat.le_refl 1
  | succ levels ih =>
      have hbelow := length_below_le ih v growths.zipIdx v.context
      rw [List.length_zipIdx] at hbelow
      have hpositive : 1 ≤ (growths.length + 1) ^ levels := Nat.one_le_pow _ _ (Nat.succ_pos _)
      calc
        (ofNode growths (levels + 1) v).visits.length =
            (below (ofNode growths levels) v growths.zipIdx v.context).visits.length + 1 := rfl
        _ ≤ growths.length * (growths.length + 1) ^ levels + (growths.length + 1) ^ levels :=
          Nat.add_le_add hbelow hpositive
        _ = (growths.length + 1) ^ (levels + 1) := by
          rw [Nat.pow_succ, Nat.mul_succ, Nat.mul_comm growths.length]

end Course

theorem Generator.length_course_le (g : Generator σ ι) (levels : Nat) (start : Context σ) :
    (g.course levels start).visits.length ≤ (g.effective.length + 1) ^ levels := by
  rw [course]
  split
  · exact Nat.zero_le _
  · exact Course.length_ofNode_le _ _ _

end SolverAudit
