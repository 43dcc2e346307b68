import Mathlib.Algebra.Order.BigOperators.Group.List
import Mathlib.Tactic.Ring

namespace BracketChain.Apportion

/-- The shares of `n` at the weights `bs` out of `d`, each rounded down. -/
def floors (n d : Nat) (bs : List Nat) : List Nat := bs.map fun b => n * b / d

variable {n d : Nat} {bs : List Nat}

theorem floors_length (n d : Nat) (bs : List Nat) : (floors n d bs).length = bs.length := List.length_map _

theorem floors_get {i : Nat} (h : i < (floors n d bs).length) (h' : i < bs.length) :
    (floors n d bs)[i] = n * bs[i] / d := List.getElem_map _

/-- Rounding down never gives away more than there is. -/
theorem floors_sum_le (n d : Nat) (bs : List Nat) : d * (floors n d bs).sum ≤ n * bs.sum := by
  induction bs with
  | nil => simp [floors]
  | cons b bs ih =>
      have first := Nat.mul_div_le (n * b) d
      have rest : d * (floors n d bs).sum ≤ n * bs.sum := ih
      simp only [floors, List.map_cons, List.sum_cons, Nat.mul_add] at rest ⊢
      omega

/-- Each share loses less than one unit. -/
theorem lt_floors_sum (pos : 0 < d) (some : bs ≠ []) : n * bs.sum < d * ((floors n d bs).sum + bs.length) := by
  induction bs with
  | nil => exact absurd rfl some
  | cons b bs ih =>
      have first : n * b < d * (n * b / d + 1) := Nat.lt_mul_div_succ (n * b) pos
      have rest : n * bs.sum ≤ d * ((floors n d bs).sum + bs.length) := by
        by_cases last : bs = []
        · simp [last]
        · exact (ih last).le
      calc n * (b :: bs).sum = n * b + n * bs.sum := by rw [List.sum_cons, Nat.mul_add]
        _ < d * (n * b / d + 1) + d * ((floors n d bs).sum + bs.length) := by omega
        _ = d * ((floors n d (b :: bs)).sum + (b :: bs).length) := by
          simp only [floors, List.map_cons, List.sum_cons, List.length_cons]
          ring

section Whole

variable (pos : 0 < d) (whole : bs.sum = d)
include pos whole

theorem floors_sum_le_whole : (floors n d bs).sum ≤ n := by
  refine Nat.le_of_mul_le_mul_left ?_ pos
  rw [Nat.mul_comm d n, ← whole]
  exact floors_sum_le n bs.sum bs

theorem whole_lt_floors_sum : n < (floors n d bs).sum + bs.length := by
  refine Nat.lt_of_mul_lt_mul_left (a := d) ?_
  have some : bs ≠ [] := by
    rintro rfl
    exact absurd whole pos.ne
  have lost := lt_floors_sum (n := n) pos some
  rwa [whole, Nat.mul_comm] at lost

omit pos in
theorem floor_le_whole {b : Nat} (mem : b ∈ bs) : n * b / d ≤ n := by
  refine Nat.div_le_of_le_mul ?_
  rw [Nat.mul_comm]
  exact Nat.mul_le_mul_right n (whole ▸ List.single_le_sum (by simp) b mem)

end Whole

end BracketChain.Apportion
