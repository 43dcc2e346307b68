import Mathlib.Data.List.Perm.Basic

namespace BracketChain.Shuffle

variable {α γ : Type}

/-- Fisher-Yates from position `i - 1` down to position 1. The source `draw`
supplies a number at each position, which is reduced to an index not past it. -/
def shuffleFrom (draw : γ → Nat × γ) : Nat → γ → Array α → Array α
  | 0, _, xs => xs
  | 1, _, xs => xs
  | i + 2, g, xs =>
      shuffleFrom draw (i + 1) (draw g).2 (xs.swapIfInBounds (i + 1) ((draw g).1 % (i + 2)))

theorem swapIfInBounds_perm (xs : Array α) (i j : Nat) : (xs.swapIfInBounds i j).Perm xs := by
  rw [Array.swapIfInBounds_def]
  split
  · split
    · exact Array.swap_perm _ _
    · exact .refl xs
  · exact .refl xs

/-- Whatever the source draws, the result is a permutation of the input. -/
theorem shuffleFrom_perm (draw : γ → Nat × γ) (i : Nat) (g : γ) (xs : Array α) :
    (shuffleFrom draw i g xs).Perm xs := by
  fun_induction shuffleFrom draw i g xs with
  | case1 | case2 => exact .refl _
  | case3 i g xs ih => exact ih.trans (swapIfInBounds_perm xs _ _)

theorem shuffle_range (draw : γ → Nat × γ) (g : γ) (n : Nat) :
    (shuffleFrom draw n g (List.range n).toArray).toList.Perm (List.range n) :=
  Array.perm_iff_toList_perm.1 (shuffleFrom_perm draw n g _)

end BracketChain.Shuffle
