import BracketChain.ChunkedStart
import BracketChain.Mirror
import Mathlib.Order.Bounds.Basic

namespace BracketChain.Byes

open Outcome Keys Seeding Start Seats ChunkedStart Mirror

/-- The seed indices that a match of the first round seats. -/
def seated : Option (Nat × Option Nat) → List Nat
  | some (a, b) => a :: b.toList
  | none => []

def isBye : Option (Nat × Option Nat) → Bool
  | some (_, none) => true
  | _ => false

section Draws

variable {w : Draw} {k m : Nat} (drawn : Drawn w k)
include drawn

/-- The match of the top seeds against nobody. -/
theorem round0_bye_iff (hm : m < 2 ^ k) : ∃ a o, w.round0 m = some (a, o) ∧ w.perm[m]? = some a ∧
    (o = none ↔ m < w.bracketSize - w.n) ∧ seated (w.round0 m) = (ranks (2 ^ k) w.n m).map fun r => w.perm[r]?.getD 0 := by
  obtain ⟨a, o, hw, _, _⟩ := round0_some drawn hm
  obtain ⟨ha, ho⟩ := drawn.round0 hw
  have low := drawn.low
  have double : 2 ^ (k + 1) = 2 * 2 ^ k := Nat.pow_succ'
  refine ⟨a, o, hw, ha, ?_, ?_⟩
  · rw [drawn.size]
    split at ho
    · obtain ⟨b, _, rfl⟩ := ho
      simp only [reduceCtorEq, false_iff]
      omega
    · simp only [ho, true_iff]
      omega
  · rw [hw, seated, ranks, ← double]
    split at ho
    · rename_i inside
      obtain ⟨b, hb, rfl⟩ := ho
      rw [if_pos inside]
      simp [ha, hb]
    · rename_i outside
      rw [if_neg outside, ho]
      simp [ha]

theorem seated_perm : ((List.range (2 ^ k)).flatMap fun m => seated (w.round0 m)).Perm (List.range w.n) := by
  have matches_ : (List.range (2 ^ k)).flatMap (fun m => seated (w.round0 m)) =
      ((List.range (2 ^ k)).flatMap (ranks (2 ^ k) w.n)).map fun r => w.perm[r]?.getD 0 := by
    rw [List.map_flatMap]
    refine List.flatMap_congr fun m hm => ?_
    obtain ⟨_, _, _, _, _, seats⟩ := round0_bye_iff drawn (List.mem_range.1 hm)
    exact seats
  have whole : (List.range w.n).map (fun r => w.perm[r]?.getD 0) = w.perm.toList := by
    refine List.ext_getElem (by simp [drawn.length]) fun i _ hi => ?_
    rw [Array.length_toList] at hi
    simp [hi]
  have high : w.n ≤ 2 * 2 ^ k := Nat.pow_succ' (n := k) (m := 2) ▸ drawn.high
  rw [matches_]
  exact ((ranks_perm drawn.low.le high).map _).trans (whole ▸ drawn.perm)

theorem countP_byes : (List.range (2 ^ k)).countP (fun m => isBye (w.round0 m)) = w.bracketSize - w.n := by
  have low := drawn.low
  have double : 2 ^ (k + 1) = 2 * 2 ^ k := Nat.pow_succ'
  have fits : w.bracketSize - w.n ≤ 2 ^ k := by
    rw [drawn.size]
    omega
  rw [← countP_below fits]
  refine List.countP_congr fun m hm => ?_
  obtain ⟨a, o, hw, _, bye, _⟩ := round0_bye_iff drawn (List.mem_range.1 hm)
  rw [hw, decide_eq_true_eq, ← bye]
  cases o <;> simp [isBye]

end Draws

/-- Every seed draws the players into the first round once each, with the byes
against the top ranks and at most one in a match. -/
theorem seeding_exact (seedHash : Bytes32) (n : Nat) (two : 2 ≤ n) (bound : n ≤ 32768) :
    (seedPermutation seedHash n).toList.Perm (List.range n) ∧
    ∃ size, bracketSizeOf n = .ok size ∧ IsLeast {p | n ≤ p ∧ ∃ j, p = 2 ^ j} size ∧
      (∀ m < size / 2, ∃ a o, round0Expected (seedPermutation seedHash n) m size n = some (a, o) ∧
        (seedPermutation seedHash n)[m]? = some a ∧ (o = none ↔ m < size - n)) ∧
      ((List.range (size / 2)).flatMap fun m =>
        seated (round0Expected (seedPermutation seedHash n) m size n)).Perm (List.range n) ∧
      (List.range (size / 2)).countP
        (fun m => isBye (round0Expected (seedPermutation seedHash n) m size n)) = size - n := by
  obtain ⟨k, _, low, high⟩ := roundsFor_spec two
  have drawn : Drawn ⟨seedPermutation seedHash n, 2 ^ (k + 1), n⟩ k := ⟨seedPermutation_perm _ _, rfl, low, high⟩
  have half : 2 ^ (k + 1) / 2 = 2 ^ k := by simp [Nat.pow_succ]
  refine ⟨seedPermutation_perm _ _, 2 ^ (k + 1), bracketSizeOf_succeeds low high bound, ⟨⟨high, k + 1, rfl⟩, ?_⟩, ?_⟩
  · rintro _ ⟨above, j, rfl⟩
    have more := (Nat.pow_lt_pow_iff_right Nat.one_lt_two).1 (low.trans_le above)
    exact Nat.pow_le_pow_right (by decide) more
  · rw [half]
    refine ⟨fun m hm => ?_, seated_perm drawn, countP_byes drawn⟩
    obtain ⟨a, o, hw, ha, bye, _⟩ := round0_bye_iff drawn hm
    exact ⟨a, o, hw, ha, bye⟩

theorem seeding_exact_five : (seedPermutation zeroBytes 5).toList.Perm (List.range 5) ∧
    (List.range 4).countP (fun m => isBye (round0Expected (seedPermutation zeroBytes 5) m 8 5)) = 3 := by
  obtain ⟨perm, size, sized, _, _, _, byes⟩ := seeding_exact zeroBytes 5 (by decide) (by decide)
  obtain rfl : 8 = size := Except.ok.inj sized
  exact ⟨perm, byes⟩

end BracketChain.Byes
