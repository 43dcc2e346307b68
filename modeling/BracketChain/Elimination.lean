import Mathlib.Algebra.Ring.Nat
import Mathlib.Data.List.Nodup
import Mathlib.Data.List.Perm.Subperm
import Mathlib.Logic.Function.Basic

namespace BracketChain.Elimination

/-- The matches of a bracket with `k` rounds, as round and index. Each round
has half as many as the one before. -/
def grid : Nat → List (Nat × Nat)
  | 0 => []
  | k + 1 => (List.range (2 ^ k)).map (fun m => (0, m)) ++ (grid k).map fun p => (p.1 + 1, p.2)

theorem mem_grid {k : Nat} {p : Nat × Nat} : p ∈ grid k ↔ p.1 < k ∧ p.2 < 2 ^ k >>> (p.1 + 1) := by
  obtain ⟨r, m⟩ := p
  induction k generalizing r with
  | zero => simp [grid]
  | succ k ih =>
      cases r with
      | zero => simp [grid, Nat.shiftRight_succ, Nat.pow_succ]
      | succ r =>
          have half : 2 ^ (k + 1) >>> (r + 1 + 1) = 2 ^ k >>> (r + 1) := by
            rw [Nat.shiftRight_eq_div_pow, Nat.shiftRight_eq_div_pow, Nat.pow_succ, Nat.pow_succ 2 (r + 1),
              Nat.mul_div_mul_right _ _ Nat.two_pos]
          simpa [grid, half] using ih r

theorem length_grid (k : Nat) : (grid k).length = 2 ^ k - 1 := by
  induction k with
  | zero => rfl
  | succ k ih =>
      have := Nat.one_le_two_pow (n := k)
      simp only [grid, List.length_append, List.length_map, List.length_range, ih, Nat.pow_succ]
      omega

theorem nodup_grid (k : Nat) : (grid k).Nodup := by
  induction k with
  | zero => exact .nil
  | succ k ih =>
      have first : Function.Injective fun m : Nat => (0, m) := fun _ _ h => (Prod.mk.inj h).2
      have rest : Function.Injective fun p : Nat × Nat => (p.1 + 1, p.2) := fun _ _ h =>
        Prod.ext (Nat.succ.inj (Prod.mk.inj h).1) (Prod.mk.inj h).2
      refine List.nodup_append.2 ⟨List.Nodup.map first List.nodup_range, List.Nodup.map rest ih, ?_⟩
      rintro _ hp _ hq rfl
      obtain ⟨m, _, rfl⟩ := List.mem_map.1 hp
      obtain ⟨q, _, hq⟩ := List.mem_map.1 hq
      cases hq

theorem perm_grid {k : Nat} {ps : List (Nat × Nat)} (distinct : ps.Nodup) (sub : ps ⊆ grid k)
    (enough : 2 ^ k - 1 ≤ ps.length) : ps.Perm (grid k) :=
  (distinct.subperm sub).perm_of_length_le (length_grid k ▸ enough)

theorem countP_first (k j : Nat) (h : j ≤ 2 ^ k) :
    (grid (k + 1)).countP (fun p => p.1 = 0 ∧ p.2 < j) = j := by
  obtain ⟨i, hi⟩ := Nat.exists_eq_add_of_le h
  have first : (List.range j).countP (fun m => decide (m < j)) = j := by
    rw [List.countP_eq_length.2 fun m hm => by simpa using hm, List.length_range]
  simp [grid, hi, List.range_add, List.countP_map, Function.comp_def, first]

section Rounds

variable {k r m : Nat}

theorem round_zero (h : (0, m) ∈ grid k) : m < 2 ^ k / 2 := by
  simpa [Nat.shiftRight_succ] using (mem_grid.1 h).2

theorem left_mem (h : (r + 1, m) ∈ grid k) : (r, 2 * m) ∈ grid k := by
  obtain ⟨hr, hm⟩ := mem_grid.1 h
  simp only [Nat.shiftRight_succ] at hm
  exact mem_grid.2 ⟨Nat.lt_of_succ_lt hr, by simp only [Nat.shiftRight_succ]; omega⟩

theorem right_mem (h : (r + 1, m) ∈ grid k) : (r, 2 * m + 1) ∈ grid k := by
  obtain ⟨hr, hm⟩ := mem_grid.1 h
  simp only [Nat.shiftRight_succ] at hm
  exact mem_grid.2 ⟨Nat.lt_of_succ_lt hr, by simp only [Nat.shiftRight_succ]; omega⟩

theorem parent_mem (h : (r, m) ∈ grid k) (inner : r + 1 < k) : (r + 1, m / 2) ∈ grid k := by
  obtain ⟨_, hm⟩ := mem_grid.1 h
  refine mem_grid.2 ⟨inner, ?_⟩
  obtain ⟨j, rfl⟩ : ∃ j, k = r + 2 + j := ⟨k - (r + 2), by omega⟩
  simp only [Nat.shiftRight_eq_div_pow] at hm ⊢
  rw [show r + 2 + j = (j + 1) + (r + 1) by omega, Nat.pow_add, Nat.mul_div_cancel _ (Nat.two_pow_pos _)] at hm
  rw [show r + 2 + j = j + (r + 1 + 1) by omega, Nat.pow_add, Nat.mul_div_cancel _ (Nat.two_pow_pos _)]
  rw [Nat.pow_succ] at hm
  omega

theorem last_round (h : (r, m) ∈ grid k) (last : r + 1 = k) : m = 0 := by
  have hm := (mem_grid.1 h).2
  simp only [last, Nat.shiftRight_eq_div_pow, Nat.div_self (Nat.two_pow_pos k)] at hm
  omega

theorem root_mem (k : Nat) : (k, 0) ∈ grid (k + 1) := by
  refine mem_grid.2 ⟨Nat.lt_succ_self k, ?_⟩
  simp [Nat.shiftRight_eq_div_pow, Nat.div_self (Nat.two_pow_pos (k + 1))]

end Rounds

variable {α : Type}

/-- Who sits in each match of a bracket, and who has won it. -/
@[ext]
structure Board (α : Type) where
  left : Nat × Nat → Option α
  right : Nat × Nat → Option α
  winner : Nat × Nat → Option α

/-- The state of a single-elimination bracket: winners move up into the next
round, where a match is won only by one of two players in it. -/
structure Board.Valid (b : Board α) (k : Nat) : Prop where
  left : ∀ r m, (r + 1, m) ∈ grid k → b.left (r + 1, m) = b.winner (r, 2 * m)
  right : ∀ r m, (r + 1, m) ∈ grid k → b.right (r + 1, m) = b.winner (r, 2 * m + 1)
  won : ∀ p ∈ grid k, ∀ w, b.winner p = some w → b.left p = some w ∨ b.right p = some w
  full : ∀ r m, (r + 1, m) ∈ grid k → (b.winner (r + 1, m)).isSome = true →
    (b.left (r + 1, m)).isSome = true ∧ (b.right (r + 1, m)).isSome = true

/-- A match is won, and its winner takes its seat in the next round. -/
def Board.play [DecidableEq α] (b : Board α) (r m : Nat) (w : α) : Board α where
  left := if m % 2 = 0 then Function.update b.left (r + 1, m / 2) (some w) else b.left
  right := if m % 2 = 0 then b.right else Function.update b.right (r + 1, m / 2) (some w)
  winner := Function.update b.winner (r, m) (some w)

theorem Board.play_left [DecidableEq α] (b : Board α) {r m : Nat} {p : Nat × Nat} (w : α)
    (h : p ≠ (r + 1, m / 2)) : (b.play r m w).left p = b.left p := by
  simp only [Board.play]
  split
  · exact Function.update_of_ne h _ _
  · rfl

theorem Board.play_right [DecidableEq α] (b : Board α) {r m : Nat} {p : Nat × Nat} (w : α)
    (h : p ≠ (r + 1, m / 2)) : (b.play r m w).right p = b.right p := by
  simp only [Board.play]
  split
  · rfl
  · exact Function.update_of_ne h _ _

theorem Board.play_winner [DecidableEq α] (b : Board α) {r m : Nat} {p : Nat × Nat} (w : α) (h : p ≠ (r, m)) :
    (b.play r m w).winner p = b.winner p :=
  Function.update_of_ne h _ _

/-- How many matches of the bracket are won. -/
def Board.decided (b : Board α) (k : Nat) : Nat := (grid k).countP fun p => (b.winner p).isSome

theorem Board.decided_play [DecidableEq α] {b : Board α} {k r m : Nat} (w : α) (mem : (r, m) ∈ grid k)
    (open_ : b.winner (r, m) = none) : (b.play r m w).decided k = b.decided k + 1 := by
  have split := List.perm_cons_erase mem
  have apart {p : Nat × Nat} (hp : p ∈ (grid k).erase (r, m)) : p ≠ (r, m) :=
    ((nodup_grid k).mem_erase_iff.1 hp).1
  have rest : ((grid k).erase (r, m)).countP (fun p => ((b.play r m w).winner p).isSome) =
      ((grid k).erase (r, m)).countP fun p => (b.winner p).isSome :=
    List.countP_congr fun p hp => by rw [b.play_winner w (apart hp)]
  rw [Board.decided, Board.decided, split.countP_eq, split.countP_eq, List.countP_cons, List.countP_cons, rest]
  simp [Board.play, open_]

theorem Board.decided_all {b : Board α} {k : Nat} (h : ∀ p ∈ grid k, (b.winner p).isSome = true) :
    b.decided k = 2 ^ k - 1 := by
  rw [Board.decided, List.countP_eq_length.2 h, length_grid]

theorem Board.decided_congr {b b' : Board α} {k : Nat} (h : ∀ p ∈ grid k, b'.winner p = b.winner p) :
    b'.decided k = b.decided k :=
  List.countP_congr fun p hp => by rw [h p hp]

namespace Board.Valid

variable {b : Board α} {k r m : Nat}

theorem congr {b' : Board α} (h : b.Valid k) (left : ∀ p ∈ grid k, b'.left p = b.left p)
    (right : ∀ p ∈ grid k, b'.right p = b.right p) (winner : ∀ p ∈ grid k, b'.winner p = b.winner p) :
    b'.Valid k := by
  refine ⟨fun r m hm => ?_, fun r m hm => ?_, fun p hp w hw => ?_, fun r m hm hw => ?_⟩
  · rw [left _ hm, winner _ (left_mem hm), h.left r m hm]
  · rw [right _ hm, winner _ (right_mem hm), h.right r m hm]
  · rw [left p hp, right p hp]
    exact h.won p hp w (winner p hp ▸ hw)
  · rw [left _ hm, right _ hm]
    exact h.full r m hm (winner _ hm ▸ hw)

/-- A match above an open one is open, and the seat of its winner is empty. -/
theorem parent_open (h : b.Valid k) (mem : (r + 1, m / 2) ∈ grid k) (open_ : b.winner (r, m) = none) :
    b.winner (r + 1, m / 2) = none ∧
      (if m % 2 = 0 then b.left (r + 1, m / 2) else b.right (r + 1, m / 2)) = none := by
  have seat : (if m % 2 = 0 then b.left (r + 1, m / 2) else b.right (r + 1, m / 2)) = none := by
    split
    · rw [h.left r _ mem, show 2 * (m / 2) = m by omega, open_]
    · rw [h.right r _ mem, show 2 * (m / 2) + 1 = m by omega, open_]
  refine ⟨?_, seat⟩
  by_contra hne
  obtain ⟨hl, hr⟩ := h.full r _ mem (Option.ne_none_iff_isSome.1 hne)
  split at seat
  · simp [seat] at hl
  · simp [seat] at hr

theorem play [DecidableEq α] (h : b.Valid k) {w : α} (mem : (r, m) ∈ grid k) (open_ : b.winner (r, m) = none)
    (seated : b.left (r, m) = some w ∨ b.right (r, m) = some w)
    (both : 0 < r → (b.left (r, m)).isSome = true ∧ (b.right (r, m)).isSome = true) :
    (b.play r m w).Valid k := by
  have won_self : (b.play r m w).winner (r, m) = some w := Function.update_self ..
  have below : (r, m) ≠ (r + 1, m / 2) := by simp
  -- no other match that is won has its seats changed
  have unseated {p : Nat × Nat} (hp : p ∈ grid k) (hw : (b.winner p).isSome = true) : p ≠ (r + 1, m / 2) := by
    rintro rfl
    simp [(h.parent_open hp open_).1] at hw
  refine ⟨fun r' m' hm' => ?_, fun r' m' hm' => ?_, fun p hp w' hw' => ?_, fun r' m' hm' hw' => ?_⟩
  · by_cases hc : (r', 2 * m') = (r, m)
    · obtain ⟨rfl, rfl⟩ := Prod.mk.inj hc
      rw [won_self]
      simp [Board.play]
    · rw [b.play_winner w hc, ← h.left r' m' hm']
      simp only [Board.play]
      split
      · refine Function.update_of_ne (fun he => hc ?_) _ _
        obtain ⟨h₁, h₂⟩ := Prod.mk.inj he
        rw [Prod.mk.injEq]
        omega
      · rfl
  · by_cases hc : (r', 2 * m' + 1) = (r, m)
    · obtain ⟨rfl, rfl⟩ := Prod.mk.inj hc
      rw [won_self]
      simp [Board.play, show (2 * m' + 1) / 2 = m' by omega]
    · rw [b.play_winner w hc, ← h.right r' m' hm']
      simp only [Board.play]
      split
      · rfl
      · refine Function.update_of_ne (fun he => hc ?_) _ _
        obtain ⟨h₁, h₂⟩ := Prod.mk.inj he
        rw [Prod.mk.injEq]
        omega
  · by_cases hc : p = (r, m)
    · subst hc
      obtain rfl : w = w' := Option.some.inj (won_self.symm.trans hw')
      rwa [b.play_left w below, b.play_right w below]
    · rw [b.play_winner w hc] at hw'
      have apart := unseated hp (by simp [hw'])
      rw [b.play_left w apart, b.play_right w apart]
      exact h.won p hp w' hw'
  · by_cases hc : (r' + 1, m') = (r, m)
    · obtain ⟨rfl, rfl⟩ := Prod.mk.inj hc
      rw [b.play_left w below, b.play_right w below]
      exact both (by omega)
    · rw [b.play_winner w hc] at hw'
      have apart := unseated hm' hw'
      rw [b.play_left w apart, b.play_right w apart]
      exact h.full r' m' hm' hw'

theorem children_won (h : b.Valid k) (mem : (r + 1, m) ∈ grid k) (won : (b.winner (r + 1, m)).isSome = true) :
    (b.winner (r, 2 * m)).isSome = true ∧ (b.winner (r, 2 * m + 1)).isSome = true := by
  have full := h.full r m mem won
  rwa [h.left r m mem, h.right r m mem] at full

/-- Below a match that is not won there is one that is not won either, with
both seats taken, as long as the seats of the first round are. -/
theorem exists_open (h : b.Valid k) (ground : ∀ m, (0, m) ∈ grid k → b.winner (0, m) = none →
      (b.left (0, m)).isSome = true ∧ (b.right (0, m)).isSome = true)
    (mem : (r, m) ∈ grid k) (open_ : b.winner (r, m) = none) :
    ∃ p ∈ grid k, b.winner p = none ∧ (b.left p).isSome = true ∧ (b.right p).isSome = true := by
  induction r generalizing m with
  | zero => exact ⟨(0, m), mem, open_, ground m mem open_⟩
  | succ r ih =>
      by_cases left : b.winner (r, 2 * m) = none
      · exact ih (left_mem mem) left
      · by_cases right : b.winner (r, 2 * m + 1) = none
        · exact ih (right_mem mem) right
        · refine ⟨(r + 1, m), mem, open_, ?_⟩
          rw [h.left r m mem, h.right r m mem]
          exact ⟨Option.ne_none_iff_isSome.1 left, Option.ne_none_iff_isSome.1 right⟩

/-- Once the last match is won, every match is. -/
theorem all_won (h : b.Valid (k + 1)) (root : (b.winner (k, 0)).isSome = true) :
    ∀ p ∈ grid (k + 1), (b.winner p).isSome = true := by
  have down (j : Nat) : ∀ r m, r + j = k → (r, m) ∈ grid (k + 1) → (b.winner (r, m)).isSome = true := by
    induction j with
    | zero =>
        intro r m hr hm
        obtain rfl : r = k := hr
        rwa [last_round hm rfl]
    | succ j ih =>
        intro r m hr hm
        have up := parent_mem hm (by omega)
        have children := h.children_won up (ih (r + 1) (m / 2) (by omega) up)
        rcases Nat.mod_two_eq_zero_or_one m with hm2 | hm2
        · simpa [show 2 * (m / 2) = m by omega] using children.1
        · simpa [show 2 * (m / 2) + 1 = m by omega] using children.2
  rintro ⟨r, m⟩ hm
  have hr : r < k + 1 := (mem_grid.1 hm).1
  exact down (k - r) r m (by omega) hm

/-- A player of a match has won its way up to it. -/
theorem way (h : b.Valid k) {w : α} (mem : (r, m) ∈ grid k)
    (seated : b.left (r, m) = some w ∨ b.right (r, m) = some w) :
    ∃ m₀, m₀ / 2 ^ r = m ∧ (0, m₀) ∈ grid k ∧ (b.left (0, m₀) = some w ∨ b.right (0, m₀) = some w) ∧
      ∀ j < r, b.winner (j, m₀ / 2 ^ j) = some w := by
  induction r generalizing m with
  | zero => exact ⟨m, by simp, mem, seated, fun j hj => absurd hj (Nat.not_lt_zero j)⟩
  | succ r ih =>
      obtain ⟨child, hc, hm, hw⟩ : ∃ child, (r, child) ∈ grid k ∧ child / 2 = m ∧ b.winner (r, child) = some w := by
        rcases seated with hl | hr
        · exact ⟨2 * m, left_mem mem, by omega, h.left r m mem ▸ hl⟩
        · exact ⟨2 * m + 1, right_mem mem, by omega, h.right r m mem ▸ hr⟩
      obtain ⟨m₀, hd, h₀, first, up⟩ := ih hc (h.won _ hc w hw)
      refine ⟨m₀, by rw [Nat.pow_succ, ← Nat.div_div_eq_div_mul, hd, hm], h₀, first, fun j hj => ?_⟩
      rcases Nat.lt_or_eq_of_le (Nat.le_of_lt_succ hj) with hlt | rfl
      · exact up j hlt
      · rwa [hd]

/-- The winner of a match has won its way up from a match of the first round. -/
theorem path (h : b.Valid k) {w : α} (mem : (r, m) ∈ grid k) (won : b.winner (r, m) = some w) :
    ∃ m₀, m₀ / 2 ^ r = m ∧ (0, m₀) ∈ grid k ∧ (b.left (0, m₀) = some w ∨ b.right (0, m₀) = some w) ∧
      ∀ j ≤ r, b.winner (j, m₀ / 2 ^ j) = some w := by
  obtain ⟨m₀, hd, h₀, seated, up⟩ := h.way mem (h.won _ mem w won)
  refine ⟨m₀, hd, h₀, seated, fun j hj => ?_⟩
  rcases Nat.lt_or_eq_of_le hj with hlt | rfl
  · exact up j hlt
  · rwa [hd]

end Board.Valid

end BracketChain.Elimination
