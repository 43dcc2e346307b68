import BracketChain.Elimination
import BracketChain.Lifecycle
import Mathlib.Data.List.Nodup

namespace BracketChain.Seats

open Outcome Keys Records Seeding Start Lifecycle Elimination

theorem trailingZeros_pow {k : Nat} (h : k < 16) : trailingZeros (2 ^ k) = k := by
  revert k
  decide

theorem bracketSizeOf_pow {n size : Nat} (h : bracketSizeOf n = .ok size) (two : minParticipants ≤ n)
    (bound : n ≤ u16Max) : ∃ k, k + 1 < 16 ∧ size = 2 ^ (k + 1) ∧ 2 ^ k < n ∧ n ≤ 2 ^ (k + 1) := by
  have small {k : Nat} (hk : 2 ^ (k + 1) ≤ u16Max) : k + 1 < 16 := by
    by_contra hge
    have := Nat.pow_le_pow_right (n := 2) (by omega) (Nat.not_lt.1 hge)
    simp only [u16Max] at hk
    omega
  simp only [minParticipants] at two
  simp only [bracketSizeOf, ite_ok, orThrow_ok, checkedNextPowerOfTwo] at h
  rcases h with ⟨hp, h⟩ | ⟨_, h⟩
  · obtain rfl : n = size := by simpa using h
    have hp : 2 ^ n.log2 = n := by simpa [isPowerOfTwo] using hp
    obtain ⟨k, hk⟩ : ∃ k, n.log2 = k + 1 := by
      refine Nat.exists_eq_succ_of_ne_zero fun h0 => ?_
      rw [h0] at hp
      omega
    rw [hk] at hp
    refine ⟨k, small (hp ▸ bound), hp.symm, ?_, Nat.le_of_eq hp.symm⟩
    rw [← hp, Nat.pow_succ]
    have := Nat.two_pow_pos k
    omega
  · have next : (if n ≤ 1 then 1 else 2 ^ ((n - 1).log2 + 1)) = 2 ^ ((n - 1).log2 + 1) := if_neg (by omega)
    rw [next] at h
    split at h
    · obtain rfl := Option.some.inj h
      have lower := Nat.log2_self_le (n := n - 1) (by omega)
      have upper := Nat.lt_log2_self (n := n - 1)
      exact ⟨(n - 1).log2, small ‹_›, rfl, by omega, by omega⟩
    · cases h

/-- The dimensions of an open bracket with `k + 1` rounds. -/
structure Dimensioned (t : Tournament) (k : Nat) : Prop where
  rounds : k + 1 < 16
  size : t.bracketSize = 2 ^ (k + 1)
  total : t.totalMatches = 2 ^ (k + 1) - 1
  low : 2 ^ k < t.participantCount
  high : t.participantCount ≤ 2 ^ (k + 1)

theorem Dimensioned.trailing {t : Tournament} {k : Nat} (h : Dimensioned t k) :
    trailingZeros t.bracketSize = k + 1 := by
  rw [h.size, trailingZeros_pow h.rounds]

theorem Dimensioned.unique {t t' : Tournament} {j k : Nat} (h : Dimensioned t j) (h' : Dimensioned t' k)
    (count : t'.participantCount = t.participantCount) : j = k := by
  have above := Nat.lt_of_lt_of_le h.low (count ▸ h'.high)
  have below := Nat.lt_of_lt_of_le h'.low (count ▸ h.high)
  have hj := (Nat.pow_lt_pow_iff_right Nat.one_lt_two).1 above
  have hk := (Nat.pow_lt_pow_iff_right Nat.one_lt_two).1 below
  omega

theorem Dimensioned.of_same {t t' : Tournament} {k : Nat} (h : Dimensioned t k)
    (size : t'.bracketSize = t.bracketSize) (total : t'.totalMatches = t.totalMatches)
    (count : t'.participantCount = t.participantCount) : Dimensioned t' k :=
  ⟨h.rounds, size.trans h.size, total.trans h.total, count ▸ h.low, count ▸ h.high⟩

theorem opens_dimensioned {t t₁ : Tournament} (h : Opens t t₁) (new : t.status = .registration)
    (bound : t.participantCount ≤ u16Max) : ∃ k, Dimensioned t₁ k := by
  rcases h with ⟨_, two, _, size, hsize, _, rfl⟩ | ⟨pending, _⟩
  · obtain ⟨k, rounds, rfl, low, high⟩ := bracketSizeOf_pow hsize two bound
    exact ⟨k, rounds, rfl, rfl, low, high⟩
  · rw [new] at pending
    cases pending

/-- The place of a match in the bracket. -/
def MatchInitDescriptor.position (d : MatchInitDescriptor) : Nat × Nat := (d.round, d.matchIndex)

theorem Dimensioned.grid {rt : Accounts.Runtime} {key : Pubkey} {v : View.TournamentView} {t : Tournament} {k : Nat}
    {ds : List MatchInitDescriptor} (h : Dimensioned t k) (chunk : Chunk rt key v t ds) :
    ∀ d ∈ ds, MatchInitDescriptor.position d ∈ Elimination.grid (k + 1) := by
  intro d hd
  have round := chunk.round_lt d hd
  have index := chunk.index_lt d hd
  rw [h.trailing] at round
  rw [h.size] at index
  exact mem_grid.2 ⟨round, index⟩

section Draws

variable {w : Draw}

/-- The draw of a bracket with `k + 1` rounds: a permutation of the numbers of
its participants. -/
structure Drawn (w : Draw) (k : Nat) : Prop where
  perm : w.perm.toList.Perm (List.range w.n)
  size : w.bracketSize = 2 ^ (k + 1)
  low : 2 ^ k < w.n
  high : w.n ≤ 2 ^ (k + 1)

theorem drawOf_drawn {t : Tournament} {k : Nat} (h : Dimensioned t k) (hw : drawOf t = some w) : Drawn w k := by
  simp only [drawOf, Option.ite_none_left_eq_some, Option.some.injEq] at hw
  obtain ⟨_, rfl⟩ := hw
  exact ⟨seedPermutation_perm _ _, h.size, h.low, h.high⟩

theorem drawOf_count {t : Tournament} (hw : drawOf t = some w) : w.n = t.participantCount := by
  simp only [drawOf, Option.ite_none_left_eq_some, Option.some.injEq] at hw
  rw [← hw.2]

variable {k : Nat} (h : Drawn w k)
include h

theorem Drawn.length : w.perm.size = w.n := by
  simpa using h.perm.length_eq

theorem Drawn.lt {i a : Nat} (ha : w.perm[i]? = some a) : a < w.n := by
  have mem : a ∈ w.perm.toList := by
    rw [Array.mem_toList_iff]
    exact Array.mem_of_getElem? ha
  simpa using h.perm.mem_iff.1 mem

theorem Drawn.rank {a : Nat} (ha : a < w.n) : ∃ i, i < w.n ∧ w.perm[i]? = some a := by
  have mem : a ∈ w.perm.toList := h.perm.mem_iff.2 (by simpa using ha)
  obtain ⟨i, hi⟩ := List.mem_iff_getElem?.1 mem
  rw [Array.getElem?_toList] at hi
  refine ⟨i, ?_, hi⟩
  have := (Array.getElem?_eq_some_iff.1 hi).1
  rwa [h.length] at this

theorem Drawn.rank_unique {a i j : Nat} (hi : w.perm[i]? = some a) (hj : w.perm[j]? = some a) : i = j := by
  have nodup : w.perm.toList.Nodup := h.perm.nodup_iff.2 List.nodup_range
  rw [← Array.getElem?_toList] at hi hj
  obtain ⟨hi', hi⟩ := List.getElem?_eq_some_iff.1 hi
  obtain ⟨hj', hj⟩ := List.getElem?_eq_some_iff.1 hj
  exact (nodup.getElem_inj_iff).1 (hi.trans hj.symm)

theorem Drawn.round0 {m a : Nat} {o : Option Nat} (hm : w.round0 m = some (a, o)) :
    w.perm[m]? = some a ∧
      if 2 ^ (k + 1) - 1 - m < w.n then ∃ b, w.perm[2 ^ (k + 1) - 1 - m]? = some b ∧ o = some b else o = none := by
  simp only [Draw.round0, round0Expected, h.size, Option.bind_eq_bind, Option.bind_eq_some_iff] at hm
  obtain ⟨a', ha, hm⟩ := hm
  split at hm
  · obtain ⟨b, hb, hm⟩ := Option.bind_eq_some_iff.1 hm
    obtain ⟨rfl, rfl⟩ : a' = a ∧ some b = o := by simpa using hm
    exact ⟨ha, by rw [if_pos ‹_›]; exact ⟨b, hb, rfl⟩⟩
  · obtain ⟨rfl, rfl⟩ : a' = a ∧ none = o := by simpa using hm
    exact ⟨ha, by rw [if_neg ‹_›]⟩

end Draws

end BracketChain.Seats
