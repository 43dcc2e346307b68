import Mathlib.Data.List.Nodup

namespace BracketChain.Mirror

/-- The ranks that meet in match `m` of `h` matches: rank `m` and its mirror
image, which is left out when it is not below `n`. -/
def ranks (h n m : Nat) : List Nat := if 2 * h - 1 - m < n then [m, 2 * h - 1 - m] else [m]

variable {h n : Nat}

theorem mem_ranks {m r : Nat} : r ∈ ranks h n m ↔ r = m ∨ (r = 2 * h - 1 - m ∧ r < n) := by
  unfold ranks
  split
  · rename_i inside
    simp only [List.mem_cons, List.not_mem_nil, or_false]
    constructor
    · rintro (rfl | rfl)
      · exact .inl rfl
      · exact .inr ⟨rfl, inside⟩
    · rintro (rfl | ⟨rfl, _⟩)
      · exact .inl rfl
      · exact .inr rfl
  · rename_i outside
    simp only [List.mem_singleton]
    constructor
    · exact .inl
    · rintro (rfl | ⟨rfl, below⟩)
      · rfl
      · exact absurd below outside

theorem ranks_nodup {m : Nat} (hm : m < h) : (ranks h n m).Nodup := by
  unfold ranks
  split
  · refine List.nodup_cons.2 ⟨?_, List.nodup_singleton _⟩
    rw [List.mem_singleton]
    omega
  · exact List.nodup_singleton _

/-- Together the matches of the first round seat every rank once. -/
theorem ranks_perm (low : h ≤ n) (high : n ≤ 2 * h) : ((List.range h).flatMap (ranks h n)).Perm (List.range n) := by
  refine (List.perm_ext_iff_of_nodup ?_ List.nodup_range).2 fun r => ?_
  · refine List.nodup_flatMap.2 ⟨fun m hm => ranks_nodup (List.mem_range.1 hm), ?_⟩
    refine List.Nodup.pairwise_of_forall_ne List.nodup_range fun m hm m' hm' apart r hr hr' => ?_
    rw [List.mem_range] at hm hm'
    rw [mem_ranks] at hr hr'
    omega
  · simp only [List.mem_flatMap, List.mem_range, mem_ranks]
    constructor
    · rintro ⟨m, hm, rfl | ⟨_, below⟩⟩
      · omega
      · exact below
    · intro hr
      by_cases upper : r < h
      · exact ⟨r, upper, .inl rfl⟩
      · exact ⟨2 * h - 1 - r, by omega, .inr ⟨by omega, hr⟩⟩

theorem countP_below {j : Nat} (low : j ≤ h) : (List.range h).countP (fun m => m < j) = j := by
  obtain ⟨i, rfl⟩ := Nat.exists_eq_add_of_le low
  have first : (List.range j).countP (fun m => decide (m < j)) = j := by
    rw [List.countP_eq_length.2 fun m hm => by simpa using hm, List.length_range]
  simp [List.range_add, List.countP_map, Function.comp_def, first]

end BracketChain.Mirror
