import BracketChain.Payments
import BracketChain.Splits

namespace BracketChain.Settlements

open Outcome Keys Records Accounts Payout Registration Settlement Envelope Refunds Program Runs Layout View Lifecycle
  RefundEffects Refinement Lives Drain Prizes Events Emissions Announcements Payments Scripts BracketChain.Splits

/-- The figures of a `TournamentCompleted` event: the pool is fee and prizes,
the prizes are paid in full, each of them is funded, and they are in the order
of the places, the champion's first. -/
structure Figures (preset : PayoutPreset) (e : TournamentCompleted) : Prop where
  pool : e.netPool + e.feeAmount = e.grossPool
  fee : e.grossPool ≤ u64Max → e.feeAmount = e.grossPool * protocolFeeBps / bpsDenominator
  whole : (e.placementPayouts.map PlacementPayout.amount).sum = e.netPool
  funded : ∀ p ∈ e.placementPayouts, 0 < p.amount
  places : (e.placementPayouts.map PlacementPayout.place).Pairwise (· < ·)
  ranked : ∀ p ∈ e.placementPayouts, 1 ≤ p.place ∧ p.place ≤ placementCount preset
  champion : ∀ p ∈ e.placementPayouts, p.place = 1 → p.recipient = e.champion

section Payouts

/-- The payouts of shares whose places count on from `k`. -/
def payoutsFrom (k : Nat) (shares : List (Nat × Pubkey)) : List PlacementPayout :=
  (shares.zipIdx k).flatMap fun item =>
    if item.1.1 = 0 then [] else [⟨(item.2 + 1) % 256, item.1.2, item.1.1⟩]

variable {k n : Nat} {shares : List (Nat × Pubkey)} {p : PlacementPayout}

theorem payoutsFrom_cons (k : Nat) (share : Nat × Pubkey) (shares : List (Nat × Pubkey)) :
    payoutsFrom k (share :: shares) =
      (if share.1 = 0 then [] else [⟨(k + 1) % 256, share.2, share.1⟩]) ++ payoutsFrom (k + 1) shares := by
  rw [payoutsFrom, List.zipIdx_cons, List.flatMap_cons]
  rfl

theorem payoutsFrom_sum (k : Nat) (shares : List (Nat × Pubkey)) :
    ((payoutsFrom k shares).map PlacementPayout.amount).sum = (shares.map Prod.fst).sum := by
  induction shares generalizing k with
  | nil => rfl
  | cons share shares ih =>
      rw [payoutsFrom_cons, List.map_append, List.sum_append, ih, List.map_cons, List.sum_cons]
      split <;> rename_i zero
      · rw [zero]; rfl
      · rfl

/-- A payout is one of the shares at its place. -/
theorem mem_payoutsFrom (fits : k + shares.length < 256) (h : p ∈ payoutsFrom k shares) :
    ∃ i, p.place = k + i + 1 ∧ shares[i]? = some (p.amount, p.recipient) ∧ 0 < p.amount := by
  induction shares generalizing k with
  | nil => cases h
  | cons share shares ih =>
      rw [List.length_cons] at fits
      rw [payoutsFrom_cons, List.mem_append] at h
      rcases h with here | later
      · split at here <;> rename_i zero
        · cases here
        · obtain rfl := List.mem_singleton.1 here
          exact ⟨0, Nat.mod_eq_of_lt (by omega), rfl, Nat.pos_of_ne_zero zero⟩
      · obtain ⟨i, place, share', funded⟩ := ih (by omega) later
        exact ⟨i + 1, by omega, share', funded⟩

theorem payoutsFrom_increasing (fits : k + shares.length < 256) :
    ((payoutsFrom k shares).map PlacementPayout.place).Pairwise (· < ·) := by
  induction shares generalizing k with
  | nil => exact .nil
  | cons share shares ih =>
      rw [List.length_cons] at fits
      have rest := ih (k := k + 1) (by omega)
      rw [payoutsFrom_cons]
      split
      · exact rest
      · refine List.pairwise_cons.2 ⟨?_, rest⟩
        intro place mem
        obtain ⟨p, hp, rfl⟩ := List.mem_map.1 mem
        obtain ⟨i, place, _⟩ := mem_payoutsFrom (by omega) hp
        change (k + 1) % 256 < p.place
        rw [place, Nat.mod_eq_of_lt (by omega)]
        omega

end Payouts

theorem placementCount_small (preset : PayoutPreset) : placementCount preset ≤ 8 := by
  have short := placementCount_le preset
  rwa [Vector.length_toList] at short

theorem distributes_figures {preset : PayoutPreset} {gross : Nat} {key winner treasury : Pubkey}
    {placements : List Pubkey} {d : Distribution} (now : Int) (h : Distributes preset gross winner placements d) :
    Figures preset (completion key winner treasury d now) := by
  obtain ⟨pool, fee, net, count, first, amounts, split, payouts⟩ := h
  have small := placementCount_small preset
  obtain ⟨length, sum⟩ := splitPlacements_ok split
  rw [Nat.min_eq_left (placementCount_le preset)] at length
  have paired : (amounts.zip placements).length = placementCount preset := by
    rw [List.length_zip, length, count, Nat.min_self]
  have fits : 0 + (amounts.zip placements).length < 256 := by omega
  have told : d.placementPayouts = payoutsFrom 0 (amounts.zip placements) := payouts
  have listed p (mem : p ∈ d.placementPayouts) := mem_payoutsFrom fits (told ▸ mem)
  have some_ : amounts ≠ [] := by
    rintro rfl
    have none_ : placements = [] := List.length_eq_zero_iff.1 (count.trans length.symm)
    rw [none_] at first
    cases first
  refine ⟨by rw [← pool] at net; exact net, fun bound => ?_, ?_, ?_, ?_, ?_, ?_⟩
  · rw [completion, fee, pool]
    exact (protocolFee_exact (pool ▸ bound)).1
  · rw [completion, told, payoutsFrom_sum, List.map_fst_zip (by omega), sum some_]
  · intro p mem
    obtain ⟨_, _, _, funded⟩ := listed p mem
    exact funded
  · rw [completion, told]
    exact payoutsFrom_increasing fits
  · intro p mem
    obtain ⟨i, place, share, _⟩ := listed p mem
    have inside := (List.getElem?_eq_some_iff.1 share).1
    omega
  · intro p mem champion
    obtain ⟨i, place, share, _⟩ := listed p mem
    obtain rfl : i = 0 := by omega
    rw [List.getElem?_zip_eq_some, first, Option.some.injEq] at share
    exact share.2.symm

end BracketChain.Settlements
