import BracketChain.Apportion
import BracketChain.Backstop

namespace BracketChain.Splits

open Outcome Keys Records Accounts Payout Registration Settlement Apportion Drain Backstop Scripts

/-- The funded slots are the first ones, the champion's among them. -/
def Contiguous (slots : Vector Nat 8) : Prop :=
  ∃ k, 0 < k ∧ ∀ i, (h : i < 8) → (0 < slots[i] ↔ i < k)

/-- The amounts of the funded places: each is its share of the net pool
rounded down, and the champion takes what rounding left. -/
structure ExactSplit (net : Nat) (preset : PayoutPreset) (amounts : List Nat) : Prop where
  length : amounts.length = placementCount preset
  sum : amounts.sum = net
  funded : 0 < amounts.length
  lower : ∀ i, 0 < i → (h : i < amounts.length) → ∃ bps, (basisPoints preset).toList[i]? = some bps ∧
    amounts[i] = net * bps / bpsDenominator
  champion : ∃ bps, (basisPoints preset).toList[0]? = some bps ∧ net * bps / bpsDenominator ≤ amounts[0] ∧
    amounts[0] < net * bps / bpsDenominator + placementCount preset

variable {bs : List Nat} {acc : Bool × Nat} {net : Nat} {preset : PayoutPreset}

section Scans

variable {sum b : Nat}

theorem scan_zero (ended : Bool) : each scanSlot (ended, sum) (0 :: bs) = each scanSlot (true, sum) bs := by
  have pass : scanSlot (ended, sum) 0 = .ok (true, sum) := rfl
  rw [each, pass]
  rfl

theorem scan_positive (pos : b ≠ 0) : each scanSlot (false, sum) (b :: bs) = each scanSlot (false, sum + b) bs := by
  have pass : scanSlot (false, sum) b = .ok (false, sum + b) := by
    simp [scanSlot, pos, require, bind, Except.bind, pure, Except.pure]
  rw [each, pass]
  rfl

theorem scan_stops (pos : b ≠ 0) : each scanSlot (true, sum) (b :: bs) = .error .invalidCustomPayout := by
  have stop : scanSlot (true, sum) b = .error .invalidCustomPayout := by
    simp [scanSlot, pos, require, bind, Except.bind]
  rw [each, stop]
  rfl

/-- After an empty slot, the scan only passes empty slots. -/
theorem scan_ended : each scanSlot (true, sum) bs = .ok acc ↔ (∀ b ∈ bs, b = 0) ∧ acc = (true, sum) := by
  induction bs with
  | nil => simp [each, eq_comm]
  | cons b bs ih =>
      by_cases zero : b = 0
      · subst zero
        rw [scan_zero, ih]
        simp
      · rw [scan_stops zero]
        simp [zero]

/-- What the scan accepts: funded slots, then empty ones. -/
theorem scan_iff {total : Nat} : (∃ ended, each scanSlot (false, sum) bs = .ok (ended, total)) ↔
    ∃ funded k, bs = funded ++ List.replicate k 0 ∧ (∀ b ∈ funded, 0 < b) ∧ total = sum + funded.sum := by
  induction bs generalizing sum with
  | nil =>
      constructor
      · rintro ⟨ended, h⟩
        cases h
        exact ⟨[], 0, rfl, by simp, rfl⟩
      · rintro ⟨funded, k, split, _, sums⟩
        obtain ⟨rfl, _⟩ := List.append_eq_nil_iff.1 split.symm
        exact ⟨false, by rw [sums]; rfl⟩
  | cons b bs ih =>
      by_cases zero : b = 0
      · subst zero
        simp only [scan_zero, scan_ended]
        constructor
        · rintro ⟨ended, zeros, h⟩
          refine ⟨[], bs.length + 1, ?_, by simp, (congrArg Prod.snd h)⟩
          rw [List.replicate_succ, List.nil_append, List.eq_replicate_of_mem zeros, List.length_replicate]
        · rintro ⟨funded, k, split, positive, sums⟩
          cases funded with
          | nil =>
              cases k with
              | zero => cases split
              | succ k =>
                  obtain ⟨_, rfl⟩ := List.cons.inj split
                  exact ⟨true, by simp, by rw [sums]; rfl⟩
          | cons c funded =>
              obtain ⟨rfl, _⟩ := List.cons.inj split
              exact absurd (positive 0 List.mem_cons_self) (lt_irrefl 0)
      · rw [scan_positive zero, ih]
        constructor
        · rintro ⟨funded, k, rfl, positive, sums⟩
          refine ⟨b :: funded, k, rfl, ?_, by rw [sums, List.sum_cons, Nat.add_assoc]⟩
          exact List.forall_mem_cons.2 ⟨Nat.pos_of_ne_zero zero, positive⟩
        · rintro ⟨funded, k, split, positive, sums⟩
          cases funded with
          | nil =>
              cases k with
              | zero => cases split
              | succ k => exact absurd (List.cons.inj split).1 zero
          | cons c funded =>
              obtain ⟨rfl, rfl⟩ := List.cons.inj split
              refine ⟨funded, k, rfl, (List.forall_mem_cons.1 positive).2, ?_⟩
              rw [sums, List.sum_cons, Nat.add_assoc]

end Scans

/-- Funded slots followed by empty ones, the first slot funded. -/
def Funded (table funded : List Nat) : Prop :=
  (∃ k, table = funded ++ List.replicate k 0) ∧ (∀ b ∈ funded, 0 < b) ∧ funded ≠ []

theorem contiguous_iff {slots : Vector Nat 8} : Contiguous slots ↔ ∃ funded, Funded slots.toList funded := by
  constructor
  · rintro ⟨k, pos, funded⟩
    refine ⟨slots.toList.take k, ⟨(slots.toList.drop k).length, ?_⟩, ?_, ?_⟩
    · conv_lhs => rw [← List.take_append_drop k slots.toList]
      congr 1
      refine List.eq_replicate_of_mem fun b mem => ?_
      obtain ⟨i, hi, rfl⟩ := List.getElem_of_mem mem
      rw [List.length_drop, Vector.length_toList] at hi
      have empty := mt (funded (k + i) (by omega)).1 (by omega)
      simpa using empty
    · intro b mem
      obtain ⟨i, hi, rfl⟩ := List.getElem_of_mem mem
      rw [List.length_take, Vector.length_toList] at hi
      simpa using (funded i (by omega)).2 (by omega)
    · intro none
      have short := congrArg List.length none
      rw [List.length_take, Vector.length_toList, List.length_nil] at short
      omega
  · rintro ⟨funded, ⟨k, split⟩, positive, some⟩
    refine ⟨funded.length, List.length_pos_iff.2 some, fun i hi => ?_⟩
    have inside : i < (funded ++ List.replicate k 0).length := by
      rw [← split]
      simpa using hi
    have get : slots[i] = (funded ++ List.replicate k 0)[i] := by
      simp [← split]
    rw [get, List.getElem_append]
    split
    · rename_i inside
      exact ⟨fun _ => inside, fun _ => positive _ (List.getElem_mem inside)⟩
    · rename_i outside
      simp [outside]

theorem first_funded {slots : Vector Nat 8} {funded : List Nat} (h : Funded slots.toList funded) (first : 0 < 8) :
    0 < slots[0] := by
  obtain ⟨k, pos, contiguous⟩ := contiguous_iff.2 ⟨funded, h⟩
  exact (contiguous 0 first).2 pos

theorem validateCustom_iff (slots : Vector Nat 8) : validateCustom (.custom slots) = .ok () ↔
    ∃ funded, Funded slots.toList funded ∧ funded.sum = bpsDenominator := by
  simp only [validateCustom, bind_ok, require_ok]
  constructor
  · rintro ⟨_, first, ⟨ended, total⟩, scanned, rfl⟩
    obtain ⟨funded, k, split, positive, sums⟩ := scan_iff.1 ⟨ended, scanned⟩
    refine ⟨funded, ⟨⟨k, split⟩, positive, ?_⟩, by simpa using sums.symm⟩
    rintro rfl
    have zero : slots[0] ∈ List.replicate k 0 := by
      rw [List.nil_append] at split
      rw [← split]
      simp
    exact absurd (List.eq_of_mem_replicate zero) first.ne'
  · rintro ⟨funded, shape, sums⟩
    obtain ⟨⟨k, split⟩, positive, some⟩ := shape
    obtain ⟨ended, scanned⟩ := scan_iff.2 ⟨funded, k, split, positive, (Nat.zero_add _).symm⟩
    exact ⟨(), first_funded ⟨⟨k, split⟩, positive, some⟩ (by decide), (ended, funded.sum), scanned, sums⟩

/-- Every preset that passes its check is funded in full. -/
theorem basisPoints_funded (h : validateCustom preset = .ok ()) :
    ∃ funded, Funded (basisPoints preset).toList funded ∧ funded.sum = bpsDenominator := by
  cases preset with
  | winnerTakesAll => exact ⟨[10000], ⟨⟨7, rfl⟩, by decide, by decide⟩, rfl⟩
  | standard => exact ⟨[6000, 2500, 1500], ⟨⟨5, rfl⟩, by decide, by decide⟩, rfl⟩
  | deep => exact ⟨[4000, 2500, 1500, 1000, 500, 300, 200], ⟨⟨1, rfl⟩, by decide, by decide⟩, rfl⟩
  | custom slots => exact (validateCustom_iff slots).1 h

theorem placementCount_funded {funded : List Nat} (h : Funded (basisPoints preset).toList funded) :
    placementCount preset = funded.length := by
  obtain ⟨⟨k, split⟩, positive, _⟩ := h
  rw [placementCount, split, List.filter_append, List.length_append]
  have all : funded.filter (fun bps => 0 < bps) = funded := List.filter_eq_self.2 (by simpa using positive)
  have none : (List.replicate k 0).filter (fun bps => decide (0 < bps)) = [] := by simp
  rw [all, none, List.length_nil, Nat.add_zero]

theorem lowerSum_succeeds (lower : List Nat) (acc : Nat) (fits : acc + lower.sum ≤ u64Max) :
    each (fun acc a => orThrow (checkedAdd u64Max acc a) Error.arithmeticOverflow) acc lower = .ok (acc + lower.sum) := by
  induction lower generalizing acc with
  | nil => rfl
  | cons a lower ih =>
      rw [List.sum_cons, ← Nat.add_assoc] at fits ⊢
      refine (each_cons_ok _ _ _ _ _).2 ⟨acc + a, ?_, ih _ fits⟩
      exact (orThrow_ok _ _ _).2 ((checkedAdd_eq_some _ _ _ _).2 ⟨by omega, rfl⟩)

section Split

variable {funded : List Nat} (shape : Funded (basisPoints preset).toList funded) (whole : funded.sum = bpsDenominator)
  (fits : net ≤ u64Max)
include shape whole fits

/-- On a table that is funded in full no share is truncated. -/
theorem shares_eq_floors : ((basisPoints preset).toList.take (placementCount preset)).map
    (fun bps => net * bps / bpsDenominator % (u64Max + 1)) = floors net bpsDenominator funded := by
  have taken : (basisPoints preset).toList.take (placementCount preset) = funded := by
    obtain ⟨k, split⟩ := shape.1
    rw [placementCount_funded shape, split, List.take_left]
  rw [taken]
  refine List.map_congr_left fun bps mem => Nat.mod_eq_of_lt ?_
  have within := floor_le_whole (n := net) whole mem
  omega

theorem splitPlacements_exact : ∃ amounts,
    splitPlacements net (basisPoints preset).toList (placementCount preset) = .ok amounts ∧
      ExactSplit net preset amounts := by
  have within := floors_sum_le_whole (n := net) (by decide) whole
  have lost := whole_lt_floors_sum (n := net) (by decide) whole
  have count := placementCount_funded shape
  obtain ⟨⟨k, split⟩, _, some⟩ := id shape
  obtain ⟨first, rest, rfl⟩ := List.exists_cons_of_ne_nil some
  have shares := shares_eq_floors shape whole fits
  let lower := floors net bpsDenominator rest
  have apart : floors net bpsDenominator (first :: rest) = net * first / bpsDenominator :: lower := rfl
  rw [apart, List.sum_cons] at within lost
  have below : lower.sum ≤ net := (Nat.le_add_left _ _).trans within
  have summed := lowerSum_succeeds lower 0 (by omega)
  rw [Nat.zero_add] at summed
  refine ⟨(net - lower.sum) :: lower, ?_, ?_⟩
  · simp only [splitPlacements, shares, apart, summed]
    simp [bind, Except.bind, require, pure, Except.pure, below]
  · have entry (i : Nat) (h : i < (first :: rest).length) :
        (basisPoints preset).toList[i]? = Option.some (first :: rest)[i] := by
      rw [split, List.getElem?_append_left h, List.getElem?_eq_getElem h]
    have length : ((net - lower.sum) :: lower).length = placementCount preset := by
      rw [count, List.length_cons, List.length_cons, floors_length]
    refine ⟨length, ?_, Nat.succ_pos _, ?_, first, entry 0 (Nat.succ_pos _), ?_, ?_⟩
    · rw [List.sum_cons]
      omega
    · intro i pos h
      rw [length, count] at h
      refine ⟨_, entry i h, ?_⟩
      obtain ⟨j, rfl⟩ := Nat.exists_eq_succ_of_ne_zero pos.ne'
      exact floors_get _ _
    · rw [List.getElem_cons_zero]
      exact Nat.le_sub_of_add_le within
    · rw [List.getElem_cons_zero, count]
      generalize net * first / bpsDenominator = share at lost
      omega

end Split

theorem created_valid {rt : Runtime} {a : CreateTournament} {s s' : Ledger} (h : createTournament rt a s = .ok s') :
    validateCustom a.payoutPreset = .ok () := by
  simp only [createTournament, bind_ok] at h
  obtain ⟨_, _, _, _, _, _, _, _, _, _, _, checked, _⟩ := h
  simp only [CreateTournament.check, bind_ok] at checked
  obtain ⟨_, _, _, _, _, _, _, _, _, valid, _⟩ := checked
  exact valid

theorem protocolFee_exact {gross : Nat} (fits : gross ≤ u64Max) :
    protocolFee gross = gross * protocolFeeBps / bpsDenominator ∧ protocolFee gross ≤ gross := by
  refine ⟨Nat.mod_eq_of_lt ?_, protocolFee_le gross⟩
  simp only [protocolFeeBps, bpsDenominator]
  omega

/-- Largest value of the intermediate products. -/
def u128Max : Nat := 340282366920938463463374607431768211455

theorem product_fits {funded : List Nat} {bps : Nat} (shape : Funded (basisPoints preset).toList funded)
    (whole : funded.sum = bpsDenominator) (fits : net ≤ u64Max) (mem : bps ∈ (basisPoints preset).toList) :
    net * bps ≤ u128Max := by
  have share : bps ≤ bpsDenominator := by
    obtain ⟨k, split⟩ := shape.1
    have total : (basisPoints preset).toList.sum = bpsDenominator := by rw [split]; simp [whole]
    exact total ▸ List.single_le_sum (by simp) bps mem
  calc net * bps ≤ u64Max * bpsDenominator := Nat.mul_le_mul fits share
    _ ≤ u128Max := by decide

/-- The check accepts exactly the contiguous splits of the whole, and every
pool is divided exactly under every preset that a tournament is created with. -/
theorem payout_exact :
    (∀ slots : Vector Nat 8, validateCustom (.custom slots) = .ok () ↔
      Contiguous slots ∧ slots.toList.sum = bpsDenominator) ∧
    ∀ (rt : Runtime) (a : CreateTournament) (s s' : Ledger), createTournament rt a s = .ok s' →
      ∀ gross ≤ u64Max, gross * protocolFeeBps ≤ u128Max ∧
        protocolFee gross = gross * protocolFeeBps / bpsDenominator ∧ protocolFee gross ≤ gross ∧
        (∀ bps ∈ (basisPoints a.payoutPreset).toList, (gross - protocolFee gross) * bps ≤ u128Max) ∧
        ∃ amounts, splitPlacements (gross - protocolFee gross) (basisPoints a.payoutPreset).toList
          (placementCount a.payoutPreset) = .ok amounts ∧
          ExactSplit (gross - protocolFee gross) a.payoutPreset amounts := by
  constructor
  · intro slots
    rw [validateCustom_iff, contiguous_iff]
    constructor
    · rintro ⟨funded, shape, whole⟩
      obtain ⟨k, split⟩ := shape.1
      refine ⟨⟨funded, shape⟩, ?_⟩
      rw [split]
      simpa using whole
    · rintro ⟨⟨funded, shape⟩, whole⟩
      obtain ⟨k, split⟩ := shape.1
      refine ⟨funded, shape, ?_⟩
      rw [split] at whole
      simpa using whole
  · intro rt a s s' created gross fits
    obtain ⟨funded, shape, whole⟩ := basisPoints_funded (created_valid created)
    obtain ⟨fee, within⟩ := protocolFee_exact fits
    have net : gross - protocolFee gross ≤ u64Max := (Nat.sub_le _ _).trans fits
    refine ⟨?_, fee, within, fun bps => product_fits shape whole net, splitPlacements_exact shape whole net⟩
    calc gross * protocolFeeBps ≤ u64Max * protocolFeeBps := Nat.mul_le_mul_right _ fits
      _ ≤ u128Max := by decide

def customTournament : CreateTournament :=
  { sampleTournament with payoutPreset := .custom #v[5000, 3000, 2000, 0, 0, 0, 0, 0] }

theorem customTournament_created :
    ∃ s', createTournament sampleRuntime customTournament sampleBorn = .ok s' := ⟨_, rfl⟩

theorem customTournament_payout : Contiguous #v[5000, 3000, 2000, 0, 0, 0, 0, 0] ∧
    protocolFee 101 = 101 * protocolFeeBps / bpsDenominator ∧
    ∃ amounts, splitPlacements (101 - protocolFee 101) (basisPoints customTournament.payoutPreset).toList
      (placementCount customTournament.payoutPreset) = .ok amounts ∧
      ExactSplit (101 - protocolFee 101) customTournament.payoutPreset amounts := by
  obtain ⟨s', created⟩ := customTournament_created
  have exact := payout_exact.2 sampleRuntime customTournament sampleBorn s' created 101 (by decide)
  exact ⟨((payout_exact.1 _).1 rfl).1, exact.2.1, exact.2.2.2.2⟩

end BracketChain.Splits
