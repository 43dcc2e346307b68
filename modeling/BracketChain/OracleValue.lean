import BracketChain.Envelope
import Mathlib.Algebra.Order.Field.Rat
import Mathlib.Tactic.Linarith
import Mathlib.Tactic.NormNum

namespace BracketChain.OracleValue

open Keys Records Envelope

/-- The number that a mantissa and a scale stand for. -/
def numeral (value : Int × Nat) : ℚ := value.1 / 10 ^ value.2

/-- Zero names one player, one names the other, and nothing else names any. -/
structure NamesExactly (value : Int × Nat) (playerA playerB : Pubkey) : Prop where
  first : resolveOracleWinner value playerA playerB = .ok playerA ↔ numeral value = 0
  second : resolveOracleWinner value playerA playerB = .ok playerB ↔ numeral value = 1
  neither : numeral value ≠ 0 → numeral value ≠ 1 →
    resolveOracleWinner value playerA playerB = .error .oracleWinnerNotInMatch

variable {value : Int × Nat}

theorem numeral_neg : numeral value < 0 ↔ value.1 < 0 := by
  rw [numeral, div_lt_iff₀ (by positivity), zero_mul]
  exact_mod_cast Iff.rfl

theorem numeral_lt (nonneg : 0 ≤ value.1) (n : Nat) : numeral value < n ↔ value.1.toNat / 10 ^ value.2 < n := by
  obtain ⟨k, hk⟩ := Int.eq_ofNat_of_zero_le nonneg
  rw [numeral, hk, Int.toNat_natCast, div_lt_iff₀ (by positivity), Nat.div_lt_iff_lt_mul (by positivity)]
  exact_mod_cast Iff.rfl

/-- The part of the value behind its point is dropped. -/
theorem resolve_eq (value : Int × Nat) (playerA playerB : Pubkey) : resolveOracleWinner value playerA playerB =
    if numeral value < 0 then .error .oracleWinnerNotInMatch
    else if numeral value < 1 then .ok playerA
    else if numeral value < 2 then .ok playerB
    else .error .oracleWinnerNotInMatch := by
  by_cases below : value.1 < 0
  · rw [if_pos (numeral_neg.2 below)]
    simp [resolveOracleWinner, decimalToU64, below]
  · rw [if_neg (mt numeral_neg.1 below)]
    have one := numeral_lt (not_lt.1 below) 1
    have two := numeral_lt (not_lt.1 below) 2
    rw [Nat.cast_one] at one
    rw [Nat.cast_ofNat] at two
    simp only [resolveOracleWinner, decimalToU64, if_neg below, one, two]
    generalize value.1.toNat / 10 ^ value.2 = n
    match n with
    | 0 | 1 => simp [u64Max]
    | n + 2 =>
        rw [if_neg (show ¬ n + 2 < 1 by omega), if_neg (show ¬ n + 2 < 2 by omega)]
        split <;> simp_all

theorem names_of_outside (playerA playerB : Pubkey) (outside : numeral value < 0 ∨ 2 ≤ numeral value) :
    NamesExactly value playerA playerB := by
  have refused : resolveOracleWinner value playerA playerB = .error .oracleWinnerNotInMatch := by
    rw [resolve_eq]
    rcases outside with negative | large
    · rw [if_pos negative]
    · rw [if_neg (by linarith), if_neg (by linarith), if_neg (by linarith)]
  have zero : numeral value ≠ 0 := by
    intro zero
    rcases outside with negative | large <;> linarith
  have one : numeral value ≠ 1 := by
    intro one
    rcases outside with negative | large <;> linarith
  exact ⟨by simp [refused, zero], by simp [refused, one], fun _ _ => refused⟩

/-- The whitelist is kept exactly by the values that are whole or out of
range: a fraction between zero and two names the player of its whole part. -/
theorem namesExactly_iff (value : Int × Nat) {playerA playerB : Pubkey} (distinct : playerA ≠ playerB) :
    NamesExactly value playerA playerB ↔ numeral value < 0 ∨ 2 ≤ numeral value ∨ ∃ i : Int, numeral value = i := by
  have resolved := resolve_eq value playerA playerB
  constructor
  · intro names
    by_contra between
    simp only [not_or, not_lt, not_le, not_exists] at between
    obtain ⟨nonneg, below, fraction⟩ := between
    rw [if_neg (not_lt.2 nonneg), if_pos below] at resolved
    split at resolved
    · exact fraction 0 (by exact_mod_cast names.first.1 resolved)
    · exact fraction 1 (by exact_mod_cast names.second.1 resolved)
  · rintro (negative | large | ⟨i, whole⟩)
    · exact names_of_outside playerA playerB (.inl negative)
    · exact names_of_outside playerA playerB (.inr large)
    · obtain negative | rfl | rfl | large : i < 0 ∨ i = 0 ∨ i = 1 ∨ 2 ≤ i := by omega
      · refine names_of_outside playerA playerB (.inl ?_)
        rw [whole]
        exact_mod_cast negative
      · rw [whole] at resolved
        norm_num at resolved
        refine ⟨by simp [resolved, whole], by simp [resolved, whole, distinct], fun zero => absurd ?_ zero⟩
        simpa using whole
      · rw [whole] at resolved
        norm_num at resolved
        refine ⟨by simp [resolved, whole, distinct.symm], by simp [resolved, whole], fun _ one => absurd ?_ one⟩
        simpa using whole
      · refine names_of_outside playerA playerB (.inr ?_)
        rw [whole]
        exact_mod_cast large

/-- A median of one half names the first player. -/
theorem half_names_first : ¬ NamesExactly (500000000000000000, 18) (.key 1) (.key 2) := by
  intro names
  have zero := names.first.1 rfl
  norm_num [numeral] at zero

theorem whole_names : NamesExactly (1000000000000000000, 18) (.key 1) (.key 2) :=
  (namesExactly_iff (1000000000000000000, 18) (by decide)).2 (.inr (.inr ⟨1, by norm_num [numeral]⟩))

end BracketChain.OracleValue
