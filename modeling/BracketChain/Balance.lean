import Mathlib.Algebra.BigOperators.Group.Finset.Basic
import Mathlib.Algebra.Order.BigOperators.Group.Finset

namespace BracketChain.Balance

variable {α : Type} {f g h : α → ℕ}

/-- Two distributions that differ in finitely many places, and have the same
sum over these. -/
def Balanced (f g : α → ℕ) : Prop := ∃ T : Finset α, (∀ p ∉ T, g p = f p) ∧ ∑ p ∈ T, g p = ∑ p ∈ T, f p

theorem Balanced.refl (f : α → ℕ) : Balanced f f := ⟨∅, fun _ _ => rfl, rfl⟩

theorem Balanced.of_eq (same : ∀ p, g p = f p) : Balanced f g := by
  rw [funext same]
  exact .refl f

/-- The same on both sides keeps the balance. -/
theorem Balanced.add (b : Balanced f g) (k : α → ℕ) : Balanced (fun p => f p + k p) fun p => g p + k p := by
  obtain ⟨T, unchanged, same⟩ := b
  refine ⟨T, fun p hp => congrArg (· + k p) (unchanged p hp), ?_⟩
  rw [Finset.sum_add_distrib, Finset.sum_add_distrib, same]

variable [DecidableEq α]

/-- Over places that hold all that changed, the sums are the same. -/
theorem Balanced.sum_eq (b : Balanced f g) {S : Finset α} (outside : ∀ p ∉ S, g p = f p) :
    ∑ p ∈ S, g p = ∑ p ∈ S, f p := by
  obtain ⟨T, unchanged, same⟩ := b
  have onT : ∑ p ∈ S ∪ T, g p = ∑ p ∈ S ∪ T, f p := by
    have rest : ∑ p ∈ (S ∪ T) \ T, g p = ∑ p ∈ (S ∪ T) \ T, f p :=
      Finset.sum_congr rfl fun p hp => unchanged p (Finset.mem_sdiff.1 hp).2
    rw [← Finset.sum_sdiff Finset.subset_union_right, rest, same, Finset.sum_sdiff Finset.subset_union_right]
  have rest : ∑ p ∈ (S ∪ T) \ S, g p = ∑ p ∈ (S ∪ T) \ S, f p :=
    Finset.sum_congr rfl fun p hp => outside p (Finset.mem_sdiff.1 hp).2
  have split (k : α → ℕ) : ∑ p ∈ (S ∪ T) \ S, k p + ∑ p ∈ S, k p = ∑ p ∈ S ∪ T, k p :=
    Finset.sum_sdiff Finset.subset_union_left
  rw [← split g, ← split f, rest] at onT
  exact Nat.add_left_cancel onT

theorem Balanced.trans (b : Balanced f g) (b' : Balanced g h) : Balanced f h := by
  obtain ⟨T, unchanged, same⟩ := b
  obtain ⟨T', unchanged', same'⟩ := b'
  have wide : ∀ p ∉ T ∪ T', g p = f p := fun p hp => unchanged p fun hT => hp (Finset.mem_union_left _ hT)
  have wide' : ∀ p ∉ T ∪ T', h p = g p := fun p hp => unchanged' p fun hT => hp (Finset.mem_union_right _ hT)
  refine ⟨T ∪ T', fun p hp => (wide' p hp).trans (wide p hp), ?_⟩
  exact (Balanced.sum_eq ⟨T', unchanged', same'⟩ wide').trans (Balanced.sum_eq ⟨T, unchanged, same⟩ wide)

/-- A bound on all sums outlasts a balanced change. -/
theorem Balanced.bounded (b : Balanced f g) {most : ℕ} (bound : ∀ S : Finset α, ∑ p ∈ S, f p ≤ most) (S : Finset α) :
    ∑ p ∈ S, g p ≤ most := by
  obtain ⟨T, unchanged, same⟩ := b
  have outside : ∀ p ∉ S ∪ T, g p = f p := fun p hp => unchanged p fun hT => hp (Finset.mem_union_right _ hT)
  calc ∑ p ∈ S, g p ≤ ∑ p ∈ S ∪ T, g p := Finset.sum_le_sum_of_subset Finset.subset_union_left
    _ = ∑ p ∈ S ∪ T, f p := Balanced.sum_eq ⟨T, unchanged, same⟩ outside
    _ ≤ most := bound (S ∪ T)

/-- Two places that change by the same amount in opposite directions. -/
theorem Balanced.pair {p q : α} (apart : p ≠ q) (sum : g p + g q = f p + f q)
    (others : ∀ r, r ≠ p → r ≠ q → g r = f r) : Balanced f g := by
  refine ⟨{p, q}, fun r hr => ?_, ?_⟩
  · rw [Finset.mem_insert, Finset.mem_singleton, not_or] at hr
    exact others r hr.1 hr.2
  · rw [Finset.sum_pair apart, Finset.sum_pair apart]
    exact sum

theorem Balanced.move {p q : α} {amount : ℕ} (apart : p ≠ q) (enough : amount ≤ f p) :
    Balanced f (Function.update (Function.update f p (f p - amount)) q (f q + amount)) := by
  refine .pair apart ?_ fun r hp hq => ?_
  · rw [Function.update_self, Function.update_of_ne apart, Function.update_self]
    omega
  · rw [Function.update_of_ne hq, Function.update_of_ne hp]

/-- Changes that balance what comes in against what goes out, one after the
other. -/
theorem Balanced.metered {i i' o o' : α → ℕ} (first : Balanced (fun p => f p + i p) fun p => g p + o p)
    (rest : Balanced (fun p => g p + i' p) fun p => h p + o' p) :
    Balanced (fun p => f p + (i p + i' p)) fun p => h p + (o p + o' p) := by
  have before : Balanced (fun p => f p + (i p + i' p)) fun p => g p + i' p + o p := by
    simpa only [Nat.add_assoc, Nat.add_comm (o _)] using first.add i'
  have after : Balanced (fun p => g p + i' p + o p) fun p => h p + (o p + o' p) := by
    simpa only [Nat.add_assoc, Nat.add_comm (o' _)] using rest.add o
  exact before.trans after

/-- A sequence of balanced changes is balanced. -/
theorem Balanced.chain {σ : Type} {r : σ → σ → Prop} (value : σ → α → ℕ)
    (step : ∀ s t, r s t → Balanced (value s) (value t)) {s t : σ}
    (path : Relation.ReflTransGen r s t) : Balanced (value s) (value t) := by
  induction path with
  | refl => exact .refl _
  | tail _ last ih => exact ih.trans (step _ _ last)

end BracketChain.Balance
