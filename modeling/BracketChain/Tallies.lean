import Mathlib.Data.Set.Card

namespace BracketChain.Tallies

variable {ι ρ α : Type} {P : ρ → Prop} {f : ι → Option ρ} {i : ι}

/-- The places of a table whose entry has a property. -/
def having (P : ρ → Prop) (f : ι → Option ρ) : Set ι := {i | ∃ o, f i = some o ∧ P o}

theorem having_mono {Q : ρ → Prop} (h : ∀ o, P o → Q o) (f : ι → Option ρ) : having P f ⊆ having Q f :=
  fun _ hi => hi.imp fun o ho => ho.imp_right (h o)

/-- A new entry counts once for each property that it has. -/
theorem encard_update [DecidableEq ι] [DecidablePred P] (new : f i = none) (o : ρ) :
    (having P (Function.update f i (some o))).encard = (having P f).encard + if P o then 1 else 0 := by
  have absent : i ∉ having P f := by simp [having, new]
  have old (j : ι) (hj : j ≠ i) : j ∈ having P (Function.update f i (some o)) ↔ j ∈ having P f := by
    simp [having, hj]
  by_cases ho : P o
  · have more : having P (Function.update f i (some o)) = insert i (having P f) := by
      ext j
      by_cases hj : j = i
      · subst hj
        simp [having, ho]
      · simp [old j hj, hj]
    rw [more, Set.encard_insert_of_notMem absent, if_pos ho]
  · have same : having P (Function.update f i (some o)) = having P f := by
      ext j
      by_cases hj : j = i
      · subst hj
        simp [having, ho, new]
      · exact old j hj
    rw [same, if_neg ho, add_zero]

theorem encard_fibers {ws : List α} (distinct : ws.Nodup) (g : ρ → α) (f : ι → Option ρ) :
    (ws.map fun w => (having (fun o => g o = w) f).encard).sum = (having (fun o => g o ∈ ws) f).encard := by
  induction ws with
  | nil => simp [having]
  | cons w ws ih =>
      obtain ⟨new, distinct⟩ := List.nodup_cons.1 distinct
      have split : having (fun o => g o ∈ w :: ws) f = having (fun o => g o = w) f ∪ having (fun o => g o ∈ ws) f := by
        ext i
        simp only [having, List.mem_cons, and_or_left, exists_or, Set.mem_union, Set.mem_ofPred_eq]
      have apart : Disjoint (having (fun o => g o = w) f) (having (fun o => g o ∈ ws) f) := by
        refine Set.disjoint_left.2 fun i hi hi' => ?_
        obtain ⟨o, ho, rfl⟩ := hi
        obtain ⟨o', ho', mem⟩ := hi'
        obtain rfl := Option.some.inj (ho.symm.trans ho')
        exact new mem
      rw [split, Set.encard_union_eq apart, List.map_cons, List.sum_cons, ih distinct]

/-- The entries of a table, counted by the value that each has on a list. -/
theorem encard_sum {ws : List α} (distinct : ws.Nodup) {g : ρ → α} (listed : ∀ i o, f i = some o → g o ∈ ws) :
    (ws.map fun w => (having (fun o => g o = w) f).encard).sum = (having (fun _ => True) f).encard := by
  rw [encard_fibers distinct]
  refine congrArg Set.encard (Set.Subset.antisymm (having_mono (fun _ _ => trivial) f) fun i hi => ?_)
  obtain ⟨o, ho, _⟩ := hi
  exact ⟨o, ho, listed i o ho⟩

end BracketChain.Tallies
