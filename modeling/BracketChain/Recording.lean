import BracketChain.Outcome
import Mathlib.Data.List.Basic

namespace BracketChain.Recording

open Outcome

variable {ε σ ι ω β : Type}

/-- A list of updates applied in order, each of which may report something. -/
def eachReporting (f : σ → ι → Except ε (σ × List ω)) : σ → List ι → Except ε (σ × List ω)
  | s, [] => .ok (s, [])
  | s, i :: is => f s i >>= fun first => (eachReporting f first.1 is).map fun rest => (rest.1, first.2 ++ rest.2)

theorem map_ok (x : Except ε σ) (k : σ → β) (b : β) : x.map k = .ok b ↔ ∃ a, x = .ok a ∧ k a = b := by
  cases x <;> simp [Except.map]

theorem eachReporting_cons_ok {f : σ → ι → Except ε (σ × List ω)} {s t : σ} {i : ι} {is : List ι} {reports : List ω} :
    eachReporting f s (i :: is) = .ok (t, reports) ↔ ∃ u first rest, f s i = .ok (u, first) ∧
      eachReporting f u is = .ok (t, rest) ∧ reports = first ++ rest := by
  simp only [eachReporting, bind_ok, map_ok, Prod.exists, Prod.mk.injEq]
  constructor
  · rintro ⟨u, first, hu, t', rest, hrest, rfl, rfl⟩
    exact ⟨u, first, rest, hu, hrest, rfl⟩
  · rintro ⟨u, first, rest, hu, hrest, rfl⟩
    exact ⟨u, first, hu, t, rest, hrest, rfl, rfl⟩

/-- The reports aside, a reporting update does what the plain one does. -/
theorem eachReporting_state {f : σ → ι → Except ε (σ × List ω)} {g : σ → β → Except ε σ} {k : ι → β}
    (same : ∀ s i, (f s i).map Prod.fst = g s (k i)) (s : σ) (is : List ι) :
    (eachReporting f s is).map Prod.fst = each g s (is.map k) := by
  induction is generalizing s with
  | nil => rfl
  | cons i is ih =>
      rw [eachReporting, List.map_cons, each, ← same, bind_map, map_bind]
      refine bind_ok_congr fun first _ => ?_
      rw [← ih]
      cases eachReporting f first.1 is <;> rfl

theorem eachReporting_plain {f : σ → ι → Except ε (σ × List ω)} {g : σ → ι → Except ε σ}
    (same : ∀ s i, (f s i).map Prod.fst = g s i) (s : σ) (is : List ι) :
    (eachReporting f s is).map Prod.fst = each g s is := by
  simpa using eachReporting_state (k := id) same s is

theorem eachReporting_reports {f : σ → ι → Except ε (σ × List ω)} {g : ι → List ω}
    (told : ∀ s i t reports, f s i = .ok (t, reports) → reports = g i) {is : List ι} {s t : σ} {reports : List ω}
    (h : eachReporting f s is = .ok (t, reports)) : reports = is.flatMap g := by
  induction is generalizing s reports with
  | nil => exact (Prod.mk.inj (Except.ok.inj h)).2.symm
  | cons i is ih =>
      obtain ⟨u, first, rest, hu, hrest, rfl⟩ := eachReporting_cons_ok.1 h
      rw [List.flatMap_cons, told _ _ _ _ hu, ih hrest]

/-- A relation between states and reports that single updates have, and that
composes, holds for the whole list. -/
theorem eachReporting_related {f : σ → ι → Except ε (σ × List ω)} {R : σ → σ → List ω → Prop}
    (refl : ∀ s, R s s []) (trans : ∀ s t u first rest, R s t first → R t u rest → R s u (first ++ rest))
    (step : ∀ s i t reports, f s i = .ok (t, reports) → R s t reports) {is : List ι} {s t : σ} {reports : List ω}
    (h : eachReporting f s is = .ok (t, reports)) : R s t reports := by
  induction is generalizing s reports with
  | nil =>
      obtain ⟨rfl, rfl⟩ := Prod.mk.inj (Except.ok.inj h)
      exact refl s
  | cons i is ih =>
      obtain ⟨u, first, rest, hu, hrest, rfl⟩ := eachReporting_cons_ok.1 h
      exact trans _ _ _ _ _ (step s i u first hu) (ih hrest)

end BracketChain.Recording
