import BracketChain.Elimination

namespace BracketChain.Knockout

open Elimination

variable {α : Type}

def Seats (b : Board α) (p : Nat × Nat) (w : α) : Prop := b.left p = some w ∨ b.right p = some w

/-- In the first round everyone on a list has one seat, and nobody else has. -/
structure FirstRound (b : Board α) (k : Nat) (ws : List α) : Prop where
  apart : ∀ m w, (0, m) ∈ grid k → b.left (0, m) = some w → b.right (0, m) ≠ some w
  once : ∀ m m' w, (0, m) ∈ grid k → (0, m') ∈ grid k → Seats b (0, m) w → Seats b (0, m') w → m = m'
  listed : ∀ w, w ∈ ws ↔ ∃ m, (0, m) ∈ grid k ∧ Seats b (0, m) w

variable {b b' : Board α} {k r m m' : Nat} {p p' : Nat × Nat} {w : α} {ws : List α}

theorem FirstRound.congr (d : FirstRound b k ws) (left : ∀ m, (0, m) ∈ grid k → b'.left (0, m) = b.left (0, m))
    (right : ∀ m, (0, m) ∈ grid k → b'.right (0, m) = b.right (0, m)) : FirstRound b' k ws := by
  have seats {m : Nat} (mem : (0, m) ∈ grid k) (w : α) : Seats b' (0, m) w ↔ Seats b (0, m) w := by
    rw [Seats, Seats, left m mem, right m mem]
  refine ⟨fun m w mem hl => ?_, fun m m' w mem mem' hs hs' => ?_, fun w => ?_⟩
  · rw [right m mem]
    exact d.apart m w mem (left m mem ▸ hl)
  · exact d.once m m' w mem mem' ((seats mem w).1 hs) ((seats mem' w).1 hs')
  · rw [d.listed w]
    exact exists_congr fun m => and_congr_right fun mem => (seats mem w).symm

section Players

variable (h : b.Valid k) (d : FirstRound b k ws)
include h d

theorem seats_listed (mem : p ∈ grid k) (seated : Seats b p w) : w ∈ ws := by
  obtain ⟨m₀, _, first, seated, _⟩ := h.way (r := p.1) (m := p.2) mem seated
  exact (d.listed w).2 ⟨m₀, first, seated⟩

theorem seats_once (mem : (r, m) ∈ grid k) (mem' : (r, m') ∈ grid k) (seated : Seats b (r, m) w)
    (seated' : Seats b (r, m') w) : m = m' := by
  obtain ⟨m₀, rfl, first, ground, _⟩ := h.way mem seated
  obtain ⟨m₀', rfl, first', ground', _⟩ := h.way mem' seated'
  rw [d.once m₀ m₀' w first first' ground ground']

/-- Nobody plays against itself. -/
theorem seats_apart (mem : p ∈ grid k) (hl : b.left p = some w) : b.right p ≠ some w := by
  obtain ⟨r, m⟩ := p
  intro hr
  cases r with
  | zero => exact d.apart m w mem hl hr
  | succ r =>
      rw [h.left r m mem] at hl
      rw [h.right r m mem] at hr
      have same := seats_once h d (left_mem mem) (right_mem mem) (h.won _ (left_mem mem) w hl)
        (h.won _ (right_mem mem) w hr)
      omega

/-- There is at most one match that a player has and has not won. -/
theorem unwon_once (mem : p ∈ grid k) (mem' : p' ∈ grid k) (seated : Seats b p w) (seated' : Seats b p' w)
    (unwon : b.winner p ≠ some w) (unwon' : b.winner p' ≠ some w) : p = p' := by
  obtain ⟨r, m⟩ := p
  obtain ⟨r', m'⟩ := p'
  obtain ⟨m₀, hm, first, ground, up⟩ := h.way mem seated
  obtain ⟨m₀', hm', first', ground', up'⟩ := h.way mem' seated'
  obtain rfl := d.once m₀ m₀' w first first' ground ground'
  rcases Nat.lt_trichotomy r r' with below | rfl | above
  · exact absurd (hm ▸ up' r below) unwon
  · rw [← hm, ← hm']
  · exact absurd (hm' ▸ up r' above) unwon'

end Players

/-- The last match is won by the one who wins all its matches. -/
theorem unbeaten_iff (h : b.Valid (k + 1)) (d : FirstRound b (k + 1) ws) (listed : w ∈ ws) :
    b.winner (k, 0) = some w ↔ ∀ p ∈ grid (k + 1), Seats b p w → b.winner p = some w := by
  obtain ⟨m₀, first, ground⟩ := (d.listed w).1 listed
  constructor
  · rintro crowned ⟨r, m⟩ mem seated
    obtain ⟨m₁, _, first₁, ground₁, won⟩ := h.path (root_mem k) crowned
    obtain ⟨m₂, rfl, first₂, ground₂, _⟩ := h.way mem seated
    obtain rfl := d.once m₁ m₂ w first₁ first₂ ground₁ ground₂
    exact won r (Nat.le_of_lt_succ (mem_grid.1 mem).1)
  · intro all
    have up (r : Nat) (hr : r ≤ k) : (r, m₀ / 2 ^ r) ∈ grid (k + 1) ∧ b.winner (r, m₀ / 2 ^ r) = some w := by
      induction r with
      | zero => exact ⟨by simpa using first, by simpa using all _ first ground⟩
      | succ r ih =>
          obtain ⟨mem, won⟩ := ih (Nat.le_of_succ_le hr)
          rw [show m₀ / 2 ^ (r + 1) = m₀ / 2 ^ r / 2 by rw [Nat.pow_succ, Nat.div_div_eq_div_mul]]
          have above := parent_mem mem (Nat.succ_lt_succ hr)
          refine ⟨above, all _ above ?_⟩
          rcases Nat.mod_two_eq_zero_or_one (m₀ / 2 ^ r) with even | odd
          · refine .inl ((h.left r _ above).trans ?_)
            rwa [show 2 * (m₀ / 2 ^ r / 2) = m₀ / 2 ^ r by omega]
          · refine .inr ((h.right r _ above).trans ?_)
            rwa [show 2 * (m₀ / 2 ^ r / 2) + 1 = m₀ / 2 ^ r by omega]
    obtain ⟨mem, won⟩ := up k (Nat.le_refl k)
    rwa [last_round mem rfl] at won

end BracketChain.Knockout
