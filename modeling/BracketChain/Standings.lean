import BracketChain.FixedDraw

namespace BracketChain.Standings

open Outcome Keys Records Accounts Registration Start Settlement Envelope Refunds Program Runs Layout View Lifecycle
  Refinement Lives Enrolment Matches Seats Elimination Building Completeness FixedDraw

/-- The player in a seat. An empty one holds the default key. -/
def seat (p : Pubkey) : Option Pubkey := if p = default then none else some p

def MatchNode.result (m : MatchNode) : Option Pubkey := if m.status = .completed then some m.winner else none

/-- The bracket at the addresses that clients derive. -/
def boardOf (rt : Runtime) (key : Pubkey) (node : Slot → Option MatchNode) : Board Pubkey where
  left p := (node (canonicalSlot rt key p.1 p.2)).bind fun m => seat m.playerA
  right p := (node (canonicalSlot rt key p.1 p.2)).bind fun m => seat m.playerB
  winner p := (node (canonicalSlot rt key p.1 p.2)).bind MatchNode.result

variable {rt : Runtime} {key : Pubkey} {clock : Clock} {node : Slot → Option MatchNode} {t t' : Tournament}
  {k r i : Nat} {slot : Slot} {m m' : MatchNode} {w : Pubkey}

theorem seat_eq_some {p : Pubkey} : seat p = some w ↔ p = w ∧ w ≠ default := by
  by_cases h : p = default
  · simp only [seat, h, if_true, reduceCtorEq, false_iff, not_and, not_not]
    exact Eq.symm
  · simp only [seat, h, if_false, Option.some.injEq, iff_self_and]
    rintro rfl
    exact h

theorem seat_eq_none {p : Pubkey} : seat p = none ↔ p = default := by
  simp [seat]

theorem seat_isSome {p : Pubkey} : (seat p).isSome = true ↔ p ≠ default := by
  rw [← Option.ne_none_iff_isSome, ne_eq, seat_eq_none]

theorem result_eq_some : MatchNode.result m = some w ↔ m.status = .completed ∧ m.winner = w := by
  simp [MatchNode.result]

theorem result_eq_none : MatchNode.result m = none ↔ m.status ≠ .completed := by
  simp [MatchNode.result]

section Addresses

theorem canonicalSlot_inj {p q : Nat × Nat} (h : canonicalSlot rt key p.1 p.2 = canonicalSlot rt key q.1 q.2) :
    p = q :=
  Prod.ext (congrArg Slot.round h) (congrArg Slot.matchIndex h)

theorem boardOf_left (hm : node (canonicalSlot rt key r i) = some m) :
    (boardOf rt key node).left (r, i) = seat m.playerA := by
  simp [boardOf, hm]

theorem boardOf_right (hm : node (canonicalSlot rt key r i) = some m) :
    (boardOf rt key node).right (r, i) = seat m.playerB := by
  simp [boardOf, hm]

theorem boardOf_winner (hm : node (canonicalSlot rt key r i) = some m) :
    (boardOf rt key node).winner (r, i) = MatchNode.result m := by
  simp [boardOf, hm]

theorem boardOf_update (node : Slot → Option MatchNode) (r i : Nat) (m : MatchNode) :
    boardOf rt key (Function.update node (canonicalSlot rt key r i) (some m)) =
      ⟨Function.update (boardOf rt key node).left (r, i) (seat m.playerA),
        Function.update (boardOf rt key node).right (r, i) (seat m.playerB),
        Function.update (boardOf rt key node).winner (r, i) (MatchNode.result m)⟩ := by
  ext1 <;> funext p <;> by_cases hp : p = (r, i)
  case pos => simp [boardOf, hp]
  case pos => simp [boardOf, hp]
  case pos => simp [boardOf, hp]
  all_goals
    have apart : canonicalSlot rt key p.1 p.2 ≠ canonicalSlot rt key r i := fun h =>
      hp (canonicalSlot_inj (q := (r, i)) h)
    simp [boardOf, hp, Function.update_of_ne apart]

/-- What a match shows on the board. -/
def MatchNode.face (m : MatchNode) : MatchStatus × Pubkey × Pubkey × Pubkey :=
  (m.status, m.playerA, m.playerB, m.winner)

theorem edits_face {ix : Instruction} (h : Edits t clock m ix m') : MatchNode.face m' = MatchNode.face m := by
  cases h <;> rfl

theorem face_eq {m n : MatchNode} (h : MatchNode.face m = MatchNode.face n) :
    m.status = n.status ∧ m.playerA = n.playerA ∧ m.playerB = n.playerB ∧ m.winner = n.winner := by
  simpa [MatchNode.face] using h

theorem face_of_faces {node' : Slot → Option MatchNode}
    (faces : ∀ slot, (node' slot).map MatchNode.face = (node slot).map MatchNode.face) (hm : node' slot = some m) :
    ∃ n, node slot = some n ∧ MatchNode.face m = MatchNode.face n := by
  have same := faces slot
  rw [hm, Option.map_some, eq_comm, Option.map_eq_some_iff] at same
  obtain ⟨n, hn, face⟩ := same
  exact ⟨n, hn, face.symm⟩

theorem boardOf_faces {node' : Slot → Option MatchNode}
    (h : ∀ slot, (node' slot).map MatchNode.face = (node slot).map MatchNode.face) :
    boardOf rt key node' = boardOf rt key node := by
  have same (slot : Slot) : (node' slot).bind (fun m => seat m.playerA) = (node slot).bind (fun m => seat m.playerA) ∧
      (node' slot).bind (fun m => seat m.playerB) = (node slot).bind (fun m => seat m.playerB) ∧
      (node' slot).bind MatchNode.result = (node slot).bind MatchNode.result := by
    have h := h slot
    cases hn : node slot with
    | none => simp [hn] at h; simp [h]
    | some n =>
        rw [hn, Option.map_some, Option.map_eq_some_iff] at h
        obtain ⟨n', hn', he⟩ := h
        obtain ⟨status, hA, hB, winner⟩ := face_eq he
        simp [hn', MatchNode.result, status, hA, hB, winner]
  ext1 <;> funext p
  · exact (same _).1
  · exact (same _).2.1
  · exact (same _).2.2

end Addresses

section Taken

variable (taken : ∀ slot, (node slot).isSome = true ↔ ∃ p ∈ grid (k + 1), canonicalSlot rt key p.1 p.2 = slot)
include taken

/-- Where the matches are those of a bracket, each is at its canonical address. -/
theorem place_of_taken (hm : node slot = some m) (hs : m.slot = slot) :
    (m.round, m.matchIndex) ∈ grid (k + 1) ∧ slot = canonicalSlot rt key m.round m.matchIndex := by
  obtain ⟨⟨r, i⟩, mem, rfl⟩ := (taken slot).1 (by simp [hm])
  obtain rfl : m.round = r := congrArg Slot.round hs
  obtain rfl : m.matchIndex = i := congrArg Slot.matchIndex hs
  exact ⟨mem, rfl⟩

theorem node_of_taken (mem : (r, i) ∈ grid (k + 1)) : ∃ m, node (canonicalSlot rt key r i) = some m :=
  Option.isSome_iff_exists.1 ((taken _).2 ⟨(r, i), mem, rfl⟩)

end Taken

/-- An open bracket with `k + 1` rounds: a match at each canonical address and
nowhere else, with the winners in the seats they have won. -/
structure Standing (rt : Runtime) (key : Pubkey) (k : Nat) (node : Slot → Option MatchNode) (t : Tournament) :
    Prop where
  dims : Dimensioned t k
  taken : ∀ slot, (node slot).isSome = true ↔ ∃ p ∈ grid (k + 1), canonicalSlot rt key p.1 p.2 = slot
  valid : (boardOf rt key node).Valid (k + 1)
  ready : ∀ slot m, node slot = some m → m.status ≠ .completed →
    (m.status = .active ↔ m.playerA ≠ default ∧ m.playerB ≠ default)
  count : t.matchesReported = (boardOf rt key node).decided (k + 1)
  crowned : t.status = .completed → (boardOf rt key node).winner (k, 0) = some t.champion

namespace Standing

variable (h : Standing rt key k node t)
include h

theorem place (hm : node slot = some m) (hs : m.slot = slot) :
    (m.round, m.matchIndex) ∈ grid (k + 1) ∧ slot = canonicalSlot rt key m.round m.matchIndex :=
  place_of_taken h.taken hm hs

theorem at_place (mem : (r, i) ∈ grid (k + 1)) : ∃ m, node (canonicalSlot rt key r i) = some m :=
  node_of_taken h.taken mem

theorem keep {node' : Slot → Option MatchNode}
    (faces : ∀ slot, (node' slot).map MatchNode.face = (node slot).map MatchNode.face) (dims : Dimensioned t' k)
    (record : t'.matchesReported = t.matchesReported ∧ t'.status = t.status ∧ t'.champion = t.champion) :
    Standing rt key k node' t' := by
  obtain ⟨reported, status, champion⟩ := record
  have board : boardOf rt key node' = boardOf rt key node := boardOf_faces faces
  refine ⟨dims, fun slot => ?_, board ▸ h.valid, fun slot m hm open_ => ?_, by rw [reported, board, h.count],
    fun done => by rw [board, champion, h.crowned (status ▸ done)]⟩
  · rw [← h.taken slot]
    simpa using congrArg (fun o => Option.isSome o = true) (faces slot)
  · obtain ⟨n, hn, face⟩ := face_of_faces faces hm
    obtain ⟨status, hA, hB, _⟩ := face_eq face
    rw [status, hA, hB]
    exact h.ready slot n hn (status ▸ open_)

theorem playable (hm : node (canonicalSlot rt key r i) = some m) (active : m.status = .active)
    (player : m.hasPlayer w) : w ≠ default ∧ (boardOf rt key node).winner (r, i) = none ∧
      ((boardOf rt key node).left (r, i) = some w ∨ (boardOf rt key node).right (r, i) = some w) ∧
      ((boardOf rt key node).left (r, i)).isSome = true ∧ ((boardOf rt key node).right (r, i)).isSome = true := by
  obtain ⟨hA, hB⟩ := (h.ready _ m hm (by simp [active])).1 active
  rw [boardOf_left hm, boardOf_right hm, boardOf_winner hm]
  refine ⟨?_, by simp [MatchNode.result, active], ?_, seat_isSome.2 hA, seat_isSome.2 hB⟩
  · rcases player with rfl | rfl <;> assumption
  · rcases player with rfl | rfl
    · exact .inl (seat_eq_some.2 ⟨rfl, hA⟩)
    · exact .inr (seat_eq_some.2 ⟨rfl, hB⟩)

theorem parent_empty (hm : node (canonicalSlot rt key r i) = some m) (active : m.status = .active)
    (mem : (r + 1, i / 2) ∈ grid (k + 1)) {n : MatchNode} (hn : node (canonicalSlot rt key (r + 1) (i / 2)) = some n) :
    n.status = .pending ∧ (if i % 2 = 0 then n.playerA else n.playerB) = default := by
  have open_ : (boardOf rt key node).winner (r, i) = none := by simp [boardOf_winner hm, MatchNode.result, active]
  obtain ⟨undecided, empty⟩ := h.valid.parent_open mem open_
  rw [boardOf_winner hn, result_eq_none] at undecided
  have vacant : (if i % 2 = 0 then n.playerA else n.playerB) = default := by
    rw [boardOf_left hn, boardOf_right hn] at empty
    split at empty
    · rw [if_pos ‹_›, seat_eq_none.1 empty]
    · rw [if_neg ‹_›, seat_eq_none.1 empty]
  refine ⟨?_, vacant⟩
  cases hs : n.status with
  | pending => rfl
  | active =>
      obtain ⟨hA, hB⟩ := (h.ready _ n hn undecided).1 hs
      split at vacant
      · exact absurd vacant hA
      · exact absurd vacant hB
  | completed => exact absurd hs undecided

omit h in
theorem boardOf_complete (hm : node (canonicalSlot rt key r i) = some m) :
    boardOf rt key (Function.update node (canonicalSlot rt key r i) (some (MatchNode.complete m w))) =
      { boardOf rt key node with winner := Function.update (boardOf rt key node).winner (r, i) (some w) } := by
  rw [boardOf_update, Board.mk.injEq]
  refine ⟨?_, ?_, by simp [MatchNode.result, MatchNode.complete]⟩
  · rw [show (MatchNode.complete m w).playerA = m.playerA from rfl, ← boardOf_left hm, Function.update_eq_self]
  · rw [show (MatchNode.complete m w).playerB = m.playerB from rfl, ← boardOf_right hm, Function.update_eq_self]

theorem boardOf_advance (hm : node (canonicalSlot rt key r i) = some m) (active : m.status = .active)
    (index : m.matchIndex = i) (player : m.hasPlayer w) (mem : (r + 1, i / 2) ∈ grid (k + 1)) {n : MatchNode}
    (hn : node (canonicalSlot rt key (r + 1) (i / 2)) = some n) :
    boardOf rt key (Function.update (Function.update node (canonicalSlot rt key r i) (some (MatchNode.complete m w)))
      (canonicalSlot rt key (r + 1) (i / 2)) (some (MatchNode.advance n m.matchIndex w))) =
        (boardOf rt key node).play r i w := by
  obtain ⟨real, _⟩ := h.playable hm active player
  obtain ⟨pending, _⟩ := h.parent_empty hm active mem hn
  have taken : seat w = some w := seat_eq_some.2 ⟨rfl, real⟩
  have undecided : MatchNode.result (MatchNode.advance n m.matchIndex w) =
      Function.update (boardOf rt key node).winner (r, i) (some w) (r + 1, i / 2) := by
    have before : n.status ≠ .completed := by simp [pending]
    rw [Function.update_of_ne (by simp), boardOf_winner hn, result_eq_none.2 before,
      result_eq_none.2 (advance_incomplete _ _ before)]
  rw [boardOf_update, boardOf_complete hm, Board.mk.injEq, undecided, Function.update_eq_self, advance_eq, index]
  refine ⟨?_, ?_, rfl⟩ <;> simp only [Board.play] <;> split
  · rw [taken]
  · rw [← boardOf_left hn, Function.update_eq_self]
  · rw [← boardOf_right hn, Function.update_eq_self]
  · rw [taken]

theorem advance (running : t.status = .active) (hm : node (canonicalSlot rt key r i) = some m)
    (active : m.status = .active) (index : m.matchIndex = i) (player : m.hasPlayer w) (place : (r, i) ∈ grid (k + 1))
    (mem : (r + 1, i / 2) ∈ grid (k + 1)) {n : MatchNode} (hn : node (canonicalSlot rt key (r + 1) (i / 2)) = some n) :
    Standing rt key k (Function.update (Function.update node (canonicalSlot rt key r i)
      (some (MatchNode.complete m w))) (canonicalSlot rt key (r + 1) (i / 2))
        (some (MatchNode.advance n m.matchIndex w))) (Tournament.counted t) := by
  obtain ⟨_, open_, seated, both⟩ := h.playable hm active player
  obtain ⟨pending, _⟩ := h.parent_empty hm active mem hn
  have board := h.boardOf_advance hm active index player mem hn
  have apart : canonicalSlot rt key (r + 1) (i / 2) ≠ canonicalSlot rt key r i := fun he => by
    have := congrArg Slot.round he
    simp [canonicalSlot] at this
  refine ⟨h.dims.of_same rfl rfl rfl, fun slot => ?_, board ▸ h.valid.play place open_ seated fun _ => both,
    fun slot m' hm' unfinished => ?_, ?_, fun done => ?_⟩
  · rw [update_isSome ((Function.update_of_ne apart _ _).trans hn), update_isSome hm, h.taken slot]
  · obtain ⟨_, rfl⟩ | ⟨_, rfl⟩ | ⟨_, _, hm'⟩ := written_cases hm'
    · simp only [advance_eq, pending]
      split <;> simp_all
    · exact absurd rfl unfinished
    · exact h.ready slot m' hm' unfinished
  · rw [board, Board.decided_play w place open_, ← h.count]
    rfl
  · exact absurd (done.symm.trans running) (by simp)

theorem conclude (hm : node (canonicalSlot rt key k 0) = some m) (active : m.status = .active)
    (player : m.hasPlayer w) (place : (k, 0) ∈ grid (k + 1)) (now : Int) :
    Standing rt key k (Function.update node (canonicalSlot rt key k 0) (some (MatchNode.complete m w)))
      (Tournament.concluded t w now) := by
  obtain ⟨_, open_, seated, both⟩ := h.playable hm active player
  have board := boardOf_complete (w := w) hm
  have winner p : (boardOf rt key (Function.update node (canonicalSlot rt key k 0)
      (some (MatchNode.complete m w)))).winner p = ((boardOf rt key node).play k 0 w).winner p := by
    rw [board]
    rfl
  -- the seat above the last match lies outside the bracket
  have inside {p : Nat × Nat} (hp : p ∈ grid (k + 1)) : p ≠ (k + 1, 0 / 2) := by
    rintro rfl
    have := (mem_grid.1 hp).1
    omega
  refine ⟨h.dims.of_same rfl rfl rfl, fun slot => ?_, ?_, fun slot m' hm' unfinished => ?_, ?_, fun _ => ?_⟩
  · rw [Function.update_apply, ← h.taken slot]
    split
    · simp [*]
    · rfl
  · refine (h.valid.play place open_ seated fun _ => both).congr (fun p hp => ?_) (fun p hp => ?_) fun p _ => winner p
    · rw [board, Board.play_left _ _ (inside hp)]
    · rw [board, Board.play_right _ _ (inside hp)]
  · rw [Function.update_apply] at hm'
    split at hm'
    · obtain rfl := Option.some.inj hm'
      exact absurd rfl unfinished
    · exact h.ready slot m' hm' unfinished
  · rw [Board.decided_congr fun p _ => winner p, Board.decided_play w place open_, ← h.count]
    rfl
  · rw [board]
    exact Function.update_self ..

end Standing

end BracketChain.Standings
