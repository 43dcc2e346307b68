import BracketChain.Filling

namespace BracketChain.InPlay

open Outcome Keys Records Accounts Registration Start Settlement Envelope Refunds Program Runs Layout View Lifecycle
  Refinement Lives Bookkeeping Enrolment Matches Reports Seats Elimination Building Completeness FixedDraw Standings
  Filling

/-- The seat that the winner of child `i` takes. -/
def seatOf (n : MatchNode) (i : Nat) : Pubkey := if i % 2 = 0 then n.playerA else n.playerB

/-- A bracket in play: a match that is not over keeps its parent waiting, and
all players are still open. It may have leftover participants. -/
structure Waiting (rt : Runtime) (key : Pubkey) (k : Nat) (v : TournamentView) (t : Tournament) : Prop where
  dims : Dimensioned t k
  taken : ∀ slot, (v.node slot).isSome = true ↔ ∃ p ∈ grid (k + 1), canonicalSlot rt key p.1 p.2 = slot
  waits : ∀ r i m n, v.node (canonicalSlot rt key r i) = some m → m.status ≠ .completed →
    v.node (canonicalSlot rt key (r + 1) (i / 2)) = some n → n.status = .pending ∧ seatOf n i = default
  ready : ∀ slot m, v.node slot = some m → m.status = .active → m.playerA ≠ default ∧ m.playerB ≠ default
  seated : ∀ slot m w, v.node slot = some m → m.hasPlayer w → w ≠ default → (v.participant w).isSome = true
  count : t.matchesReported = (boardOf rt key v.node).decided (k + 1)

variable {rt : Runtime} {key : Pubkey} {clock : Clock} {b : Action} {v v' : TournamentView} {t t' : Tournament}
  {k r i : Nat} {slot : Slot} {m n : MatchNode} {winner : Pubkey}

section Filled

variable {w : Draw} {p : Pubkey → Option Participant} {d e : MatchInitDescriptor}

theorem carries_open {x : Pubkey} {number : Nat} (h : Carries p x number) : (p x).isSome = true := by
  obtain ⟨y, hy, _⟩ := h
  rw [hy]
  rfl

theorem slotSeated_open {player : Pubkey} {parent : Nat} (slot : SlotSeated p w player parent) (real : player ≠ default) :
    (p player).isSome = true := by
  obtain ⟨_, _, _, slot⟩ := slot
  split at slot
  · exact carries_open slot.2
  · exact absurd slot real

/-- The players that a draw seats have their accounts open. -/
theorem seated_open (key : Pubkey) (seated : Seated p w d) {x : Pubkey} (player : x = d.playerA ∨ x = (d.node key).playerB)
    (real : x ≠ default) : (p x).isSome = true := by
  unfold Seated at seated
  split at seated
  · obtain ⟨_, o, _, carries, opponent⟩ := seated
    rcases player with rfl | rfl
    · exact carries_open carries
    · cases o with
      | none =>
          have empty : (d.node key).playerB = default := by simp [MatchInitDescriptor.node, opponent.1]
          exact absurd empty real
      | some b =>
          have same : (d.node key).playerB = d.playerB := by simp [MatchInitDescriptor.node, opponent.1]
          rw [same]
          exact carries_open opponent.2.2
  · obtain ⟨bye, seated⟩ := seated
    have same : (d.node key).playerB = d.playerB := by simp [MatchInitDescriptor.node, bye]
    rw [same] at player
    split at seated
    · rcases player with rfl | rfl
      · exact slotSeated_open seated.1 real
      · exact slotSeated_open seated.2 real
    · rcases player with rfl | rfl
      · exact absurd seated.1 real
      · exact absurd seated.2 real

theorem slot_waits {player : Pubkey} {parent : Nat} (slot : SlotSeated p w player parent) (seated : Seated p w e)
    (ground : e.round = 0) (index : e.matchIndex = parent) (inner : e.bye = false) : player = default := by
  subst index
  rw [Seated, if_pos ground] at seated
  obtain ⟨a, o, hw, _, opponent⟩ := seated
  obtain ⟨a', o', hw', slot⟩ := slot
  obtain ⟨rfl, rfl⟩ : a = a' ∧ o = o' := by simpa using hw.symm.trans hw'
  cases o with
  | none => exact absurd (inner.symm.trans opponent.1) (by decide)
  | some b => rwa [if_neg (by simp)] at slot

/-- Above a match that is no bye, a draw leaves the seat empty. -/
theorem seated_waits (parent : Seated p w d) (child : Seated p w e) (round : d.round = e.round + 1)
    (index : d.matchIndex = e.matchIndex / 2) (inner : e.bye = false) :
    (if e.matchIndex % 2 = 0 then d.playerA else d.playerB) = default := by
  have above : d.round ≠ 0 := by omega
  rw [Seated, if_neg above] at parent
  obtain ⟨_, parent⟩ := parent
  by_cases ground : e.round = 0
  · rw [if_pos (by omega)] at parent
    split
    · exact slot_waits parent.1 child ground (by omega) inner
    · exact slot_waits parent.2 child ground (by omega) inner
  · rw [if_neg (by omega)] at parent
    split
    · exact parent.1
    · exact parent.2

/-- A bracket that has just been filled waits. -/
theorem placed_waiting {ds : List MatchInitDescriptor} {v₀ : TournamentView} (h : Placed key v t ds)
    (built : Built key v₀ v t ds) (empty : ∀ slot, v₀.node slot = none) (canonical : ∀ d ∈ ds, Canonical rt key d)
    (active : t.status = .active) (mode : t.settlementMode ≠ .organizerOnly) : ∃ k, Waiting rt key k v t := by
  obtain ⟨k, dims, places⟩ := built_grid built (canonical_nodup built.distinct canonical) (.inl active)
  obtain ⟨w, draw⟩ : ∃ w, drawOf t = some w := ⟨_, if_neg mode⟩
  have seated := (built.underway (.inr (.inl active))).seated w draw
  have found {slot : Slot} {m : MatchNode} (hm : v.node slot = some m) :
      ∃ d ∈ ds, d.slot = slot ∧ MatchNode.face m = MatchNode.face (d.node key) := by
    obtain ⟨d, hd, rfl⟩ := built_descriptor built empty hm
    obtain ⟨n, hn, face⟩ := h.faces d hd
    obtain rfl : m = n := Option.some.inj (hm.symm.trans hn)
    exact ⟨d, hd, rfl, face⟩
  refine ⟨k, dims, built_taken built empty canonical places, ?_, ?_, ?_, h.decided canonical places⟩
  · intro r i m n hm open_ hn
    obtain ⟨e, he, at_, face⟩ := found hm
    obtain ⟨d, hd, above, face'⟩ := found hn
    obtain rfl : e.round = r := congrArg Slot.round at_
    obtain rfl : e.matchIndex = i := congrArg Slot.matchIndex at_
    have round : d.round = e.round + 1 := congrArg Slot.round above
    have index : d.matchIndex = e.matchIndex / 2 := congrArg Slot.matchIndex above
    have inner : e.bye = false := by
      by_contra bye
      exact open_ ((face_eq face).1.trans ((placed_status e).2 (by simpa using bye)))
    have plain : d.bye = false := seated_no_bye (seated d hd) (by omega)
    have vacant := seated_waits (seated d hd) (seated e he) round index inner
    obtain ⟨status, hA, hB, _⟩ := face_eq face'
    have playerB : (d.node key).playerB = d.playerB := by simp [MatchInitDescriptor.node, plain]
    have vacant' : seatOf n e.matchIndex = default := by
      rw [seatOf, hA, hB, playerB]
      exact vacant
    have unfinished : n.status ≠ .completed := fun done =>
      Bool.false_ne_true (plain.symm.trans ((placed_status d).1 (status.symm.trans done)))
    refine ⟨?_, vacant'⟩
    cases hs : n.status with
    | pending => rfl
    | completed => exact absurd hs unfinished
    | active =>
        obtain ⟨hA, hB⟩ := (placed_playable face' unfinished).1 hs
        unfold seatOf at vacant'
        split at vacant'
        · exact absurd vacant' hA
        · exact absurd vacant' hB
  · intro slot m hm playing
    obtain ⟨d, _, _, face⟩ := found hm
    exact (placed_playable face (by simp [playing])).1 playing
  · intro slot m x hm player real
    obtain ⟨d, hd, _, face⟩ := found hm
    obtain ⟨_, hA, hB, _⟩ := face_eq face
    refine seated_open key (seated d hd) ?_ real
    rcases player with rfl | rfl
    · exact .inl hA
    · exact .inr hB

end Filled

section Playing

variable (h : Waiting rt key k v t)
include h

theorem Waiting.place (hm : v.node slot = some m) (hs : m.slot = slot) :
    (m.round, m.matchIndex) ∈ grid (k + 1) ∧ slot = canonicalSlot rt key m.round m.matchIndex :=
  place_of_taken h.taken hm hs

theorem Waiting.at_place (mem : (r, i) ∈ grid (k + 1)) : ∃ m, v.node (canonicalSlot rt key r i) = some m :=
  node_of_taken h.taken mem

theorem Waiting.parent (hm : v.node slot = some m) (hs : m.slot = slot) (inner : ¬ isFinal t m) :
    ∃ n, v.node (canonicalSlot rt key (m.round + 1) (m.matchIndex / 2)) = some n := by
  obtain ⟨mem, _⟩ := h.place hm hs
  have above : m.round + 1 < k + 1 := by
    have below := (mem_grid.1 mem).1
    by_contra last
    have top : m.round + 1 = k + 1 := by omega
    exact inner ⟨by rw [h.dims.trailing, top], last_round mem top⟩
  exact h.at_place (parent_mem mem above)

/-- The counter of reported matches is far from its limit. -/
theorem Waiting.reported_small : t.matchesReported + 1 ≤ u16Max := by
  have most : (boardOf rt key v.node).decided (k + 1) ≤ (grid (k + 1)).length := List.countP_le_length
  have rounds := h.dims.rounds
  have small : 2 ^ (k + 1) ≤ 2 ^ 15 := Nat.pow_le_pow_right Nat.two_pos (by omega)
  rw [← h.count, length_grid] at most
  simp only [u16Max]
  omega

/-- A player of a match in play is open, and is nobody's placeholder. -/
theorem Waiting.player (hm : v.node slot = some m) (playing : m.status = .active) {w : Pubkey} (player : m.hasPlayer w) :
    w ≠ default ∧ (v.participant w).isSome = true := by
  obtain ⟨hA, hB⟩ := h.ready slot m hm playing
  have real : w ≠ default := by rcases player with rfl | rfl <;> assumption
  exact ⟨real, h.seated slot m w hm player real⟩

theorem Waiting.keep (faces : ∀ slot, (v'.node slot).map MatchNode.face = (v.node slot).map MatchNode.face)
    (stay : ∀ w, (v.participant w).isSome = true → (v'.participant w).isSome = true) (dims : Dimensioned t' k)
    (reported : t'.matchesReported = t.matchesReported) : Waiting rt key k v' t' := by
  have found {slot : Slot} {m : MatchNode} (hm : v'.node slot = some m) :
      ∃ n, v.node slot = some n ∧ m.status = n.status ∧ m.playerA = n.playerA ∧ m.playerB = n.playerB := by
    obtain ⟨n, hn, face⟩ := face_of_faces faces hm
    obtain ⟨status, hA, hB, _⟩ := face_eq face
    exact ⟨n, hn, status, hA, hB⟩
  refine ⟨dims, fun slot => ?_, ?_, ?_, ?_, by rw [reported, boardOf_faces faces, h.count]⟩
  · rw [← h.taken slot]
    simpa using congrArg (fun o => Option.isSome o = true) (faces slot)
  · intro r i m n hm open_ hn
    obtain ⟨m₀, hm₀, status, _⟩ := found hm
    obtain ⟨n₀, hn₀, status', hA, hB⟩ := found hn
    rw [seatOf, status', hA, hB]
    exact h.waits r i m₀ n₀ hm₀ (status ▸ open_) hn₀
  · intro slot m hm playing
    obtain ⟨m₀, hm₀, status, hA, hB⟩ := found hm
    rw [hA, hB]
    exact h.ready slot m₀ hm₀ (status ▸ playing)
  · intro slot m w hm player real
    obtain ⟨m₀, hm₀, _, hA, hB⟩ := found hm
    refine stay w (h.seated slot m₀ w hm₀ ?_ real)
    rwa [MatchNode.hasPlayer, ← hA, ← hB]

/-- The board after a match is finished and its winner takes a seat. -/
theorem Waiting.decided_advance (hm : v.node (canonicalSlot rt key r i) = some m) (open_ : m.status ≠ .completed)
    (place : (r, i) ∈ grid (k + 1)) (hn : v.node (canonicalSlot rt key (r + 1) (i / 2)) = some n) :
    (boardOf rt key (Function.update (Function.update v.node (canonicalSlot rt key r i)
      (some (MatchNode.complete m winner))) (canonicalSlot rt key (r + 1) (i / 2))
        (some (MatchNode.advance n i winner)))).decided (k + 1) = (boardOf rt key v.node).decided (k + 1) + 1 := by
  have undecided : (boardOf rt key v.node).winner (r, i) = none := by rw [boardOf_winner hm, result_eq_none.2 open_]
  rw [← Board.decided_play winner place undecided]
  refine Board.decided_congr fun p _ => ?_
  have before : n.status ≠ .completed := by simp [(h.waits r i m n hm open_ hn).1]
  rw [boardOf_update, boardOf_update]
  simp only [Board.play]
  by_cases hp : p = (r + 1, i / 2)
  · subst hp
    rw [Function.update_self, Function.update_of_ne (by simp), boardOf_winner hn, result_eq_none.2 before,
      result_eq_none.2 (advance_incomplete _ _ before)]
  · rw [Function.update_of_ne hp]
    by_cases hp' : p = (r, i)
    · subst hp'
      rw [Function.update_self, Function.update_self, result_eq_some.2 ⟨rfl, rfl⟩]
      rfl
    · rw [Function.update_of_ne hp', Function.update_of_ne hp']

omit h in
/-- The seat of the other child stays empty, so the match keeps waiting. -/
theorem advance_other {i' : Nat} (side : i' % 2 ≠ i % 2) (pending : n.status = .pending) (empty : seatOf n i' = default) :
    (MatchNode.advance n i winner).status = .pending ∧ seatOf (MatchNode.advance n i winner) i' = default := by
  rw [advance_eq]
  unfold seatOf at empty ⊢
  rcases Nat.mod_two_eq_zero_or_one i with left | right
  · have other : i' % 2 ≠ 0 := by omega
    simp only [left, other, if_true, if_false] at empty ⊢
    exact ⟨by simp [empty, pending], empty⟩
  · have other : i' % 2 = 0 := by omega
    simp only [right, other, if_true, one_ne_zero, if_false] at empty ⊢
    exact ⟨by simp [empty, pending], empty⟩

/-- The winner of a match moves up. -/
theorem Waiting.advance (hm : v.node (canonicalSlot rt key r i) = some m) (playing : m.status = .active)
    (player : m.hasPlayer winner) (place : (r, i) ∈ grid (k + 1))
    (hn : v.node (canonicalSlot rt key (r + 1) (i / 2)) = some n)
    (nodes : v'.node = Function.update (Function.update v.node (canonicalSlot rt key r i)
      (some (MatchNode.complete m winner))) (canonicalSlot rt key (r + 1) (i / 2)) (some (MatchNode.advance n i winner)))
    (stay : ∀ w, (v.participant w).isSome = true → (v'.participant w).isSome = true) (dims : Dimensioned t' k)
    (reported : t'.matchesReported = t.matchesReported + 1) : Waiting rt key k v' t' := by
  have open_ : m.status ≠ .completed := by simp [playing]
  obtain ⟨pending, vacant⟩ := h.waits r i m n hm open_ hn
  obtain ⟨real, _⟩ := h.player hm playing player
  have apart : canonicalSlot rt key (r + 1) (i / 2) ≠ canonicalSlot rt key r i := fun he => by
    have := congrArg Slot.round he
    simp [canonicalSlot] at this
  refine ⟨dims, fun slot => ?_, ?_, ?_, ?_, by rw [reported, nodes, h.decided_advance hm open_ place hn, h.count]⟩
  · rw [nodes, update_isSome ((Function.update_of_ne apart _ _).trans hn), update_isSome hm, h.taken slot]
  · intro r' i' c p hc unfinished hp
    -- the child was open before, and is not the match that is now finished
    obtain ⟨c₀, hc₀, unfinished₀, other⟩ : ∃ c₀, v.node (canonicalSlot rt key r' i') = some c₀ ∧
        c₀.status ≠ .completed ∧ (r', i') ≠ (r, i) := by
      rcases written_cases (nodes ▸ hc) with ⟨at_, rfl⟩ | ⟨_, rfl⟩ | ⟨_, away, hc₀⟩
      · obtain ⟨rfl, rfl⟩ := Prod.mk.inj (canonicalSlot_inj (p := (r', i')) (q := (r + 1, i / 2)) at_)
        exact ⟨n, hn, by simp [pending], by simp⟩
      · exact absurd rfl unfinished
      · refine ⟨c, hc₀, unfinished, fun same => away ?_⟩
        obtain ⟨rfl, rfl⟩ := Prod.mk.inj same
        rfl
    rcases written_cases (nodes ▸ hp) with ⟨at_, rfl⟩ | ⟨at_, rfl⟩ | ⟨_, _, hp₀⟩
    · -- the parent has another child that just finished
      obtain ⟨hr, hi⟩ := Prod.mk.inj (canonicalSlot_inj (p := (r' + 1, i' / 2)) (q := (r + 1, i / 2)) at_)
      obtain rfl : r' = r := Nat.succ.inj hr
      have side : i' % 2 ≠ i % 2 := fun same => other (by rw [show i' = i by omega])
      exact advance_other side pending (h.waits r' i' c₀ n hc₀ unfinished₀ (hi ▸ hn)).2
    · have waiting := (h.waits r' i' c₀ m hc₀ unfinished₀ (at_ ▸ hm)).1
      exact absurd (playing.symm.trans waiting) (by decide)
    · exact h.waits r' i' c₀ p hc₀ unfinished₀ hp₀
  · intro slot m' hm' playing'
    rcases written_cases (nodes ▸ hm') with ⟨_, rfl⟩ | ⟨_, rfl⟩ | ⟨_, _, hm₀⟩
    · rw [advance_eq] at playing' ⊢
      simpa only [pending, ite_eq_iff, reduceCtorEq, and_true, and_false, or_false] using playing'
    · cases playing'
    · exact h.ready slot m' hm₀ playing'
  · intro slot m' w hm' player' real'
    apply stay
    rcases written_cases (nodes ▸ hm') with ⟨_, rfl⟩ | ⟨_, rfl⟩ | ⟨_, _, hm₀⟩
    · rw [advance_eq, MatchNode.hasPlayer] at player'
      have seats : w = winner ∨ n.hasPlayer w := by
        unfold MatchNode.hasPlayer
        split at player' <;> tauto
      rcases seats with rfl | old
      · exact (h.player hm playing player).2
      · exact h.seated _ n w hn old real'
    · exact h.seated _ m w hm player' real'
    · exact h.seated slot m' w hm₀ player' real'

end Playing

/-- An active bracket stays in play for as long as it is active. -/
theorem waiting_step (h : Waiting rt key k v t) (effect : Effect rt key clock b v v') (ht : v.record = some t)
    (ht' : v'.record = some t') (slots : ∀ slot m, v.node slot = some m → m.slot = slot) (active : t.status = .active)
    (active' : t'.status = .active) : Waiting rt key k v' t' := by
  have same {t₁ : Tournament} (h₁ : v.record = some t₁) : t = t₁ := Option.some.inj (ht.symm.trans h₁)
  have live : ¬ terminal t.status := by simp [active, terminal]
  have stay (w : Pubkey) (open_ : (v.participant w).isSome = true) : (v'.participant w).isSome = true :=
    (participants_stay effect ht (by simp [ht']) open_).resolve_right fun ended => live ended.1
  cases effect with
  | others =>
      obtain rfl := same ht'
      exact h.keep (fun _ => rfl) stay h.dims rfl
  | create _ _ _ unopened => simp [ht] at unopened
  | join _ _ _ _ record _ _ open_ | requestSeed _ _ record _ open_ =>
      obtain rfl := same record
      simp [open_] at active
  | revealSeed _ _ _ record =>
      obtain rfl := same record
      obtain rfl := Option.some.inj ht'
      exact h.keep (fun _ => rfl) stay (h.dims.of_same rfl rfl rfl) rfl
  | start _ _ record _ opens =>
      obtain rfl := same record
      rcases (opens_status opens).1 with hs | hs <;> simp [hs] at active
  | @edit _ ix c slot _ m m' _ _ _ _ node edits =>
      obtain rfl := same ht'
      refine h.keep (fun q => ?_) stay h.dims rfl
      by_cases hq : q = slot
      · subst hq
        simp [node, edits_face edits]
      · simp only [Function.update_of_ne hq]
  | @advance _ ix c slot next _ m n winner p' finalizes inner address parent round index =>
      obtain rfl := same finalizes.record
      obtain rfl := Option.some.inj ht'
      obtain ⟨mem, rfl⟩ := h.place finalizes.node (slots slot m finalizes.node)
      obtain ⟨_, place⟩ := h.place parent (slots next n parent)
      rw [round, index] at place
      subst place
      exact h.advance finalizes.node finalizes.active finalizes.player mem parent rfl stay (h.dims.of_same rfl rfl rfl) rfl
  | conclude | partialCancel =>
      obtain rfl := Option.some.inj ht'
      simp [Tournament.concluded] at active'
  | refund _ _ _ _ record _ refunding =>
      obtain rfl := same record
      rcases refunding_cases refunding with ⟨_, hs | hs | hs⟩ | ⟨_, hs⟩ <;> simp [hs] at active
  | closeChildren _ _ _ record ended =>
      obtain rfl := same record
      exact absurd ended live
  | closeRoot => cases ht'

/-- Proposals name a player, and stand only on matches whose players are known. -/
def Sincere (v : TournamentView) : Prop :=
  ∀ slot m, v.node slot = some m → m.proposalSource ≠ .none → m.hasPlayer m.proposedWinner ∧ m.status ≠ .pending

theorem sincere_edit {ix : Instruction} {m' : MatchNode} (edits : Edits t clock m ix m')
    (h : m.proposalSource ≠ .none → m.hasPlayer m.proposedWinner ∧ m.status ≠ .pending)
    (proposed : m'.proposalSource ≠ .none) : m'.hasPlayer m'.proposedWinner ∧ m'.status ≠ .pending := by
  cases edits with
  | propose _ _ _ playing _ _ player => exact ⟨player, by simp [MatchNode.propose, playing]⟩
  | proposeOracle _ _ _ _ playing _ _ _ player => exact ⟨player, by simp [MatchNode.propose, playing]⟩
  | dispute _ _ pending => exact h pending
  | commit | bind => exact h proposed

theorem sincere_step (h : Sincere v) (waiting : t.status = .active → ∃ k, Waiting rt key k v t)
    (effect : Effect rt key clock b v v') (ht : v.record = some t)
    (slots : ∀ slot m, v.node slot = some m → m.slot = slot) : Sincere v' := by
  intro slot m' hm' proposed
  have change := effect_node effect slot
  rw [hm'] at change
  generalize ho : some m' = o at change
  cases change with
  | same => exact h slot m' ho.symm proposed
  | placed =>
      obtain rfl := Option.some.inj ho
      exact absurd rfl proposed
  | edited _ _ _ _ _ _ _ node edits =>
      obtain rfl := Option.some.inj ho
      exact sincere_edit edits (h slot _ node) proposed
  | finalized _ _ _ finalizes =>
      obtain rfl := Option.some.inj ho
      exact ⟨(h slot _ finalizes.node proposed).1, by simp [MatchNode.complete]⟩
  | @seated ix a child _ m n winner p' _ finalizes inner address node round index =>
      -- a winner is only seated where nobody can have proposed yet
      obtain rfl := Option.some.inj ho
      obtain rfl : t = _ := Option.some.inj (ht.symm.trans finalizes.record)
      obtain ⟨k, w⟩ := waiting finalizes.running
      obtain ⟨_, rfl⟩ := w.place finalizes.node (slots child m finalizes.node)
      obtain ⟨_, place⟩ := w.place node (slots slot n node)
      rw [round, index] at place
      subst place
      have pending := (w.waits _ _ m n finalizes.node (by simp [finalizes.active]) node).1
      rw [advance_eq] at proposed
      exact absurd pending (h _ n node proposed).2
  | closed => cases ho

section Life

variable {a : CreateTournament} {born start s : Ledger} {past : History} (life : Life rt a born start past s)
  (mode : a.settlementMode ≠ .organizerOnly) (empty : ∀ slot, (viewOf start a.key).node slot = none)
  (unclosed : Unclosed a.key past) (canonical : ∀ d ∈ accepted a.key past, Canonical rt a.key d)
include life mode empty unclosed canonical

/-- A seeded tournament without leftover matches, with canonical addresses, is
in play while it is active, and its proposals are sincere. -/
theorem life_waiting (ht : s.tournament? a.key = some t) :
    (t.status = .active → ∃ k, Waiting rt a.key k (viewOf s a.key) t) ∧ Sincere (viewOf s a.key) := by
  have ht₀ := life.start_record
  refine canonical_invariant (P := fun _ s => ∀ t, s.tournament? a.key = some t →
    (t.status = .active → ∃ k, Waiting rt a.key k (viewOf s a.key) t) ∧ Sincere (viewOf s a.key))
    life unclosed canonical ?_ ?_ t ht
  · intro t ht
    obtain rfl := Option.some.inj (ht.symm.trans ht₀)
    refine ⟨fun active => ?_, fun slot m hm => ?_⟩
    · simp [CreateTournament.record] at active
    · rw [empty slot] at hm
      cases hm
  · intro past s b s' earlier ih step effect later unclosed canonical t' ht'
    obtain ⟨t, ht⟩ := earlier.record
    obtain ⟨waiting, sincere⟩ := ih t ht
    have status := effect_status effect ht ht'
    have slots slot m (hm : (viewOf s a.key).node slot = some m) : m.slot = slot := (node_slot earlier.wf hm).1
    refine ⟨fun active => ?_, sincere_step sincere waiting effect ht slots⟩
    rcases status.playing (.inl active) with before | before | ⟨_, before⟩
    · obtain ⟨k, h⟩ := waiting before
      exact ⟨k, waiting_step h effect ht ht' slots before active⟩
    · have done := status.terminal (by simp [before, terminal])
      rw [active, before] at done
      cases done
    · obtain ⟨t₁, ht₁, built⟩ := course_built later.course ht₀ rfl unclosed
      obtain rfl : t' = t₁ := Option.some.inj (ht'.symm.trans ht₁)
      refine placed_waiting (life_placed_snoc earlier effect ht ht' before) built empty canonical active ?_
      rw [(later.course.terms ht₀ ht').settlementMode]
      exact mode

end Life

end BracketChain.InPlay
