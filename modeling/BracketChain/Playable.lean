import BracketChain.Tree

namespace BracketChain.Playable

open Outcome Keys Records Accounts Registration Start Settlement Envelope Refunds Program Runs Layout View Lifecycle
  Refinement Lives Bookkeeping Enrolment Matches Reports Seats Elimination Building Completeness FixedDraw Standings Filling
  BracketChain.Tree

variable {rt : Runtime} {key : Pubkey} {clock : Clock} {b : Action} {v v' : TournamentView} {t t' : Tournament} {k : Nat}

/-- No match of the first round waits for players, and while the bracket is
played its last match is open. -/
structure Grounded (rt : Runtime) (key : Pubkey) (k : Nat) (node : Slot → Option MatchNode) (t : Tournament) : Prop where
  ground : ∀ i m, node (canonicalSlot rt key 0 i) = some m → m.status ≠ .pending
  root : t.status = .active → ∀ m, node (canonicalSlot rt key k 0) = some m → m.status ≠ .completed

section Placed

variable {ds : List MatchInitDescriptor} {w : Draw} {p : Pubkey → Option Participant} {d : MatchInitDescriptor}

/-- The draw leaves no seat of a first-round match empty that is no bye. -/
theorem ground_status (seated : Seated p w d) (real : ∀ x i, Carries p x i → x ≠ default) (ground : d.round = 0) :
    (d.node key).status ≠ .pending := by
  rw [Seated, if_pos ground] at seated
  obtain ⟨a, o, _, carries, opponent⟩ := seated
  have playerA : d.playerA ≠ default := real _ a carries
  cases o with
  | none => simp [MatchInitDescriptor.node, MatchInitDescriptor.status, opponent.1]
  | some b =>
      obtain ⟨inner, playerB, _⟩ := opponent
      simp [MatchInitDescriptor.node, MatchInitDescriptor.status, inner, playerA, playerB]

/-- The last match of a bracket is no bye. -/
theorem root_no_bye (drawn : Drawn w k) (seated : Seated p w d) (round : d.round = k) (index : d.matchIndex = 0) :
    d.bye = false := by
  by_cases above : d.round = 0
  · rw [Seated, if_pos above] at seated
    obtain ⟨a, o, hw, _, opponent⟩ := seated
    -- a single match has two players
    have single : k = 0 := round.symm.trans above
    have low := drawn.low
    have places := (drawn.round0 hw).2
    rw [index, single, if_pos (by rw [single] at low; omega)] at places
    obtain ⟨b, _, rfl⟩ := places
    exact opponent.1
  · exact seated_no_bye seated above

/-- The rounds of a bracket are those of its draw. -/
theorem drawn_rounds {j : Nat} (dims : Dimensioned t j) (drawn : Drawn w k) (count : w.n = t.participantCount) :
    j = k := by
  have above := dims.low.trans_le (count ▸ drawn.high)
  have below := drawn.low.trans_le (count ▸ dims.high)
  have hj := (Nat.pow_lt_pow_iff_right Nat.one_lt_two).1 above
  have hk := (Nat.pow_lt_pow_iff_right Nat.one_lt_two).1 below
  omega

theorem placed_grounded (h : Placed key v t ds) (canonical : ∀ d ∈ ds, Canonical rt key d)
    (places : (ds.map MatchInitDescriptor.position).Perm (grid (k + 1))) (drawn : Drawn w k)
    (real : ∀ x i, Carries v.participant x i → x ≠ default) (seated : ∀ d ∈ ds, Seated v.participant w d)
    (taken : ∀ slot, (v.node slot).isSome = true ↔ ∃ p ∈ grid (k + 1), canonicalSlot rt key p.1 p.2 = slot) :
    Grounded rt key k v.node t := by
  have found {r i : Nat} {m : MatchNode} (hm : v.node (canonicalSlot rt key r i) = some m) :
      ∃ d ∈ ds, d.round = r ∧ d.matchIndex = i ∧ m.status = (d.node key).status := by
    obtain ⟨q, hq, place⟩ := (taken _).1 (Option.isSome_iff_exists.2 ⟨m, hm⟩)
    obtain ⟨d, hd, rfl⟩ := List.mem_map.1 (places.mem_iff.2 hq)
    obtain ⟨n, hn, face⟩ := h.faces d hd
    have same := canonicalSlot_inj (p := MatchInitDescriptor.position d) (q := (r, i)) place
    have at_ : d.slot = canonicalSlot rt key r i := (canonical d hd).trans place
    rw [at_, hm] at hn
    obtain rfl := Option.some.inj hn
    exact ⟨d, hd, (Prod.mk.inj same).1, (Prod.mk.inj same).2, (face_eq face).1⟩
  constructor
  · intro i m hm
    obtain ⟨d, hd, ground, _, status⟩ := found hm
    rw [status]
    exact ground_status (seated d hd) real ground
  · intro _ m hm
    obtain ⟨d, hd, round, index, status⟩ := found hm
    rw [status]
    intro done
    exact Bool.false_ne_true ((root_no_bye drawn (seated d hd) round index).symm.trans ((placed_status d).1 done))

end Placed

section Steps

variable {slot : Slot} {m n : MatchNode} {winner : Pubkey} (h : Grounded rt key k v.node t)
include h

theorem Grounded.keep {node' : Slot → Option MatchNode} (status : t'.status = t.status)
    (faces : ∀ slot, (node' slot).map MatchNode.face = (v.node slot).map MatchNode.face) : Grounded rt key k node' t' := by
  constructor
  · intro i m hm
    obtain ⟨n, hn, face⟩ := face_of_faces faces hm
    rw [(face_eq face).1]
    exact h.ground i n hn
  · intro active m hm
    obtain ⟨n, hn, face⟩ := face_of_faces faces hm
    rw [(face_eq face).1]
    exact h.root (status ▸ active) n hn

/-- A winner that moves up leaves neither the first round nor the last match. -/
theorem Grounded.advance {next : Slot} (slots : ∀ slot m, v.node slot = some m → m.slot = slot) (dims : Dimensioned t k)
    (running : t.status = .active) (hm : v.node slot = some m) (inner : ¬ isFinal t m) (hn : v.node next = some n)
    (round : n.round = m.round + 1) (nodes : v'.node = Function.update (Function.update v.node slot
      (some (MatchNode.complete m winner))) next (some (MatchNode.advance n m.matchIndex winner))) :
    Grounded rt key k v'.node t' := by
  constructor
  · intro i c hc
    rcases written_cases (nodes ▸ hc) with ⟨at_, rfl⟩ | ⟨_, rfl⟩ | ⟨_, _, hc₀⟩
    · have first : n.round = 0 := congrArg Slot.round ((slots next n hn).trans at_.symm)
      omega
    · simp [MatchNode.complete]
    · exact h.ground i c hc₀
  · intro _ c hc
    rcases written_cases (nodes ▸ hc) with ⟨at_, rfl⟩ | ⟨at_, rfl⟩ | ⟨_, _, hc₀⟩
    · apply advance_incomplete
      apply h.root running
      rwa [at_]
    · have place := (slots slot m hm).trans at_.symm
      have last : m.round = k := congrArg Slot.round place
      have index : m.matchIndex = 0 := congrArg Slot.matchIndex place
      exact absurd ⟨by rw [dims.trailing, last], index⟩ inner
    · exact h.root running c hc₀

theorem grounded_step (effect : Effect rt key clock b v v') (ht : v.record = some t) (ht' : v'.record = some t')
    (dims : Dimensioned t k) (slots : ∀ slot m, v.node slot = some m → m.slot = slot) (active : t.status = .active)
    (active' : t'.status = .active) : Grounded rt key k v'.node t' := by
  have same {t₁ : Tournament} (h₁ : v.record = some t₁) : t = t₁ := Option.some.inj (ht.symm.trans h₁)
  cases effect with
  | others =>
      obtain rfl := same ht'
      exact h
  | create _ _ _ unopened => simp [ht] at unopened
  | join _ _ _ _ record _ _ open_ | requestSeed _ _ record _ open_ =>
      obtain rfl := same record
      simp [open_] at active
  | revealSeed _ _ _ record =>
      obtain rfl := same record
      obtain rfl := Option.some.inj ht'
      exact h.keep rfl fun _ => rfl
  | start _ _ record _ opens =>
      obtain rfl := same record
      rcases (opens_status opens).1 with hs | hs <;> simp [hs] at active
  | @edit _ ix c slot _ m m' _ _ _ _ node edits =>
      obtain rfl := same ht'
      refine h.keep rfl fun q => ?_
      by_cases hq : q = slot
      · subst hq
        simp [node, edits_face edits]
      · simp only [Function.update_of_ne hq]
  | @advance _ ix c slot next _ m n winner p' finalizes inner address parent round =>
      obtain rfl := same finalizes.record
      exact h.advance slots dims active finalizes.node inner parent round rfl
  | conclude | partialCancel =>
      obtain rfl := Option.some.inj ht'
      simp [Tournament.concluded] at active'
  | refund _ _ _ _ record _ refunding =>
      obtain rfl := same record
      rcases refunding_cases refunding with ⟨_, hs | hs | hs⟩ | ⟨_, hs⟩ <;> simp [hs] at active
  | closeChildren _ _ _ record ended =>
      obtain rfl := same record
      simp [terminal, active] at ended
  | closeRoot => cases ht'

end Steps

section Life

variable {a : CreateTournament} {born start s : Ledger} {past : History} (life : Life rt a born start past s)
  (fresh : Fresh a.key born) (mode : a.settlementMode ≠ .organizerOnly) (unclosed : Unclosed a.key past)
  (canonical : ∀ d ∈ accepted a.key past, Canonical rt a.key d)
include life fresh mode unclosed canonical

theorem life_grounded (ht : s.tournament? a.key = some t) (active : t.status = .active) :
    ∃ k, Standing rt a.key k (viewOf s a.key).node t ∧ Grounded rt a.key k (viewOf s a.key).node t := by
  have ht₀ := life.start_record
  have empty := life.start_empty fresh
  refine canonical_invariant (P := fun _ s => ∀ t, s.tournament? a.key = some t → t.status = .active →
    ∃ k, Standing rt a.key k (viewOf s a.key).node t ∧ Grounded rt a.key k (viewOf s a.key).node t)
    life unclosed canonical ?_ ?_ t ht active
  · intro t ht active
    obtain rfl := Option.some.inj (ht.symm.trans ht₀)
    simp [CreateTournament.record] at active
  · intro past s b s' earlier grounded step effect later unclosed canonical t' ht' active
    obtain ⟨t, ht⟩ := earlier.record
    have slots slot m (hm : (viewOf s a.key).node slot = some m) : m.slot = slot := (node_slot earlier.wf hm).1
    obtain ⟨unclosed', last⟩ := always_snoc.1 unclosed
    have status := effect_status effect ht ht'
    rcases status.playing (.inl active) with before | before | ⟨_, before⟩
    · obtain ⟨k, standing, h⟩ := grounded t ht before
      exact ⟨k, standing_step standing effect ht ht' slots (.inl before) (.inl active) last,
        grounded_step h effect ht ht' standing.dims slots before active⟩
    · have done := status.terminal (by simp [before, terminal])
      rw [active, before] at done
      cases done
    · obtain ⟨j, standing⟩ := life_standing later fresh mode unclosed canonical ht' (.inl active)
      obtain ⟨_, _, k, w, drawn, count, places, seated⟩ := life_drawn later mode unclosed canonical ht' (.inl active)
      obtain rfl := drawn_rounds standing.dims drawn count
      refine ⟨j, standing, placed_grounded (life_placed_snoc earlier effect ht ht' before) canonical places drawn ?_ seated
        standing.taken⟩
      rintro x i ⟨y, hy, _⟩
      exact (life_entered later fresh hy).2

/-- While a bracket is played, some match of it can be played. -/
theorem open_match (ht : s.tournament? a.key = some t) (active : t.status = .active) :
    ∃ slot m, s.matchNode? (.matchNode a.key slot) = some m ∧ m.status = .active := by
  obtain ⟨k, h, grounded⟩ := life_grounded life fresh mode unclosed canonical ht active
  have ready {r i : Nat} {m : MatchNode} (hm : (viewOf s a.key).node (canonicalSlot rt a.key r i) = some m)
      (open_ : m.status ≠ .completed) := h.ready _ m hm open_
  obtain ⟨last, hlast⟩ := h.at_place (root_mem k)
  have root : (boardOf rt a.key (viewOf s a.key).node).winner (k, 0) = none := by
    rw [boardOf_winner hlast, result_eq_none]
    exact grounded.root active last hlast
  obtain ⟨⟨r, i⟩, mem, open_, left, right⟩ := h.valid.exists_open (fun i mem open_ => by
    obtain ⟨m, hm⟩ := h.at_place mem
    rw [boardOf_winner hm, result_eq_none] at open_
    rw [boardOf_left hm, boardOf_right hm, seat_isSome, seat_isSome, ← ready hm open_]
    have waits := grounded.ground i m hm
    cases hs : m.status <;> simp_all) (root_mem k) root
  obtain ⟨m, hm⟩ := h.at_place mem
  rw [boardOf_winner hm, result_eq_none] at open_
  rw [boardOf_left hm, seat_isSome] at left
  rw [boardOf_right hm, seat_isSome] at right
  exact ⟨_, m, hm, (ready hm open_).2 ⟨left, right⟩⟩

end Life

end BracketChain.Playable
