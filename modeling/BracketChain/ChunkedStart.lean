import BracketChain.Acceptance
import BracketChain.FixedDraw
import Mathlib.Data.Nat.Log

namespace BracketChain.ChunkedStart

open Outcome Keys Records Accounts Registration Seeding Start Settlement Refunds Program Runs Layout View Lifecycle
  StartEffects Refinement Lives Bookkeeping Enrolment Matches Seats Elimination Building FixedDraw Acceptance Scripts

/-- The rounds that `n` participants play. -/
def roundsFor (n : Nat) : Nat := Nat.clog 2 n

/-- The draw that the seed of a closed registration demands. -/
def drawFor (t : Tournament) : Draw :=
  ⟨seedPermutation t.seedHash t.participantCount, 2 ^ roundsFor t.participantCount, t.participantCount⟩

/-- The wallet that joined as number `i`. -/
def entrant (wallets : List Pubkey) (i : Nat) : Pubkey := wallets[i]?.getD default

/-- The wallet that a bye in match `m` of the first round sends on. -/
def byeWinner (w : Draw) (wallets : List Pubkey) (m : Nat) : Pubkey :=
  match w.round0 m with
  | some (a, none) => entrant wallets a
  | _ => default

/-- The descriptor of a match as the draw demands it: both players or the bye
of a first-round match, the winners of the byes below a second-round match,
and nobody further up. -/
def canonicalDescriptor (rt : Runtime) (key : Pubkey) (w : Draw) (wallets : List Pubkey) :
    Nat × Nat → MatchInitDescriptor
  | (0, m) =>
      match w.round0 m with
      | some (a, some b) => ⟨0, 0, m, canonicalBump rt key 0 m, entrant wallets a, entrant wallets b, false⟩
      | some (a, none) => ⟨0, 0, m, canonicalBump rt key 0 m, entrant wallets a, default, true⟩
      | none => ⟨0, 0, m, canonicalBump rt key 0 m, default, default, false⟩
  | (1, m) =>
      ⟨0, 1, m, canonicalBump rt key 1 m, byeWinner w wallets (m * 2), byeWinner w wallets (m * 2 + 1), false⟩
  | (r, m) => ⟨0, r, m, canonicalBump rt key r m, default, default, false⟩

def canonicalDescriptors (rt : Runtime) (key : Pubkey) (t : Tournament) (wallets : List Pubkey) :
    List MatchInitDescriptor :=
  (grid (roundsFor t.participantCount)).map (canonicalDescriptor rt key (drawFor t) wallets)

variable {rt : Runtime} {key : Pubkey} {w : Draw} {k : Nat} {wallets : List Pubkey} {t : Tournament}

section Canonical

theorem canonicalDescriptor_slot (p : Nat × Nat) :
    (canonicalDescriptor rt key w wallets p).slot = canonicalSlot rt key p.1 p.2 := by
  obtain ⟨r, m⟩ := p
  match r with
  | 0 =>
      simp only [canonicalDescriptor]
      split <;> rfl
  | 1 | r + 2 => rfl

theorem canonicalDescriptor_position (p : Nat × Nat) :
    MatchInitDescriptor.position (canonicalDescriptor rt key w wallets p) = p := by
  have slot : (canonicalDescriptor rt key w wallets p).slot = canonicalSlot rt key p.1 p.2 := canonicalDescriptor_slot p
  exact Prod.ext (congrArg Slot.round slot) (congrArg Slot.matchIndex slot)

/-- Descriptors of different places have different addresses. -/
theorem slots_nodup {ds : List MatchInitDescriptor} (h : (ds.map MatchInitDescriptor.position).Nodup) :
    (ds.map MatchInitDescriptor.slot).Nodup := by
  refine List.Nodup.map_on (fun d hd e he hs => List.inj_on_of_nodup_map h hd he ?_) (List.Nodup.of_map _ h)
  exact Prod.ext (congrArg Slot.round hs) (congrArg Slot.matchIndex hs)

theorem roundsFor_eq {n : Nat} (low : 2 ^ k < n) (high : n ≤ 2 ^ (k + 1)) : roundsFor n = k + 1 :=
  Nat.le_antisymm ((Nat.clog_le_iff_le_pow Nat.one_lt_two).2 high) ((Nat.lt_clog_iff_pow_lt Nat.one_lt_two).2 low)

theorem roundsFor_spec {n : Nat} (two : minParticipants ≤ n) :
    ∃ k, roundsFor n = k + 1 ∧ 2 ^ k < n ∧ n ≤ 2 ^ (k + 1) := by
  obtain ⟨k, hk⟩ := Nat.exists_eq_add_of_lt (Nat.clog_pos Nat.one_lt_two two)
  rw [Nat.zero_add] at hk
  refine ⟨k, hk, ?_, ?_⟩
  · exact (Nat.lt_clog_iff_pow_lt Nat.one_lt_two).1 (by omega)
  · exact (Nat.clog_le_iff_le_pow Nat.one_lt_two).1 (Nat.le_of_eq hk)

theorem bracketSizeOf_succeeds {n : Nat} (low : 2 ^ k < n) (high : n ≤ 2 ^ (k + 1)) (small : n ≤ 32768) :
    bracketSizeOf n = .ok (2 ^ (k + 1)) := by
  have pos := Nat.two_pow_pos k
  rw [Nat.pow_succ] at high
  unfold bracketSizeOf
  split
  · have power : 2 ^ n.log2 = n := by simpa [isPowerOfTwo] using ‹isPowerOfTwo n = true›
    rw [← power] at low high
    have above := (Nat.pow_lt_pow_iff_right Nat.one_lt_two).1 low
    have below := (Nat.pow_le_pow_iff_right Nat.one_lt_two).1 (Nat.pow_succ 2 k ▸ high)
    rw [← power, Nat.le_antisymm below above]
  · have log : (n - 1).log2 = k := (Nat.log2_eq_iff (by omega)).2 ⟨by omega, by rw [Nat.pow_succ]; omega⟩
    rw [checkedNextPowerOfTwo, if_neg (show ¬ n ≤ 1 by omega), log]
    rw [if_pos (by simp only [u16Max, Nat.pow_succ]; omega)]
    rfl

theorem round0_some (drawn : Drawn w k) {m : Nat} (hm : m < 2 ^ k) :
    ∃ a o, w.round0 m = some (a, o) ∧ a < w.n ∧ ∀ b, o = some b → b < w.n := by
  have rank {i : Nat} (hi : i < w.n) : ∃ a, w.perm[i]? = some a :=
    ⟨_, Array.getElem?_eq_getElem (drawn.length.symm ▸ hi)⟩
  obtain ⟨a, ha⟩ := rank (Nat.lt_trans hm drawn.low)
  simp only [Draw.round0, round0Expected, ha, Option.bind_eq_bind, Option.bind_some]
  split
  · obtain ⟨b, hb⟩ := rank ‹_›
    rw [hb]
    refine ⟨a, some b, rfl, drawn.lt ha, ?_⟩
    rintro _ ⟨⟩
    exact drawn.lt hb
  · exact ⟨a, none, rfl, drawn.lt ha, by simp⟩

variable {p : Pubkey → Option Participant} (drawn : Drawn w k) (carries : ∀ i < w.n, Carries p (entrant wallets i) i)
  (real : ∀ x i, Carries p x i → x ≠ default)
include drawn carries real

theorem byeWinner_seated {m : Nat} (hm : m < 2 ^ k) : SlotSeated p w (byeWinner w wallets m) m := by
  obtain ⟨a, o, hw, ha, _⟩ := round0_some drawn hm
  refine ⟨a, o, hw, ?_⟩
  cases o with
  | none =>
      rw [if_pos rfl, byeWinner, hw]
      exact ⟨real _ a (carries a ha), carries a ha⟩
  | some b =>
      rw [if_neg (Option.some_ne_none b), byeWinner, hw]

theorem canonicalDescriptor_seated {q : Nat × Nat} (mem : q ∈ grid (k + 1)) :
    Seated p w (canonicalDescriptor rt key w wallets q) := by
  obtain ⟨r, m⟩ := q
  have half : 2 ^ (k + 1) / 2 = 2 ^ k := by simp [Nat.pow_succ]
  match r with
  | 0 =>
      obtain ⟨a, o, hw, ha, ho⟩ := round0_some drawn (half ▸ round_zero mem)
      simp only [canonicalDescriptor, hw]
      cases o with
      | none => exact ⟨a, none, hw, carries a ha, rfl, rfl⟩
      | some b =>
          have hb := carries b (ho b rfl)
          exact ⟨a, some b, hw, carries a ha, rfl, real _ b hb, hb⟩
  | 1 =>
      have left := half ▸ round_zero (left_mem mem)
      have right := half ▸ round_zero (right_mem mem)
      rw [Nat.mul_comm] at left right
      exact ⟨rfl, byeWinner_seated drawn carries real left, byeWinner_seated drawn carries real right⟩
  | r + 2 => exact ⟨rfl, rfl, rfl⟩

end Canonical

theorem canonical_full {v : TournamentView} (drawn : Drawn (drawWith t k) k)
    (carries : ∀ i < t.participantCount, Carries v.participant (entrant wallets i) i)
    (real : ∀ x i, Carries v.participant x i → x ≠ default) :
    Full rt key v t k ((grid (k + 1)).map (canonicalDescriptor rt key (drawWith t k) wallets)) := by
  have positions : ((grid (k + 1)).map (canonicalDescriptor rt key (drawWith t k) wallets)).map
      MatchInitDescriptor.position = grid (k + 1) := by
    rw [List.map_map]
    exact (List.map_congr_left fun p _ => canonicalDescriptor_position p).trans (List.map_id _)
  have canonical : ∀ d ∈ (grid (k + 1)).map (canonicalDescriptor rt key (drawWith t k) wallets), Canonical rt key d := by
    intro d hd
    obtain ⟨p, _, rfl⟩ := List.mem_map.1 hd
    have place : MatchInitDescriptor.position (canonicalDescriptor rt key (drawWith t k) wallets p) = p :=
      canonicalDescriptor_position p
    obtain ⟨round, index⟩ := Prod.mk.inj place
    rw [Canonical, canonicalDescriptor_slot, round, index]
  refine ⟨drawn, ?_, .of_eq positions, canonical, fun d hd => ?_⟩
  · have nodup := nodup_grid (k + 1)
    rw [← positions] at nodup
    exact slots_nodup nodup
  · obtain ⟨p, mem, rfl⟩ := List.mem_map.1 hd
    exact canonicalDescriptor_seated drawn carries real mem

theorem full_perm {v : TournamentView} {ds es : List MatchInitDescriptor} (h : Full rt key v t k ds)
    (perm : ds.Perm es) : Full rt key v t k es where
  drawn := h.drawn
  distinct := (perm.map _).nodup_iff.1 h.distinct
  places := (perm.map _).symm.trans h.places
  canonical d hd := h.canonical d (perm.mem_iff.2 hd)
  seated d hd := h.seated d (perm.mem_iff.2 hd)

section Chunks

variable {s₀ s s' : Ledger} {full done ds later : List MatchInitDescriptor}

/-- A tournament with a public seed and no matches yet, and the full bracket
that its draw demands. -/
structure Startable (rt : Runtime) (key : Pubkey) (s₀ : Ledger) (t : Tournament) (k : Nat)
    (full : List MatchInitDescriptor) : Prop where
  wf : Wellformed s₀
  record : s₀.tournament? key = some t
  registration : t.status = .registration
  mode : t.settlementMode ≠ .organizerOnly
  revealed : t.seedRevealed = true
  bounded : Bounded t
  empty : ∀ slot, (viewOf s₀ key).node slot = none
  agrees : Full rt key (viewOf s₀ key) t k full
  curve : ∀ d ∈ full, rt.offCurve (.matchNode key d.slot) = true

/-- The record between two chunks. -/
def midway (t : Tournament) (k : Nat) (done : List MatchInitDescriptor) : Tournament := { t with
  bracketSize := 2 ^ (k + 1)
  totalMatches := 2 ^ (k + 1) - 1
  status := .pendingBracketInit
  matchesInitialized := done.length
  matchesReported := byesOf done }

/-- The ledger after the chunks with the descriptors `done`. -/
structure Halfway (rt : Runtime) (key : Pubkey) (s₀ : Ledger) (t : Tournament) (k : Nat)
    (done : List MatchInitDescriptor) (s : Ledger) : Prop where
  wf : Wellformed s
  record : ∃ u, s.tournament? key = some u ∧ (done = [] ∧ u = t ∨ done ≠ [] ∧ u = midway t k done)
  participant : (viewOf s key).participant = (viewOf s₀ key).participant
  node : (viewOf s key).node = place key done (viewOf s₀ key).node

theorem Startable.halfway (start : Startable rt key s₀ t k full) : Halfway rt key s₀ t k [] s₀ :=
  ⟨start.wf, ⟨t, start.record, .inl ⟨rfl, rfl⟩⟩, rfl, rfl⟩

theorem Startable.small (start : Startable rt key s₀ t k full) : 2 ^ (k + 1) ≤ Keys.maxParticipants := by
  have low : 2 ^ k < t.participantCount := start.agrees.drawn.low
  have most := Nat.le_trans start.bounded.count start.bounded.most
  have few : k < 7 := (Nat.pow_lt_pow_iff_right Nat.one_lt_two).1 (Nat.lt_of_lt_of_le low most)
  exact Nat.pow_le_pow_right Nat.two_pos few

theorem Startable.rounds (start : Startable rt key s₀ t k full) : k + 1 < 16 := by
  have small : 2 ^ (k + 1) < 2 ^ 16 := Nat.lt_of_le_of_lt start.small (by decide)
  exact (Nat.pow_lt_pow_iff_right Nat.one_lt_two).1 small

theorem Startable.length (start : Startable rt key s₀ t k full) : full.length = 2 ^ (k + 1) - 1 := by
  rw [← length_grid, ← start.agrees.places.length_eq, List.length_map]

theorem Startable.openBracket (start : Startable rt key s₀ t k full) (bound : t.vrfRandomnessAccount ≠ default) :
    openBracket rt s key t = .ok (midway t k []) := by
  obtain ⟨initialized, reported⟩ := start.bounded.idle start.registration
  have low : 2 ^ k < t.participantCount := start.agrees.drawn.low
  have two : minParticipants ≤ t.participantCount := by
    have := Nat.two_pow_pos k
    simp only [minParticipants]
    omega
  have few := start.bounded.count.trans (start.bounded.most.trans (show Keys.maxParticipants ≤ 32768 by decide))
  have size := bracketSizeOf_succeeds low start.agrees.drawn.high few
  simp only [Start.openBracket, if_pos start.registration, bracketSeed, if_pos bound, size, bind_ok, require_ok, pure_ok]
  refine ⟨(), two, t.seedHash, ⟨(), start.revealed, rfl⟩, _, rfl, (), Nat.one_le_two_pow, ?_⟩
  simp only [midway, byesOf, List.length_nil, List.filter_nil, initialized, reported]

theorem drawOf_midway (mode : t.settlementMode ≠ .organizerOnly) : drawOf (midway t k done) = some (drawWith t k) :=
  if_neg mode

/-- What the next chunk finds: the record it works with, and descriptors that
it accepts. -/
theorem Halfway.next (h : Halfway rt key s₀ t k done s) (start : Startable rt key s₀ t k full)
    (bound : t.vrfRandomnessAccount ≠ default) (split : (done ++ (ds ++ later)).Perm full) :
    (∃ u, s.tournament? key = some u ∧ Start.openBracket rt s key u = .ok (midway t k done) ∧
      u.organizer = t.organizer) ∧ Chunk rt key (viewOf s key) (midway t k done) ds := by
  have whole := full_perm start.agrees split.symm
  have mem {d : MatchInitDescriptor} (hd : d ∈ ds) : d ∈ done ++ (ds ++ later) :=
    List.mem_append_right _ (List.mem_append_left _ hd)
  have place {d : MatchInitDescriptor} (hd : d ∈ ds) : MatchInitDescriptor.position d ∈ grid (k + 1) :=
    whole.places.mem_iff.1 (List.mem_map_of_mem (mem hd))
  have distinct := whole.distinct
  simp only [List.map_append, List.nodup_append, List.mem_append] at distinct
  obtain ⟨_, ⟨own, _, _⟩, apart⟩ := distinct
  refine ⟨?_, ?_, fun d hd => ?_, fun w hw d hd => ?_, fun d hd => start.curve d (split.mem_iff.1 (mem hd)), ?_, own⟩
  · obtain ⟨u, hu, ⟨rfl, rfl⟩ | ⟨_, rfl⟩⟩ := h.record
    · exact ⟨u, hu, start.openBracket bound, rfl⟩
    · exact ⟨_, hu, if_neg (by simp [midway]), rfl⟩
  · intro d hd
    exact trailingZeros_pow start.rounds ▸ (mem_grid.1 (place hd)).1
  · exact (mem_grid.1 (place hd)).2
  · obtain rfl := Option.some.inj ((drawOf_midway start.mode).symm.trans hw)
    rw [h.participant]
    exact whole.seated d (mem hd)
  · intro d hd
    rw [h.node, place_of_notMem _ fun e he hs => ?_, start.empty]
    exact apart _ (List.mem_map_of_mem he) _ (.inl (List.mem_map_of_mem hd)) hs

theorem Halfway.opened (h : Halfway rt key s₀ t k done s) (start : Startable rt key s₀ t k full) {u t₁ : Tournament}
    (hu : s.tournament? key = some u) (opens : Opens u t₁) : t₁ = midway t k done := by
  obtain ⟨u', hu', cases⟩ := h.record
  obtain rfl := Option.some.inj (hu.symm.trans hu')
  rcases cases with ⟨rfl, rfl⟩ | ⟨_, rfl⟩
  · obtain ⟨initialized, reported⟩ := start.bounded.idle start.registration
    rcases opens with ⟨_, _, seed, size, hsize, revealed, rfl⟩ | ⟨pending, _⟩
    · have few := start.bounded.count.trans (start.bounded.most.trans (show Keys.maxParticipants ≤ 32768 by decide))
      have size_eq := bracketSizeOf_succeeds start.agrees.drawn.low start.agrees.drawn.high few
      obtain rfl := Except.ok.inj (size_eq.symm.trans hsize)
      obtain ⟨_, rfl⟩ := revealed start.mode
      simp only [midway, byesOf, List.length_nil, List.filter_nil, initialized, reported]
    · cases start.registration.symm.trans pending
  · rcases opens with ⟨registration, _⟩ | ⟨_, rfl⟩
    · cases registration
    · rfl

/-- The ledger and the record after an accepted chunk. -/
theorem Halfway.sent (h : Halfway rt key s₀ t k done s) (start : Startable rt key s₀ t k full)
    (step : Step rt s (.call (.startTournament (chunkOf t.organizer key ds))) s') :
    ∃ u, viewOf s' key = { viewOf s key with record := some u, node := place key ds (viewOf s key).node } ∧
      tally (midway t k done) ds.length (byesOf ds) s.clock.unixTimestamp = .ok u ∧ ds.length ≤ u16Max := by
  have effect := step_effect h.wf (isTournament_of_record start.wf start.record) step
  generalize hv : viewOf s' key = v at effect
  cases effect with
  | others _ other => exact absurd rfl other
  | start _ _ record _ opens _ tallied bound =>
      rw [h.opened start record opens] at tallied
      exact ⟨_, rfl, tallied, bound⟩
  | edit _ _ _ call => cases call
  | advance _ _ _ _ finalizes | conclude _ _ _ _ _ finalizes => cases finalizes.call
  | refund _ _ _ _ _ _ refunding => cases refunding

theorem Halfway.between (h : Halfway rt key s₀ t k done s) (start : Startable rt key s₀ t k full)
    (split : (done ++ (ds ++ later)).Perm full) (some_ : ds ≠ []) (more : later ≠ [])
    (step : Step rt s (.call (.startTournament (chunkOf t.organizer key ds))) s') :
    Halfway rt key s₀ t k (done ++ ds) s' := by
  obtain ⟨u, view, tallied, bound⟩ := h.sent start step
  have short : (midway t k done).matchesInitialized + ds.length ≠ (midway t k done).totalMatches := by
    change done.length + ds.length ≠ 2 ^ (k + 1) - 1
    rw [← start.length, ← split.length_eq, List.length_append, List.length_append]
    have := List.length_pos_iff.2 more
    omega
  have counted := tally_ok bound tallied
  rw [if_neg short, if_neg short] at counted
  refine ⟨(step_confined h.wf step).wf, ⟨u, congrArg TournamentView.record view, .inr ⟨?_, ?_⟩⟩, ?_, ?_⟩
  · exact List.append_ne_nil_of_right_ne_nil _ some_
  · rw [counted, midway, midway, byesOf_append, List.length_append]
  · rw [view]
    exact h.participant
  · rw [view, place_append, ← h.node]

/-- The next chunk of the bracket goes through. -/
theorem Halfway.accepts (h : Halfway rt key s₀ t k done s) (start : Startable rt key s₀ t k full)
    (bound : t.vrfRandomnessAccount ≠ default) (split : (done ++ (ds ++ later)).Perm full)
    (funded : Funded rt key t.organizer s ds) (grows : Monotone rt.minimumBalance)
    (rests : Rests rt t.organizer s (ds.length + later.length)) :
    ∃ s', Step rt s (.call (.startTournament (chunkOf t.organizer key ds))) s' ∧
      Charged rt key t.organizer ds s s' := by
  obtain ⟨⟨u, hu, opened, organizer⟩, chunk⟩ := h.next start bound split
  obtain ⟨_, _, signer⟩ := record_fits h.wf hu
  rw [organizer] at signer
  have length := split.length_eq
  have small := start.small
  rw [start.length, List.length_append, List.length_append] at length
  simp only [Keys.maxParticipants] at small
  have byes : byesOf done ≤ done.length := List.length_filter_le _ _
  obtain ⟨s', ran⟩ := start_accepts h.wf hu opened rfl (drawOf_midway start.mode) chunk (organizer ▸ funded)
    (by simp only [midway, u16Max]; omega) (by simp only [midway, u16Max]; omega)
  rw [organizer] at ran
  have charged := (start_charges h.wf signer ran).2
  have bytes : Instruction.descriptorBytes (.startTournament (chunkOf t.organizer key ds)) ≤ maxInstructionData := by
    simp only [Instruction.descriptorBytes, chunkOf, maxInstructionData]
    omega
  refine ⟨s', call_step signer bytes ran ?_, charged⟩
  intro p payer
  obtain rfl := Option.some.inj payer
  exact charged.allowed grows rests

/-- The tournament has started: the bracket holds the matches of the
descriptors, and only its byes are decided. -/
structure Ready (key : Pubkey) (n : Nat) (full : List MatchInitDescriptor) (s : Ledger) (u : Tournament) : Prop where
  record : s.tournament? key = some u
  active : u.status = .active
  size : u.bracketSize = 2 ^ roundsFor n
  total : u.totalMatches = u.bracketSize - 1
  initialized : u.matchesInitialized = u.totalMatches
  reported : u.matchesReported = u.bracketSize - n
  nodes : ∀ slot m, s.matchNode? (.matchNode key slot) = some m ↔ ∃ d ∈ full, d.slot = slot ∧ m = d.node key
  byes : ∀ slot m, s.matchNode? (.matchNode key slot) = some m → m.bye = true →
    m.status = .completed ∧ m.winner = m.playerA ∧ m.playerA ≠ default ∧ m.playerB = default
  others : ∀ slot m, s.matchNode? (.matchNode key slot) = some m → m.bye = false →
    m.status = if m.playerA ≠ default ∧ m.playerB ≠ default then .active else .pending

theorem place_empty {node : Slot → Option MatchNode} (empty : ∀ slot, node slot = none)
    (distinct : (ds.map MatchInitDescriptor.slot).Nodup) (slot : Slot) (m : MatchNode) :
    place key ds node slot = some m ↔ ∃ d ∈ ds, d.slot = slot ∧ m = d.node key := by
  constructor
  · intro hm
    by_cases found : ∃ d ∈ ds, d.slot = slot
    · obtain ⟨d, hd, rfl⟩ := found
      rw [place_of_mem node distinct hd] at hm
      exact ⟨d, hd, rfl, (Option.some.inj hm).symm⟩
    · rw [place_of_notMem node fun d hd hs => found ⟨d, hd, hs⟩, empty] at hm
      cases hm
  · rintro ⟨d, hd, rfl, rfl⟩
    exact place_of_mem node distinct hd

theorem Halfway.last (h : Halfway rt key s₀ t k done s) (start : Startable rt key s₀ t k full)
    (split : (done ++ ds).Perm full)
    (step : Step rt s (.call (.startTournament (chunkOf t.organizer key ds))) s') :
    ∃ u, Ready key t.participantCount full s' u := by
  obtain ⟨u, view, tallied, bound⟩ := h.sent start step
  have filled : (midway t k done).matchesInitialized + ds.length = (midway t k done).totalMatches := by
    change done.length + ds.length = 2 ^ (k + 1) - 1
    rw [← start.length, ← split.length_eq, List.length_append]
  have counted := tally_ok bound tallied
  rw [if_pos filled, if_pos filled, filled] at counted
  have drawn := start.agrees.drawn
  have rounds : roundsFor t.participantCount = k + 1 := roundsFor_eq drawn.low drawn.high
  have all := full_perm start.agrees split.symm
  have reported : byesOf done + byesOf ds = 2 ^ (k + 1) - t.participantCount := by
    rw [← byesOf_append]
    exact byes_forced drawn all.seated all.places
  have nodes (slot : Slot) (m : MatchNode) : s'.matchNode? (.matchNode key slot) = some m ↔
      ∃ d ∈ full, d.slot = slot ∧ m = d.node key := by
    have placed : (viewOf s' key).node = place key (done ++ ds) (viewOf s₀ key).node := by
      rw [view, place_append, ← h.node]
    change (viewOf s' key).node slot = some m ↔ _
    rw [placed, place_empty start.empty all.distinct]
    simp only [split.mem_iff]
  refine ⟨u, congrArg TournamentView.record view, ?_, ?_, ?_, ?_, ?_, nodes, fun slot m hm bye => ?_,
    fun slot m hm played => ?_⟩
  · rw [counted]
  · rw [counted, rounds]
    rfl
  · rw [counted]
    rfl
  · rw [counted]
  · rw [counted]
    exact reported
  · obtain ⟨d, hd, rfl, rfl⟩ := (nodes slot m).1 hm
    replace bye : d.bye = true := bye
    have seated := start.agrees.seated d hd
    have first : d.round = 0 := by
      by_contra above
      rw [Seated, if_neg above, bye] at seated
      exact Bool.noConfusion seated.1
    rw [Seated, if_pos first] at seated
    obtain ⟨a, _, _, carries, _⟩ := seated
    have real := carries_real start.wf carries
    simp [MatchInitDescriptor.node, MatchInitDescriptor.status, bye, real]
  · obtain ⟨d, hd, rfl, rfl⟩ := (nodes slot m).1 hm
    replace played : d.bye = false := played
    simp [MatchInitDescriptor.node, MatchInitDescriptor.status, played]

/-- Send chunks one after another. The result is an error as soon as one of
them is refused. -/
def sendChunks (rt : Runtime) (organizer key : Pubkey) :
    Ledger → List (List MatchInitDescriptor) → Except Error Ledger :=
  each fun s ds => (Action.call (.startTournament (chunkOf organizer key ds))).run rt s

/-- All chunks are accepted. The tournament waits for more of them up to the
last one, and starts with it. -/
structure StartsInChunks (rt : Runtime) (key : Pubkey) (t : Tournament) (full : List MatchInitDescriptor)
    (s : Ledger) (chunks : List (List MatchInitDescriptor)) : Prop where
  pending : ∀ before after, chunks = before ++ after → before ≠ [] → after ≠ [] →
    ∃ mid u, sendChunks rt t.organizer key s before = .ok mid ∧ mid.tournament? key = some u ∧
      u.status = .pendingBracketInit
  started : ∃ last u, sendChunks rt t.organizer key s chunks = .ok last ∧ Ready key t.participantCount full last u

/-- What a start needs besides honest chunks: the randomness account is not
at the address that stands for none, nobody sent lamports to the address of a
match, and the organizer has a wallet that the rent of all matches leaves
empty or with the minimum balance. -/
structure Unhindered (rt : Runtime) (key : Pubkey) (t : Tournament) (s : Ledger) : Prop where
  bound : t.vrfRandomnessAccount ≠ default
  clear : ∀ p ∈ grid (roundsFor t.participantCount), s.lamports (.matchNode key (canonicalSlot rt key p.1 p.2)) = 0
  wallet : s.accounts t.organizer = .system
  rent : Rests rt t.organizer s (2 ^ roundsFor t.participantCount - 1)

variable {chunks : List (List MatchInitDescriptor)} {organizer : Pubkey}

theorem flatten_ne_nil (some_ : ∀ ds ∈ chunks, ds ≠ []) (more : chunks ≠ []) : chunks.flatten ≠ [] := by
  obtain ⟨ds, mem⟩ := List.exists_mem_of_ne_nil chunks more
  intro nil
  exact some_ ds mem (List.flatten_eq_nil_iff.1 nil ds mem)

theorem Halfway.sends (h : Halfway rt key s₀ t k done s) (start : Startable rt key s₀ t k full)
    (bound : t.vrfRandomnessAccount ≠ default) (some_ : ∀ ds ∈ chunks, ds ≠ [])
    (split : (done ++ (chunks.flatten ++ later)).Perm full) (more : later ≠ [])
    (funded : Funded rt key t.organizer s (chunks.flatten ++ later)) (grows : Monotone rt.minimumBalance)
    (rests : Rests rt t.organizer s (chunks.flatten ++ later).length) :
    ∃ s', sendChunks rt t.organizer key s chunks = .ok s' ∧ Halfway rt key s₀ t k (done ++ chunks.flatten) s' ∧
      Funded rt key t.organizer s' later ∧ Rests rt t.organizer s' later.length := by
  induction chunks generalizing done s with
  | nil => exact ⟨s, rfl, by simpa using h, by simpa using funded, by simpa using rests⟩
  | cons ds chunks ih =>
      obtain ⟨some_, rest⟩ := List.forall_mem_cons.1 some_
      rw [List.flatten_cons, List.append_assoc] at split funded rests
      rw [List.length_append] at rests
      obtain ⟨s₁, step, charged⟩ := h.accepts start bound split funded.left grows rests
      have between := h.between start split some_ (List.append_ne_nil_of_right_ne_nil _ more) step
      have distinct : ((ds ++ (chunks.flatten ++ later)).map MatchInitDescriptor.slot).Nodup := by
        have whole := (full_perm start.agrees split.symm).distinct
        rw [List.map_append] at whole
        exact (List.nodup_append.1 whole).2.1
      have paid := (funded_append charged funded.left distinct).1 funded
      rw [← List.append_assoc] at split
      obtain ⟨s', sent, halfway, left⟩ := ih between rest split paid (charged.rests_iff.1 rests)
      refine ⟨s', (each_cons_ok _ _ _ _ _).2 ⟨s₁, step, sent⟩, ?_, left⟩
      rwa [List.flatten_cons, ← List.append_assoc]

/-- The last chunk has left the organizer with nothing or with enough. -/
theorem send_charges (wf : Wellformed s) (signer : organizer.canSign = true) (grows : Monotone rt.minimumBalance)
    (some_ : ∀ ds ∈ chunks, ds ≠ []) (more : chunks ≠ [])
    (distinct : (chunks.flatten.map MatchInitDescriptor.slot).Nodup)
    (h : sendChunks rt organizer key s chunks = .ok s') :
    Funded rt key organizer s chunks.flatten ∧ Rests rt organizer s chunks.flatten.length := by
  induction chunks generalizing s with
  | nil => exact absurd rfl more
  | cons ds chunks ih =>
      obtain ⟨first, rest⟩ := List.forall_mem_cons.1 some_
      obtain ⟨s₁, step, sent⟩ := (each_cons_ok _ _ _ _ _).1 h
      obtain ⟨_, _, ran⟩ := call_ran step
      obtain ⟨funded, charged⟩ := start_charges wf signer ran
      by_cases last : chunks = []
      · subst last
        rw [List.flatten_cons, List.flatten_nil, List.append_nil]
        have allowed := (step_iff.1 step).2 organizer rfl
        have wallet : rt.minimumBalance 0 ≤ rt.minimumBalance matchNodeSpace := grows (Nat.zero_le _)
        have one : rt.minimumBalance matchNodeSpace * 1 ≤ rt.minimumBalance matchNodeSpace * ds.length :=
          Nat.mul_le_mul_left _ (List.length_pos_iff.2 first)
        have rent : rt.minimumBalance matchNodeSpace * ds.length ≤ s.lamports organizer := funded.rent
        have paid : s₁.lamports organizer + rt.minimumBalance matchNodeSpace * ds.length = s.lamports organizer :=
          charged.paid
        refine ⟨funded, ?_⟩
        rcases allowed with none_ | enough | ⟨_, poor⟩
        · exact .inl (by omega)
        · exact .inr (by omega)
        · -- whoever pays for a match was no poor wallet before
          omega
      · have tail : (chunks.flatten.map MatchInitDescriptor.slot).Nodup := by
          rw [List.flatten_cons, List.map_append] at distinct
          exact (List.nodup_append.1 distinct).2.1
        obtain ⟨funded', rests'⟩ := ih (step_confined wf step).wf rest last tail sent
        rw [List.flatten_cons, List.length_append]
        exact ⟨(funded_append charged funded distinct).2 funded', charged.rests_iff.2 rests'⟩

/-- A tournament that is not bound to a randomness account does not start. -/
theorem start_bound {c : StartTournament} (ht : s.tournament? c.tournament = some t)
    (registration : t.status = .registration) (mode : t.settlementMode ≠ .organizerOnly)
    (h : startTournament rt c s = .ok s') : t.vrfRandomnessAccount ≠ default := by
  simp only [startTournament, bind_ok, require_ok, Ledger.loadTournament_ok] at h
  obtain ⟨u, ⟨hu, _⟩, _, _, _, _, t₁, opened, _⟩ := h
  obtain rfl := Option.some.inj (ht.symm.trans hu)
  intro none_
  simp only [Start.openBracket, if_pos registration, bracketSeed, if_neg (not_not.2 none_), bind_ok, require_ok] at opened
  obtain ⟨_, _, _, ⟨_, trust, _⟩, _⟩ := opened
  exact mode trust

theorem Startable.starts (start : Startable rt key s₀ t k full) (bound : t.vrfRandomnessAccount ≠ default)
    (some_ : ∀ ds ∈ chunks, ds ≠ []) (partition : chunks.flatten.Perm full)
    (funded : Funded rt key t.organizer s₀ full) (grows : Monotone rt.minimumBalance)
    (rests : Rests rt t.organizer s₀ full.length) : StartsInChunks rt key t full s₀ chunks := by
  replace funded := funded.of_perm partition.symm
  rw [← partition.length_eq] at rests
  constructor
  · rintro before after rfl begun more
    rw [List.flatten_append] at partition funded rests
    rw [List.forall_mem_append] at some_
    obtain ⟨mid, sent, halfway, _⟩ :=
      start.halfway.sends start bound some_.1 partition (flatten_ne_nil some_.2 more) funded grows rests
    obtain ⟨u, hu, ⟨none_, _⟩ | ⟨_, rfl⟩⟩ := halfway.record
    · exact absurd none_ (flatten_ne_nil some_.1 begun)
    · exact ⟨mid, _, sent, hu, rfl⟩
  · have nonempty : chunks ≠ [] := by
      rintro rfl
      have length := partition.length_eq
      have pos := Nat.two_pow_pos k
      rw [start.length, Nat.pow_succ] at length
      simp only [List.flatten_nil, List.length_nil] at length
      omega
    obtain ⟨before, ds, rfl⟩ := (List.eq_nil_or_concat chunks).resolve_left nonempty
    rw [List.concat_eq_append] at *
    rw [List.flatten_append, List.flatten_singleton] at partition funded rests
    rw [List.forall_mem_append, List.forall_mem_singleton] at some_
    obtain ⟨mid, sent, halfway, paid, left⟩ :=
      start.halfway.sends start bound some_.1 partition some_.2 funded grows rests
    rw [List.nil_append] at halfway
    have whole : (before.flatten ++ (ds ++ [])).Perm full := by rwa [List.append_nil]
    obtain ⟨last, step, _⟩ := halfway.accepts start bound whole paid grows left
    obtain ⟨u, ready⟩ := halfway.last start partition step
    refine ⟨last, u, ?_, ready⟩
    rw [sendChunks, each_append, bind_ok]
    exact ⟨mid, sent, (each_cons_ok _ _ _ _ _).2 ⟨last, step, rfl⟩⟩

theorem Startable.needs (start : Startable rt key s₀ t k full) (some_ : ∀ ds ∈ chunks, ds ≠ [])
    (partition : chunks.flatten.Perm full) (grows : Monotone rt.minimumBalance)
    (h : StartsInChunks rt key t full s₀ chunks) :
    t.vrfRandomnessAccount ≠ default ∧ Funded rt key t.organizer s₀ full ∧ Rests rt t.organizer s₀ full.length := by
  obtain ⟨last, u, sent, ready⟩ := h.started
  obtain ⟨_, _, signer⟩ := record_fits start.wf start.record
  have distinct := (full_perm start.agrees partition.symm).distinct
  cases chunks with
  | nil =>
      obtain rfl : s₀ = last := by simpa [sendChunks, each] using sent
      obtain rfl := Option.some.inj (start.record.symm.trans ready.record)
      cases start.registration.symm.trans ready.active
  | cons ds chunks =>
      obtain ⟨funded, rests⟩ := send_charges start.wf signer grows some_ (List.cons_ne_nil ds chunks) distinct sent
      rw [partition.length_eq] at rests
      obtain ⟨s₁, step, _⟩ := (each_cons_ok _ _ _ _ _).1 sent
      obtain ⟨_, _, ran⟩ := call_ran step
      exact ⟨start_bound start.record start.registration start.mode ran, funded.of_perm partition, rests⟩

end Chunks

section Life

variable {a : CreateTournament} {born start s : Ledger} {past : History} {chunks : List (List MatchInitDescriptor)}

/-- In a fresh tournament the wallet that joined as number `i` carries it. -/
theorem entrant_carries (life : Life rt a born start past s) (fresh : Fresh a.key born)
    (ht : s.tournament? a.key = some t) (live : ¬ terminal t.status) {i : Nat} (hi : i < t.participantCount) :
    Carries (viewOf s a.key).participant (entrant (joins a.key past) i) i := by
  obtain ⟨w, _, carries⟩ := (life_enrolled life ht live).holder hi
  have held := carries
  obtain ⟨x, hx, rfl⟩ := held
  rwa [entrant, (life_entered life fresh hx).1]

theorem life_startable (life : Life rt a born start past s) (fresh : Fresh a.key born)
    (mode : a.settlementMode ≠ .organizerOnly) (ht : s.tournament? a.key = some t)
    (registration : t.status = .registration) (revealed : t.seedRevealed = true)
    (two : minParticipants ≤ t.participantCount)
    (bumps : ∀ p ∈ grid (roundsFor t.participantCount),
      rt.offCurve (.matchNode a.key (canonicalSlot rt a.key p.1 p.2)) = true) :
    ∃ k, roundsFor t.participantCount = k + 1 ∧
      Startable rt a.key s t k (canonicalDescriptors rt a.key t (joins a.key past)) := by
  obtain ⟨k, rounds, low, high⟩ := roundsFor_spec two
  have live : ¬ terminal t.status := by simp [registration, terminal]
  have same := (life.course.terms life.start_record ht).settlementMode
  have draw : drawFor t = drawWith t k := by rw [drawFor, drawWith, rounds]
  have list : canonicalDescriptors rt a.key t (joins a.key past) =
      (grid (k + 1)).map (canonicalDescriptor rt a.key (drawWith t k) (joins a.key past)) := by
    rw [canonicalDescriptors, rounds, draw]
  obtain ⟨u, hu, built⟩ := course_built life.course life.start_record rfl (unclosed_of_live life.course ht live)
  obtain rfl := Option.some.inj (ht.symm.trans hu)
  refine ⟨k, rounds, life.wf, ht, registration, ?_, revealed,
    reachable_bounded (reachable_run life.course.reachable life.run) ht, fun slot => ?_, ?_, fun d hd => ?_⟩
  · rw [same]
    exact mode
  · have taken := built.taken slot
    simp only [built.idle registration, life.start_empty fresh slot, Option.isSome_none, List.not_mem_nil, false_and,
      exists_false, or_false, Bool.false_eq_true, iff_false] at taken
    exact Option.not_isSome_iff_eq_none.1 taken
  · rw [list]
    exact canonical_full ⟨seedPermutation_perm _ _, rfl, low, high⟩ (fun i hi => entrant_carries life fresh ht live hi)
      fun x i carries => carries_real life.wf carries
  · obtain ⟨p, mem, rfl⟩ := List.mem_map.1 hd
    rw [canonicalDescriptor_slot]
    exact bumps p mem

theorem unhindered_iff {k : Nat} {full : List MatchInitDescriptor} (rounds : roundsFor t.participantCount = k + 1)
    (start : Startable rt key s t k full) :
    Unhindered rt key t s ↔ t.vrfRandomnessAccount ≠ default ∧ Funded rt key t.organizer s full ∧
      Rests rt t.organizer s full.length := by
  have places {q : Nat × Nat} : q ∈ grid (k + 1) ↔ ∃ d ∈ full, MatchInitDescriptor.position d = q :=
    start.agrees.places.mem_iff.symm.trans List.mem_map
  constructor
  · intro h
    have rests : Rests rt t.organizer s full.length := by
      rw [start.length, ← rounds]
      exact h.rent
    refine ⟨h.bound, ⟨fun d hd => ?_, fun _ => h.wallet, rests.rent⟩, rests⟩
    have clear := h.clear _ (rounds ▸ places.2 ⟨d, hd, rfl⟩)
    rwa [start.agrees.canonical d hd]
  · rintro ⟨bound, funded, rests⟩
    have some_ : full ≠ [] := by
      rintro rfl
      have length := start.length
      have pos := Nat.two_pow_pos k
      rw [Nat.pow_succ] at length
      simp only [List.length_nil] at length
      omega
    refine ⟨bound, fun q mem => ?_, funded.wallet some_, ?_⟩
    · obtain ⟨d, hd, rfl⟩ := places.1 (rounds ▸ mem)
      have clear := funded.clear d hd
      rwa [start.agrees.canonical d hd] at clear
    · rw [rounds, ← start.length]
      exact rests

/-- Honest chunks, in any partition and order, start a fresh tournament with a
public seed exactly when nothing hinders them. -/
theorem honest_chunks_start (life : Life rt a born start past s) (fresh : Fresh a.key born)
    (mode : a.settlementMode ≠ .organizerOnly) (ht : s.tournament? a.key = some t)
    (registration : t.status = .registration) (revealed : t.seedRevealed = true)
    (two : minParticipants ≤ t.participantCount)
    (bumps : ∀ p ∈ grid (roundsFor t.participantCount),
      rt.offCurve (.matchNode a.key (canonicalSlot rt a.key p.1 p.2)) = true)
    (grows : Monotone rt.minimumBalance)
    (nonempty : ∀ ds ∈ chunks, ds ≠ [])
    (partition : chunks.flatten.Perm (canonicalDescriptors rt a.key t (joins a.key past))) :
    StartsInChunks rt a.key t (canonicalDescriptors rt a.key t (joins a.key past)) s chunks ↔
      Unhindered rt a.key t s := by
  obtain ⟨k, rounds, startable⟩ := life_startable life fresh mode ht registration revealed two bumps
  rw [unhindered_iff rounds startable]
  constructor
  · intro starts
    exact startable.needs nonempty partition grows starts
  · rintro ⟨bound, funded, rests⟩
    exact startable.starts bound nonempty partition funded grows rests

end Life

section Samples

def threeRevealed (key : Pubkey) : List Action :=
  [joinAs 2 key, joinAs 3 key, joinAs 4 key, .call (.requestSeed ⟨.key 1, key, .key 200⟩),
    .call (.revealSeed ⟨.key 5, key, .key 200⟩)]

/-- The matches of three participants under the all-zero seed: a bye, and the
final with its winner. -/
def byeOf3 : MatchInitDescriptor := ⟨0, 0, 0, 255, .key 3, default, true⟩

def gameOf3 : MatchInitDescriptor := ⟨0, 0, 1, 255, .key 2, .key 4, false⟩

def lastOf3 : MatchInitDescriptor := ⟨0, 1, 0, 255, .key 3, default, false⟩

theorem threeRevealed_life : SampleLife (threeRevealed sampleTournament.key) :=
  script_life sampleBorn_reachable rfl (by decide) (by decide)

def drawnThree : Ledger :=
  after sampleRuntime (created sampleRuntime sampleTournament sampleBorn) (threeRevealed sampleTournament.key)

theorem drawnThree_ready : ∃ t, drawnThree.tournament? sampleTournament.key = some t ∧ t.status = .registration ∧
    t.seedRevealed = true ∧ t.participantCount = 3 ∧ Unhindered sampleRuntime sampleTournament.key t drawnThree ∧
    canonicalDescriptors sampleRuntime sampleTournament.key t [.key 2, .key 3, .key 4] = [byeOf3, gameOf3, lastOf3] :=
  ⟨_, rfl, rfl, rfl, rfl, ⟨by decide, by decide, rfl, .inr (by decide)⟩, by decide⟩

/-- The final is sent before the matches that lead to it. -/
theorem threeRevealed_starts : ∃ t, drawnThree.tournament? sampleTournament.key = some t ∧
    StartsInChunks sampleRuntime sampleTournament.key t [byeOf3, gameOf3, lastOf3] drawnThree
      [[lastOf3], [gameOf3, byeOf3]] := by
  obtain ⟨t, ht, registration, revealed, count, unhindered, list⟩ := drawnThree_ready
  have partition : [[lastOf3], [gameOf3, byeOf3]].flatten.Perm
      (canonicalDescriptors sampleRuntime sampleTournament.key t [.key 2, .key 3, .key 4]) := by
    rw [list]
    decide
  have starts := (honest_chunks_start threeRevealed_life sampleBorn_fresh (by decide) ht registration revealed
    (by rw [count]; decide) (fun _ _ => rfl) sampleRuntime_grows (by decide) partition).2 unhindered
  exact ⟨t, ht, list ▸ starts⟩

/-- Someone sends the least that the runtime lets through to the address of
the only match. -/
def prefunded : List Action :=
  twoRevealed sampleTournament.key ++ [.outside (.sendLamports (finalMatch sampleTournament.key) 890880)]

theorem prefunded_refused : ∃ past s t, SampleLife prefunded ∧
    past = log sampleRuntime (created sampleRuntime sampleTournament sampleBorn) prefunded ∧
    s = after sampleRuntime (created sampleRuntime sampleTournament sampleBorn) prefunded ∧
    Fresh sampleTournament.key sampleBorn ∧ sampleTournament.settlementMode ≠ .organizerOnly ∧
    s.tournament? sampleTournament.key = some t ∧ t.status = .registration ∧ t.seedRevealed = true ∧
    minParticipants ≤ t.participantCount ∧
    canonicalDescriptors sampleRuntime sampleTournament.key t (joins sampleTournament.key past) = [sampleFinal] ∧
    sendChunks sampleRuntime t.organizer sampleTournament.key s [[sampleFinal]] = .error .accountAlreadyInUse ∧
    ¬ StartsInChunks sampleRuntime sampleTournament.key t [sampleFinal] s [[sampleFinal]] := by
  have refused : sendChunks sampleRuntime (.key 1) sampleTournament.key
      (after sampleRuntime (created sampleRuntime sampleTournament sampleBorn) prefunded) [[sampleFinal]] =
      .error .accountAlreadyInUse := rfl
  refine ⟨_, _, _, script_life sampleBorn_reachable rfl (by decide) (by decide), rfl, rfl, sampleBorn_fresh, by decide,
    rfl, rfl, rfl, by decide, by decide, refused, ?_⟩
  rintro ⟨_, last, u, sent, _⟩
  cases refused.symm.trans sent

end Samples

end BracketChain.ChunkedStart
