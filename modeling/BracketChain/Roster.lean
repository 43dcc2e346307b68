import BracketChain.Entitlement
import BracketChain.Knockout
import BracketChain.Tree

namespace BracketChain.Roster

open Outcome Keys Records Accounts Registration Seeding Start Settlement Envelope Refunds Program Runs Layout View
  Lifecycle Refinement Lives Bookkeeping Entitlement Enrolment Matches Seats Elimination Knockout Building
  Completeness FixedDraw Filling Standings BracketChain.Tree

variable {rt : Runtime} {key : Pubkey} {clock : Clock} {b : Action} {v v' : TournamentView} {t t' : Tournament} {k : Nat}

/-- The two players of a first-round match are not the same. -/
theorem seated_distinct (key : Pubkey) {p : Pubkey → Option Participant} {w : Draw} (drawn : Drawn w k)
    {d : MatchInitDescriptor} (seated : Seated p w d) (first : d.round = 0) (real : d.playerA ≠ default) :
    (d.node key).playerA ≠ (d.node key).playerB := by
  rw [Seated, if_pos first] at seated
  obtain ⟨i, o, hw, carriesA, opponent⟩ := seated
  obtain ⟨ha, ho⟩ := drawn.round0 hw
  intro same
  split at ho
  · obtain ⟨j, hb, rfl⟩ := ho
    obtain ⟨bye, _, carriesB⟩ := opponent
    replace same : d.playerA = d.playerB := by simpa [MatchInitDescriptor.node, bye] using same
    obtain rfl := Carries.unique carriesA (same ▸ carriesB)
    have ranks := drawn.rank_unique ha hb
    have pos := Nat.two_pow_pos k
    rw [Nat.pow_succ] at ranks
    omega
  · subst ho
    exact real (by simpa [MatchInitDescriptor.node, opponent.1] using same)

/-- What is left of a bracket when its tournament is cancelled halfway. -/
theorem halted_step (h : Standing rt key k v.node t) (effect : Effect rt key clock b v v') (ht : v.record = some t)
    (ht' : v'.record = some t') (halted : t'.status = .partialCancelled)
    (unclosed : ∀ c, b = .call (.closeTournament c) → c.tournament ≠ key) :
    Standing rt key k v'.node t' ∧ boardOf rt key v'.node = boardOf rt key v.node ∧ joinedBy key b = [] := by
  have same {t₁ : Tournament} (h₁ : v.record = some t₁) : t = t₁ := Option.some.inj (ht.symm.trans h₁)
  cases effect with
  | others _ other =>
      obtain rfl := same ht'
      exact ⟨h.keep (fun _ => rfl) h.dims ⟨rfl, rfl, rfl⟩, rfl, joinedBy_other other⟩
  | create _ _ _ unopened => simp [ht] at unopened
  | join _ _ _ _ record _ _ open_ | requestSeed _ _ record _ open_ =>
      obtain rfl := Option.some.inj ht'
      simp [open_] at halted
  | revealSeed _ _ _ record =>
      obtain rfl := same record
      obtain rfl := Option.some.inj ht'
      exact ⟨h.keep (fun _ => rfl) (h.dims.of_same rfl rfl rfl) ⟨rfl, rfl, rfl⟩, rfl, rfl⟩
  | partialCancel _ _ record =>
      obtain rfl := same record
      obtain rfl := Option.some.inj ht'
      exact ⟨⟨h.dims.of_same rfl rfl rfl, h.taken, h.valid, h.ready, h.count, fun done => by cases done⟩, rfl, rfl⟩
  | start _ _ record _ opens _ tallied bound =>
      obtain rfl := Option.some.inj ht'
      rw [tally_ok bound tallied] at halted
      simp only [(opens_status opens).2] at halted
      split at halted <;> cases halted
  | @edit _ ix c slot _ m m' call _ _ _ node edits =>
      obtain rfl := same ht'
      have faces q : (Function.update v.node slot (some m') q).map MatchNode.face = (v.node q).map MatchNode.face := by
        by_cases hq : q = slot
        · subst hq
          simp [node, edits_face edits]
        · simp only [Function.update_of_ne hq]
      exact ⟨h.keep faces h.dims ⟨rfl, rfl, rfl⟩, boardOf_faces faces, joinedBy_edit call⟩
  | advance _ _ _ _ finalizes =>
      obtain rfl := Option.some.inj ht'
      simp [Tournament.counted, finalizes.running] at halted
  | conclude =>
      obtain rfl := Option.some.inj ht'
      cases halted
  | refund _ _ _ _ record _ refunding =>
      obtain rfl := same record
      obtain rfl := Option.some.inj ht'
      rcases refunding_cases refunding with ⟨rfl, _⟩ | ⟨rfl, _⟩
      · split at halted <;> cases halted
      · refine ⟨h.keep (fun _ => rfl) (h.dims.of_same ?_ ?_ ?_) ⟨?_, ?_, ?_⟩, rfl, joinedBy_refund refunding⟩ <;>
          split <;> rfl
  | closeChildren c key_eq => exact absurd key_eq (unclosed c rfl)
  | closeRoot => cases ht'

section Life

variable {a : CreateTournament} {born start s : Ledger} {past : History} (life : Life rt a born start past s)
  (fresh : Fresh a.key born) (unclosed : Unclosed a.key past)
include life fresh

theorem life_count (ht : s.tournament? a.key = some t) :
    (joins a.key past).Nodup ∧ t.participantCount = (joins a.key past).length := by
  obtain ⟨refunded, sent, t', kept⟩ := life_fresh_books life fresh
  obtain rfl : t = t' := Option.some.inj (ht.symm.trans kept.record)
  exact ⟨kept.books.joined_nodup, kept.books.count⟩

include unclosed

/-- Until accounts are closed the participants are those who joined. -/
theorem life_roster (w : Pubkey) : w ∈ joins a.key past ↔ (s.participant? (.participant a.key w)).isSome = true := by
  constructor
  · intro hw
    refine life.invariant (P := fun past s => Unclosed a.key past → w ∈ joins a.key past →
      (s.participant? (.participant a.key w)).isSome = true) (fun _ hw => by simp [joins] at hw) ?_ unclosed hw
    intro past s b s' earlier ih step effect later unclosed hw
    obtain ⟨unclosed, last⟩ := always_snoc.1 unclosed
    obtain ⟨t, ht⟩ := earlier.record
    obtain ⟨t', ht'⟩ := later.record
    rw [joins_snoc, List.mem_append] at hw
    rcases hw with hw | hw
    · rcases participants_stay effect ht (by simp [ht']) (ih unclosed hw) with stays | ⟨_, c, rfl, hc, _⟩
      · exact stays
      · exact absurd hc (last c rfl)
    · exact joined_present effect hw
  · intro hw
    obtain ⟨x, hx⟩ := Option.isSome_iff_exists.1 hw
    exact List.mem_of_getElem? (life_entered life fresh hx).1

variable (mode : a.settlementMode ≠ .organizerOnly) (canonical : ∀ d ∈ accepted a.key past, Canonical rt a.key d)
include mode canonical

theorem life_firstRound (ht : s.tournament? a.key = some t) (running : t.status = .active ∨ t.status = .completed)
    (h : Standing rt a.key k (viewOf s a.key).node t) :
    FirstRound (boardOf rt a.key (viewOf s a.key).node) (k + 1) (joins a.key past) := by
  have empty := life.start_empty fresh
  obtain ⟨built, nodup, _, w', drawn, size, places, seated⟩ := life_drawn life mode unclosed canonical ht running
  have slots slot m (hm : (viewOf s a.key).node slot = some m) : m.slot = slot := (node_slot life.wf hm).1
  have sitting {i : Nat} {w : Pubkey} (mem : (0, i) ∈ grid (k + 1))
      (seats : Seats (boardOf rt a.key (viewOf s a.key).node) (0, i) w) :
      ∃ m, matchAt rt a.key s 0 i = some m ∧ w ≠ default ∧ m.hasPlayer w := by
    obtain ⟨m, hm⟩ := h.at_place mem
    rw [Seats, boardOf_left hm, boardOf_right hm, seat_eq_some, seat_eq_some] at seats
    exact ⟨m, hm, seats.elim And.right And.right, seats.imp (fun hp => hp.1.symm) fun hp => hp.1.symm⟩
  refine ⟨fun i w mem hl hr => ?_, fun i j w mem mem' seats seats' => ?_, fun w => ⟨fun joined => ?_, ?_⟩⟩
  · obtain ⟨m, hm⟩ := h.at_place mem
    rw [boardOf_left hm, seat_eq_some] at hl
    rw [boardOf_right hm, seat_eq_some] at hr
    obtain ⟨d, hd, hs⟩ := built_descriptor built empty hm
    obtain ⟨n, hn, first⟩ := built.players d hd
    obtain rfl : m = n := Option.some.inj (hm.symm.trans (hs ▸ hn))
    have ground : d.round = 0 := congrArg Slot.round hs
    obtain ⟨hA, hB⟩ := first ground
    refine seated_distinct a.key drawn (seated d hd) ground ?_ (hA.symm.trans (hl.1.trans (hr.1.symm.trans hB)))
    exact fun none_ => hl.2 (hl.1.symm.trans (hA.trans none_))
  · obtain ⟨m, hm, real, player⟩ := sitting mem seats
    obtain ⟨n, hn, _, player'⟩ := sitting mem' seats'
    exact ((first_round_player life fresh mode unclosed canonical ht running hm real player).2 j n hn player').symm
  · -- a joined wallet carries one of the numbers that were drawn
    obtain ⟨x, hx⟩ := Option.isSome_iff_exists.1 ((life_roster life fresh unclosed w).1 joined)
    obtain ⟨entered, real⟩ := life_entered life fresh hx
    have number : x.seedIndex < w'.n := by
      rw [size, (life_count life fresh ht).2]
      exact (List.getElem?_eq_some_iff.1 entered).1
    obtain ⟨slot, ⟨m, hm, round, player⟩, _⟩ := built_placed_once built empty slots drawn seated places nodup real number
      ⟨x, hx, rfl⟩ fun _ _ _ y _ number' => life_unique life fresh w'.n _ number y w number' ⟨x, hx, rfl⟩
    obtain ⟨mem, rfl⟩ := h.place hm (slots slot m hm)
    rw [round] at mem hm
    refine ⟨_, mem, ?_⟩
    rw [Seats, boardOf_left hm, boardOf_right hm, seat_eq_some, seat_eq_some]
    exact player.imp (fun hp => ⟨hp.symm, real⟩) fun hp => ⟨hp.symm, real⟩
  · rintro ⟨i, mem, seats⟩
    obtain ⟨m, hm, real, player⟩ := sitting mem seats
    exact (first_round_player life fresh mode unclosed canonical ht running hm real player).1

theorem running_bracket (ht : s.tournament? a.key = some t) (running : t.status = .active ∨ t.status = .completed) :
    ∃ k, Standing rt a.key k (viewOf s a.key).node t ∧
      FirstRound (boardOf rt a.key (viewOf s a.key).node) (k + 1) (joins a.key past) := by
  obtain ⟨k, h⟩ := life_standing life fresh mode unclosed canonical ht running
  exact ⟨k, h, life_firstRound life fresh unclosed mode canonical ht running h⟩

/-- The bracket of a tournament that has begun, and the players in it. -/
theorem life_bracket (ht : s.tournament? a.key = some t)
    (begun : t.status = .active ∨ t.status = .completed ∨ t.status = .partialCancelled) :
    ∃ k, Standing rt a.key k (viewOf s a.key).node t ∧
      FirstRound (boardOf rt a.key (viewOf s a.key).node) (k + 1) (joins a.key past) := by
  rcases or_assoc.2 begun with begun | halted
  · exact running_bracket life fresh unclosed mode canonical ht begun
  refine canonical_invariant (P := fun past s => ∀ t, s.tournament? a.key = some t → t.status = .partialCancelled →
    ∃ k, Standing rt a.key k (viewOf s a.key).node t ∧
      FirstRound (boardOf rt a.key (viewOf s a.key).node) (k + 1) (joins a.key past))
    life unclosed canonical ?_ ?_ t ht halted
  · intro t ht halted
    obtain rfl := Option.some.inj (ht.symm.trans life.start_record)
    cases halted
  · intro past s b s' earlier ih step effect later unclosed canonical t' ht' halted
    obtain ⟨unclosed, last⟩ := always_snoc.1 unclosed
    replace canonical := canonical_sublist (List.sublist_append_left past _) canonical
    obtain ⟨t, ht⟩ := earlier.record
    have before : t.status = .active ∨ t.status = .partialCancelled := by
      have status := effect_status effect ht ht'
      rw [halted] at status
      generalize t.status = x at status
      cases status with
      | stay => exact .inr rfl
      | partialCancels => exact .inl rfl
    obtain ⟨k, h, first⟩ := before.elim
      (fun active => running_bracket earlier fresh unclosed mode canonical ht (.inl active)) (ih t ht)
    obtain ⟨h', board, quiet⟩ := halted_step h effect ht ht' halted last
    refine ⟨k, h', ?_⟩
    rwa [board, joins_snoc, quiet, List.append_nil]

end Life

end BracketChain.Roster
