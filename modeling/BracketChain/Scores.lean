import BracketChain.Roster
import BracketChain.Tallies

namespace BracketChain.Scores

open Outcome Keys Records Accounts Registration Seeding Start Settlement Envelope Refunds Program Runs Layout View Lifecycle
  Refinement Lives Bookkeeping Enrolment Matches Reports Seats Elimination Knockout Building Completeness FixedDraw Filling
  Standings BracketChain.Tree Roster Tallies Scripts

/-- A match that was played: who met, and who won. -/
@[ext]
structure Duel where
  playerA : Pubkey
  playerB : Pubkey
  winner : Pubkey

/-- The player that a loss is credited to. -/
def Duel.loser (o : Duel) : Pubkey := if o.playerA = o.winner then o.playerB else o.playerA

def MatchNode.duel? (m : MatchNode) : Option Duel :=
  if m.status = .completed ∧ m.bye = false then some ⟨m.playerA, m.playerB, m.winner⟩ else none

/-- The matches of a tournament that were played. Byes are none of them. -/
def duels (node : Slot → Option MatchNode) (slot : Slot) : Option Duel := (node slot).bind MatchNode.duel?

variable {rt : Runtime} {key : Pubkey} {clock : Clock} {b : Action} {v v' : TournamentView} {t t' : Tournament}
  {node : Slot → Option MatchNode} {slot next : Slot} {m m' n : MatchNode} {w winner : Pubkey} {o : Duel} {k : Nat}

section Table

theorem duel?_eq_some : MatchNode.duel? m = some o ↔
    m.status = .completed ∧ m.bye = false ∧ m.playerA = o.playerA ∧ m.playerB = o.playerB ∧ m.winner = o.winner := by
  simp [MatchNode.duel?, Duel.ext_iff, and_assoc]

theorem duel?_open (h : m.status ≠ .completed) : MatchNode.duel? m = none := by
  simp [MatchNode.duel?, h]

theorem duels_eq_some : duels node slot = some o ↔ ∃ m, node slot = some m ∧ MatchNode.duel? m = some o :=
  Option.bind_eq_some_iff

theorem duels_open (hm : node slot = some m) (h : m.status ≠ .completed) : duels node slot = none := by
  rw [duels, hm, Option.bind_some, duel?_open h]

theorem duels_update (node : Slot → Option MatchNode) (slot : Slot) (m' : MatchNode) :
    duels (Function.update node slot (some m')) = Function.update (duels node) slot (MatchNode.duel? m') := by
  funext q
  by_cases hq : q = slot <;> simp [duels, hq]

theorem duels_same (hm : node slot = some m) (h : MatchNode.duel? m' = MatchNode.duel? m) :
    duels (Function.update node slot (some m')) = duels node := by
  rw [duels_update, h, Function.update_eq_self_iff, duels, hm, Option.bind_some]

theorem duel?_edit {ix : Instruction} (edits : Edits t clock m ix m') : MatchNode.duel? m' = MatchNode.duel? m := by
  cases edits <;> rfl

theorem duels_place {ds : List MatchInitDescriptor} (distinct : (ds.map MatchInitDescriptor.slot).Nodup)
    (fresh : ∀ d ∈ ds, node d.slot = none) : duels (place key ds node) = duels node := by
  funext q
  by_cases hq : ∃ d ∈ ds, d.slot = q
  · obtain ⟨d, hd, rfl⟩ := hq
    -- a match that is placed as completed is a bye
    have bye : ¬ ((d.node key).status = .completed ∧ (d.node key).bye = false) := fun h =>
      Bool.false_ne_true (h.2.symm.trans ((placed_status d).1 h.1))
    simp only [duels, place_of_mem node distinct hd, fresh d hd, Option.bind_some, Option.bind_none,
      MatchNode.duel?, if_neg bye]
  · simp only [duels, place_of_notMem node fun d hd hs => hq ⟨d, hd, hs⟩]

theorem duel?_complete (played : m.bye = false) :
    MatchNode.duel? (MatchNode.complete m winner) = some ⟨m.playerA, m.playerB, winner⟩ := by
  simp [MatchNode.duel?, MatchNode.complete, played]

theorem duels_complete (node : Slot → Option MatchNode) (slot : Slot) (played : m.bye = false) :
    duels (Function.update node slot (some (MatchNode.complete m winner))) =
      Function.update (duels node) slot (some ⟨m.playerA, m.playerB, winner⟩) := by
  rw [duels_update, duel?_complete played]

theorem duels_advance (played : m.bye = false) (apart : next ≠ slot) (hn : node next = some n) (i : Nat)
    (open_ : n.status ≠ .completed) :
    duels (Function.update (Function.update node slot (some (MatchNode.complete m winner))) next
      (some (MatchNode.advance n i winner))) =
        Function.update (duels node) slot (some ⟨m.playerA, m.playerB, winner⟩) := by
  have parent : Function.update node slot (some (MatchNode.complete m winner)) next = some n := by
    rw [Function.update_of_ne apart, hn]
  rw [duels_same parent, duels_complete node slot played]
  rw [duel?_open open_, duel?_open (advance_incomplete i winner open_)]

/-- A match with the mark of a bye is one: it has one player, and is decided. -/
def Byes (node : Slot → Option MatchNode) : Prop :=
  ∀ slot m, node slot = some m → m.bye = true → m.status = .completed ∧ m.playerB = default

theorem Byes.update (h : Byes node) (slot : Slot)
    (new : m.bye = true → m.status = .completed ∧ m.playerB = default) :
    Byes (Function.update node slot (some m)) := by
  intro q n hn bye
  rw [Function.update_apply] at hn
  split at hn
  · obtain rfl := Option.some.inj hn
    exact new bye
  · exact h q n hn bye

theorem Byes.place {ds : List MatchInitDescriptor} (h : Byes node)
    (distinct : (ds.map MatchInitDescriptor.slot).Nodup) : Byes (place key ds node) := by
  intro q n hn bye
  by_cases hq : ∃ d ∈ ds, d.slot = q
  · obtain ⟨d, hd, rfl⟩ := hq
    obtain rfl := Option.some.inj ((place_of_mem node distinct hd).symm.trans hn)
    exact ⟨(placed_status d).2 bye, if_pos bye⟩
  · exact h q n ((place_of_notMem node fun d hd he => hq ⟨d, hd, he⟩).symm.trans hn) bye

theorem Byes.edit {ix : Instruction} (h : Byes node) (hm : node slot = some m) (edits : Edits t clock m ix m') :
    Byes (Function.update node slot (some m')) := by
  refine h.update slot fun bye => ?_
  have kept : m'.bye = m.bye ∧ m'.status = m.status ∧ m'.playerB = m.playerB := by
    cases edits <;> exact ⟨rfl, rfl, rfl⟩
  rw [kept.2.1, kept.2.2]
  exact h slot m hm (kept.1 ▸ bye)

theorem Byes.complete (h : Byes node) (slot : Slot) (played : m.bye = false) :
    Byes (Function.update node slot (some (MatchNode.complete m winner))) :=
  h.update slot fun bye => absurd (bye.symm.trans played) (by simp)

theorem Byes.advance (h : Byes node) (hn : node next = some n) (open_ : n.status ≠ .completed)
    {node' : Slot → Option MatchNode} (h' : Byes node') (i : Nat) :
    Byes (Function.update node' next (some (MatchNode.advance n i winner))) := by
  refine h'.update next fun bye => ?_
  rw [advance_eq] at bye
  exact absurd (h next n hn bye).1 open_

end Table

section Credit

theorem saturatingSucc_eq {n : Nat} (h : n < 255) : saturatingSucc n = n + 1 :=
  Nat.min_eq_left (Nat.succ_le_of_lt h)

/-- How the statistics of a participant grow with a duel. -/
structure Grown (o : Duel) (w : Pubkey) (x x' : Participant) : Prop where
  wins : x'.wins = x.wins + if o.winner = w then 1 else 0
  losses : x'.losses = x.losses + if o.loser = w then 1 else 0

theorem credited_grown {p p' : Pubkey → Option Participant} (credited : Credited m winner p p')
    (apart : m.playerA ≠ m.playerB) (player : m.hasPlayer winner)
    (own : ∀ w x, p w = some x → x.wallet = w ∧ x.wins < 255 ∧ x.losses < 255) {x' : Participant} (hx' : p' w = some x') :
    ∃ x, p w = some x ∧ Grown ⟨m.playerA, m.playerB, winner⟩ w x x' := by
  obtain ⟨a, b, ha, hb, rfl⟩ := credited
  obtain ⟨wallet, winsA, lossesA⟩ := own _ a ha
  obtain ⟨_, winsB, lossesB⟩ := own _ b hb
  -- `credit_match_stats` tells the two players apart by the wallet of the first
  rw [creditMatchStats, wallet] at hx'
  by_cases hB : w = m.playerB
  · subst hB
    rw [Function.update_self] at hx'
    refine ⟨b, hb, ?_⟩
    rcases player with rfl | rfl
    · obtain rfl : Participant.lost b = x' := by simpa using hx'
      constructor <;> simp [Participant.lost, Duel.loser, saturatingSucc_eq lossesB, apart]
    · obtain rfl : Participant.won b = x' := by simpa [apart] using hx'
      constructor <;> simp [Participant.won, Duel.loser, saturatingSucc_eq winsB, apart]
  · rw [Function.update_of_ne hB] at hx'
    by_cases hA : w = m.playerA
    · subst hA
      rw [Function.update_self] at hx'
      refine ⟨a, ha, ?_⟩
      rcases player with rfl | rfl
      · obtain rfl : Participant.won a = x' := by simpa using hx'
        constructor <;> simp [Participant.won, Duel.loser, saturatingSucc_eq winsA, apart.symm]
      · obtain rfl : Participant.lost a = x' := by simpa [apart] using hx'
        constructor <;> simp [Participant.lost, Duel.loser, saturatingSucc_eq lossesA, apart, apart.symm]
    · rw [Function.update_of_ne hA] at hx'
      refine ⟨x', hx', ?_⟩
      have others : winner ≠ w ∧ Duel.loser ⟨m.playerA, m.playerB, winner⟩ ≠ w := by
        refine ⟨fun h => player.elim (fun hp => hA (h ▸ hp)) fun hp => hB (h ▸ hp), ?_⟩
        rw [Duel.loser]
        split
        · exact fun h => hB h.symm
        · exact fun h => hA h.symm
      constructor <;> simp [others]

end Credit

/-- The statuses in which a bracket has been filled. -/
def Begun (t : Tournament) : Prop := t.status = .active ∨ t.status = .completed ∨ t.status = .partialCancelled

/-- The statistics of the participants are those of the matches played. -/
structure Scored (v : TournamentView) (t : Tournament) : Prop where
  byes : Byes v.node
  real : ∀ slot o, duels v.node slot = some o → o.playerA ≠ default ∧ o.playerB ≠ default
  wins : ∀ w x, v.participant w = some x → (x.wins : ℕ∞) = (having (fun o => o.winner = w) (duels v.node)).encard
  losses : ∀ w x, v.participant w = some x → (x.losses : ℕ∞) = (having (fun o => o.loser = w) (duels v.node)).encard
  idle : ¬ Begun t → ∀ slot, duels v.node slot = none

theorem having_idle (idle : ∀ slot, duels node slot = none) (P : Duel → Prop) : having P (duels node) = ∅ := by
  simp [having, idle]

theorem step_begun (effect : Effect rt key clock b v v') (ht : v.record = some t) (ht' : v'.record = some t')
    (begun : Begun t) : Begun t' := by
  have status := effect_status effect ht ht'
  simp only [Begun] at begun ⊢
  generalize t.status = x at *
  generalize t'.status = y at *
  cases status with
  | stay => exact begun
  | opens => simp at begun
  | starts => exact .inl rfl
  | cancels before => rcases before with rfl | rfl <;> simp at begun
  | completes => exact .inr (.inl rfl)
  | partialCancels => exact .inr (.inr rfl)

section Steps

theorem Scored.keep (h : Scored v t) (begun : Begun t → Begun t')
    (byes : Byes v'.node) (table : duels v'.node = duels v.node) (stats : ∀ w x', v'.participant w = some x' →
      ∃ x, v.participant w = some x ∧ x'.wins = x.wins ∧ x'.losses = x.losses) : Scored v' t' where
  byes := byes
  real := table ▸ h.real
  wins w x' hx' := by
    obtain ⟨x, hx, wins, _⟩ := stats w x' hx'
    rw [wins, table, h.wins w x hx]
  losses w x' hx' := by
    obtain ⟨x, hx, _, losses⟩ := stats w x' hx'
    rw [losses, table, h.losses w x hx]
  idle before := table ▸ h.idle fun early => before (begun early)

theorem Scored.join (h : Scored v t) (early : ¬ Begun t) {x : Participant} (zero : x.wins = 0 ∧ x.losses = 0)
    (node : v'.node = v.node) (participant : v'.participant = Function.update v.participant w (some x)) :
    Scored v' t' := by
  have idle : ∀ slot, duels v.node slot = none := h.idle early
  have stats q y (hy : v'.participant q = some y) : y.wins = 0 ∧ y.losses = 0 := by
    rw [participant, Function.update_apply] at hy
    split at hy
    · obtain rfl := Option.some.inj hy
      exact zero
    · have wins := h.wins q y hy
      have losses := h.losses q y hy
      rw [having_idle idle, Set.encard_empty] at wins losses
      exact ⟨by exact_mod_cast wins, by exact_mod_cast losses⟩
  refine ⟨node ▸ h.byes, node ▸ h.real, fun q y hy => ?_, fun q y hy => ?_, fun _ => node ▸ idle⟩
  · rw [node, having_idle idle, Set.encard_empty, (stats q y hy).1, Nat.cast_zero]
  · rw [node, having_idle idle, Set.encard_empty, (stats q y hy).2, Nat.cast_zero]

theorem Scored.grow (h : Scored v t) (begun : Begun t') (byes : Byes v'.node)
    (new : duels v.node slot = none) (table : duels v'.node = Function.update (duels v.node) slot (some o))
    (real : o.playerA ≠ default ∧ o.playerB ≠ default) (stats : ∀ w x', v'.participant w = some x' →
      ∃ x, v.participant w = some x ∧ Grown o w x x') : Scored v' t' where
  byes := byes
  real q o' ho' := by
    rw [table, Function.update_apply] at ho'
    split at ho'
    · obtain rfl := Option.some.inj ho'
      exact real
    · exact h.real q o' ho'
  wins w x' hx' := by
    obtain ⟨x, hx, grown⟩ := stats w x' hx'
    rw [table, encard_update new, ← h.wins w x hx, grown.wins]
    push_cast
    rfl
  losses w x' hx' := by
    obtain ⟨x, hx, grown⟩ := stats w x' hx'
    rw [table, encard_update new, ← h.losses w x hx, grown.losses]
    push_cast
    rfl
  idle before := absurd begun before

/-- A bracket has too few matches for a counter to overflow. -/
theorem standing_few (h : Standing rt key k node t) (few : t.participantCount ≤ Keys.maxParticipants)
    (P : Duel → Prop) : (having P (duels node)).encard < 255 := by
  have inside : having P (duels node) ⊆ {slot | ∃ p ∈ grid (k + 1), canonicalSlot rt key p.1 p.2 = slot} := by
    intro slot hs
    obtain ⟨o, ho, _⟩ := hs
    obtain ⟨m, hm, _⟩ := duels_eq_some.1 ho
    exact (h.taken slot).1 (by simp [hm])
  have distinct : ((grid (k + 1)).map fun p => canonicalSlot rt key p.1 p.2).Nodup :=
    List.Nodup.map (fun p q hp => canonicalSlot_inj hp) (nodup_grid (k + 1))
  have rounds : 2 ^ k < 2 ^ 7 := Nat.lt_of_lt_of_le h.dims.low few
  have size : 2 ^ (k + 1) ≤ 2 ^ 7 :=
    Nat.pow_le_pow_right Nat.two_pos ((Nat.pow_lt_pow_iff_right Nat.one_lt_two).1 rounds)
  refine lt_of_le_of_lt ((Set.encard_le_encard inside).trans_eq (encard_map distinct)) ?_
  rw [length_grid]
  exact_mod_cast Nat.lt_of_le_of_lt (Nat.sub_le _ 1) (Nat.lt_of_le_of_lt size (by decide))

section Finalize

variable {ix : Instruction} {a : FinalizeAccounts} {p' : Pubkey → Option Participant} {joined : List Pubkey}
  (h : Scored v t) (bracket : Standing rt key k v.node t) (first : FirstRound (boardOf rt key v.node) (k + 1) joined)
  (finalizes : Finalizes key clock v ix a slot t m winner p')
include h finalizes

theorem finalized_played : m.bye = false := by
  by_contra bye
  have done := (h.byes slot m finalizes.node (by simpa using bye)).1
  exact absurd (done.symm.trans finalizes.active) (by simp)

include bracket

omit h in
theorem finalized_real : m.playerA ≠ default ∧ m.playerB ≠ default :=
  (bracket.ready slot m finalizes.node (by simp [finalizes.active])).1 finalizes.active

include first

theorem Scored.finalize (slots : ∀ slot m, v.node slot = some m → m.slot = slot)
    (few : t.participantCount ≤ Keys.maxParticipants)
    (mode : t.settlementMode ≠ .organizerOnly) (wallets : ∀ w x, v.participant w = some x → x.wallet = w) (begun : Begun t')
    (byes : Byes v'.node) (table : duels v'.node = Function.update (duels v.node) slot (some ⟨m.playerA, m.playerB, winner⟩))
    (participant : v'.participant = p') : Scored v' t' := by
  have active : m.status ≠ .completed := by simp [finalizes.active]
  have real := finalized_real bracket finalizes
  have apart : m.playerA ≠ m.playerB := by
    obtain ⟨mem, place, _⟩ := finalizes_place bracket slots finalizes
    have node := finalizes.node
    rw [place] at node
    intro same
    refine seats_apart bracket.valid first mem (w := m.playerA) ?_ ?_
    · rw [boardOf_left node, seat_eq_some]
      exact ⟨rfl, real.1⟩
    · rw [boardOf_right node, seat_eq_some]
      exact ⟨same.symm, real.1⟩
  have own w x (hx : v.participant w = some x) : x.wallet = w ∧ x.wins < 255 ∧ x.losses < 255 := by
    refine ⟨wallets w x hx, ?_, ?_⟩
    · exact_mod_cast (h.wins w x hx).trans_lt (standing_few bracket few _)
    · exact_mod_cast (h.losses w x hx).trans_lt (standing_few bracket few _)
  have credited := finalizes.stats.resolve_left fun trust => mode trust.1
  exact h.grow begun byes (duels_open finalizes.node active) table real fun w x' hx' =>
    credited_grown credited apart finalizes.player own (participant ▸ hx')

end Finalize

theorem scored_step {joined : List Pubkey} (h : Scored v t) (effect : Effect rt key clock b v v')
    (ht : v.record = some t) (ht' : v'.record = some t') (slots : ∀ slot m, v.node slot = some m → m.slot = slot)
    (wallets : ∀ w x, v.participant w = some x → x.wallet = w) (few : t.participantCount ≤ Keys.maxParticipants)
    (mode : t.settlementMode ≠ .organizerOnly) (bracket : t.status = .active →
      ∃ k, Standing rt key k v.node t ∧ FirstRound (boardOf rt key v.node) (k + 1) joined)
    (unclosed : ∀ c, b = .call (.closeTournament c) → c.tournament ≠ key) : Scored v' t' := by
  have begun := step_begun effect ht ht'
  have same {t₁ : Tournament} (h₁ : v.record = some t₁) : t = t₁ := Option.some.inj (ht.symm.trans h₁)
  have quiet w x' (hx' : v.participant w = some x') :
      ∃ x, v.participant w = some x ∧ x'.wins = x.wins ∧ x'.losses = x.losses := ⟨x', hx', rfl, rfl⟩
  cases effect with
  | others | requestSeed | revealSeed | partialCancel => exact h.keep begun h.byes rfl quiet
  | create _ _ _ unopened => simp [ht] at unopened
  | join c _ _ identity record _ _ open_ =>
      obtain rfl := same record
      exact h.join (by simp [Begun, open_]) (x := newParticipant key c.player t.participantCount identity) ⟨rfl, rfl⟩ rfl rfl
  | start _ _ _ _ _ chunk =>
      exact h.keep begun (h.byes.place chunk.distinct) (duels_place chunk.distinct chunk.fresh) quiet
  | edit _ _ _ _ _ _ _ node edits =>
      exact h.keep begun (h.byes.edit node edits) (duels_same node (duel?_edit edits)) quiet
  | @advance _ ix c slot next _ m n winner p' finalizes inner address parent round index =>
      obtain rfl := same finalizes.record
      obtain ⟨k, standing, first⟩ := bracket finalizes.running
      have played := finalized_played h finalizes
      obtain ⟨pending, _⟩ := seated_pending standing slots finalizes parent round index
      have unplayed : n.status ≠ .completed := by simp [pending]
      have apart : next ≠ slot := by
        rintro rfl
        obtain rfl := Option.some.inj (parent.symm.trans finalizes.node)
        omega
      exact h.finalize standing first finalizes slots few mode wallets (begun (.inl finalizes.running))
        (h.byes.advance parent unplayed (h.byes.complete slot played) _) (duels_advance played apart parent _ unplayed) rfl
  | conclude _ _ slot _ _ finalizes =>
      obtain rfl := same finalizes.record
      obtain ⟨k, standing, first⟩ := bracket finalizes.running
      have played := finalized_played h finalizes
      exact h.finalize standing first finalizes slots few mode wallets (begun (.inl finalizes.running))
        (h.byes.complete slot played) (duels_complete _ _ played) rfl
  | refund ix c _ ws =>
      refine h.keep begun h.byes rfl fun w x' hx' => ?_
      simp only [refundAll] at hx'
      split at hx'
      · obtain ⟨x, hx, rfl⟩ := Option.map_eq_some_iff.1 hx'
        exact ⟨x, hx, rfl, rfl⟩
      · exact ⟨x', hx', rfl, rfl⟩
  | closeChildren c key_eq | closeRoot c key_eq => exact absurd key_eq (unclosed c rfl)

end Steps

section Life

variable {a : CreateTournament} {born start s : Ledger} {past : History}

theorem life_few (life : Life rt a born start past s) (ht : s.tournament? a.key = some t) :
    t.participantCount ≤ Keys.maxParticipants := by
  have bounded := reachable_bounded (reachable_run life.course.reachable life.run) ht
  exact Nat.le_trans bounded.count bounded.most

theorem life_scored (life : Life rt a born start past s) (fresh : Fresh a.key born)
    (mode : a.settlementMode ≠ .organizerOnly) (unclosed : Unclosed a.key past)
    (canonical : ∀ d ∈ accepted a.key past, Canonical rt a.key d) :
    ∃ t, s.tournament? a.key = some t ∧ Scored (viewOf s a.key) t := by
  have ht₀ := life.start_record
  have empty := life.start_empty fresh
  refine canonical_invariant (P := fun _ s => ∃ t, s.tournament? a.key = some t ∧ Scored (viewOf s a.key) t)
    life unclosed canonical ⟨_, ht₀, ?_⟩ ?_
  · have nobody w : (viewOf start a.key).participant w = none := by
      rw [life.start_view.2.2]
      exact fresh.participant w
    have none_ slot : duels (viewOf start a.key).node slot = none := by rw [duels, empty slot, Option.bind_none]
    exact ⟨fun slot m hm => by simp [empty slot] at hm, fun slot o ho => by simp [none_ slot] at ho,
      fun w x hx => by simp [nobody w] at hx, fun w x hx => by simp [nobody w] at hx, fun _ => none_⟩
  · intro past s b s' earlier ⟨t, ht, scored⟩ step effect later unclosed canonical
    obtain ⟨unclosed, last⟩ := always_snoc.1 unclosed
    replace canonical := canonical_sublist (List.sublist_append_left past _) canonical
    obtain ⟨t', ht'⟩ := later.record
    have wallets w x (hx : (viewOf s a.key).participant w = some x) : x.wallet = w :=
      (Pubkey.participant.inj (participant_fits earlier.wf (p := .participant a.key w) hx).1).2.symm
    have seeded : t.settlementMode ≠ .organizerOnly := by
      rw [(earlier.course.terms ht₀ ht).settlementMode]
      exact mode
    have bracket (active : t.status = .active) := life_bracket earlier fresh unclosed mode canonical ht (.inl active)
    exact ⟨t', ht', scored_step scored effect ht ht' (fun slot m hm => (node_slot earlier.wf hm).1) wallets
      (life_few earlier ht) seeded bracket last⟩

end Life

end BracketChain.Scores
