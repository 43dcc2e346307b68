import BracketChain.Consistency
import BracketChain.Scores
import Mathlib.Algebra.BigOperators.Ring.Finset

namespace BracketChain.Accounting

open Outcome Keys Records Accounts Registration Seeding Start Settlement Envelope Refunds Program Runs Layout View Lifecycle
  Refinement Lives Bookkeeping Enrolment Matches Reports Seats Elimination Knockout Building Completeness FixedDraw
  Standings BracketChain.Tree Roster Tallies Scores Consistency Scripts

def winsOf (key : Pubkey) (s : Ledger) (w : Pubkey) : Nat :=
  ((s.participant? (.participant key w)).map Participant.wins).getD 0

def lossesOf (key : Pubkey) (s : Ledger) (w : Pubkey) : Nat :=
  ((s.participant? (.participant key w)).map Participant.losses).getD 0

/-- The completed matches other than byes that have a property. -/
def playedAt (key : Pubkey) (s : Ledger) (P : MatchNode → Prop) : Set Slot :=
  {slot | ∃ m, s.matchNode? (.matchNode key slot) = some m ∧ m.status = .completed ∧ m.bye = false ∧ P m}

/-- The accounts of an elimination bracket: each match that was played is one
win and one loss, who has lost is out, and in the end only the champion has
not. The counters are those of the participants at the wallets `ws`. -/
structure Accounted (key : Pubkey) (s : Ledger) (t : Tournament) (ws : List Pubkey) : Prop where
  distinct : ws.Nodup
  all : ∀ w, w ∈ ws ↔ (s.participant? (.participant key w)).isSome = true
  wins : ((ws.map (winsOf key s)).sum : ℕ∞) = (playedAt key s fun _ => True).encard
  losses : ((ws.map (lossesOf key s)).sum : ℕ∞) = (playedAt key s fun _ => True).encard
  exact : ∀ w x, s.participant? (.participant key w) = some x →
    (x.wins : ℕ∞) = (playedAt key s fun m => m.winner = w).encard ∧
      (x.losses : ℕ∞) = (playedAt key s fun m => m.hasPlayer w ∧ m.winner ≠ w).encard
  unsaturated : ∀ w x, s.participant? (.participant key w) = some x → x.wins < 255 ∧ x.losses < 255
  once : ∀ w x, s.participant? (.participant key w) = some x → x.losses ≤ 1
  out : ∀ w x, s.participant? (.participant key w) = some x → x.losses = 1 →
    ∀ slot m, s.matchNode? (.matchNode key slot) = some m → m.hasPlayer w → m.status = .completed
  settled : t.status = .completed → (ws.map (winsOf key s)).sum = t.participantCount - 1 ∧
    (ws.map (lossesOf key s)).sum = t.participantCount - 1
  champion : t.status = .completed → t.champion ∈ ws ∧
    ∀ w x, s.participant? (.participant key w) = some x → (x.losses = 0 ↔ w = t.champion)

variable {rt : Runtime} {key : Pubkey} {s : Ledger} {t : Tournament} {k : Nat} {p : Nat × Nat} {o : Duel} {w : Pubkey}
  {ws joined : List Pubkey} {slot : Slot} {m : MatchNode}

/-- A duel as it stands on the board. -/
structure Fought (b : Board Pubkey) (p : Nat × Nat) (o : Duel) : Prop where
  left : b.left p = some o.playerA
  right : b.right p = some o.playerB
  winner : b.winner p = some o.winner
  player : o.winner = o.playerA ∨ o.winner = o.playerB
  apart : o.playerA ≠ o.playerB

theorem Fought.loser_iff {b : Board Pubkey} (f : Fought b p o) :
    o.loser = w ↔ (w = o.playerA ∨ w = o.playerB) ∧ o.winner ≠ w := by
  have apart := f.apart
  rw [Duel.loser]
  rcases f.player with hw | hw <;> rw [hw]
  · rw [if_pos rfl]
    constructor
    · rintro rfl
      exact ⟨.inr rfl, apart⟩
    · rintro ⟨rfl | rfl, lost⟩
      · exact absurd rfl lost
      · rfl
  · rw [if_neg apart]
    constructor
    · rintro rfl
      exact ⟨.inl rfl, apart.symm⟩
    · rintro ⟨rfl | rfl, lost⟩
      · rfl
      · exact absurd rfl lost

theorem Fought.seats {b : Board Pubkey} (f : Fought b p o) (player : w = o.playerA ∨ w = o.playerB) : Seats b p w := by
  rcases player with rfl | rfl
  · exact .inl f.left
  · exact .inr f.right

theorem Fought.lost {b : Board Pubkey} (f : Fought b p o) (loser : o.loser = w) : Seats b p w ∧ b.winner p ≠ some w := by
  obtain ⟨player, lost⟩ := f.loser_iff.1 loser
  exact ⟨f.seats player, fun won => lost (Option.some.inj (f.winner.symm.trans won))⟩

section Bracket

variable (scored : Scored (viewOf s key) t) (h : Standing rt key k (viewOf s key).node t)
  (first : FirstRound (boardOf rt key (viewOf s key).node) (k + 1) joined)
include scored h first

theorem duel_fought (ho : duels (viewOf s key).node slot = some o) : ∃ p ∈ grid (k + 1),
    canonicalSlot rt key p.1 p.2 = slot ∧ Fought (boardOf rt key (viewOf s key).node) p o := by
  obtain ⟨m, hm, duel⟩ := duels_eq_some.1 ho
  obtain ⟨done, _, hA, hB, hw⟩ := duel?_eq_some.1 duel
  obtain ⟨⟨r, i⟩, mem, rfl⟩ := (h.taken slot).1 (by simp [hm])
  obtain ⟨realA, realB⟩ := scored.real _ o ho
  have left : (boardOf rt key (viewOf s key).node).left (r, i) = some o.playerA := by
    rw [boardOf_left hm, seat_eq_some]
    exact ⟨hA, realA⟩
  have right : (boardOf rt key (viewOf s key).node).right (r, i) = some o.playerB := by
    rw [boardOf_right hm, seat_eq_some]
    exact ⟨hB, realB⟩
  have winner : (boardOf rt key (viewOf s key).node).winner (r, i) = some o.winner := by
    rw [boardOf_winner hm, result_eq_some]
    exact ⟨done, hw⟩
  refine ⟨(r, i), mem, rfl, left, right, winner, ?_, fun same => ?_⟩
  · have won := h.valid.won (r, i) mem o.winner winner
    rw [left, right, Option.some.injEq, Option.some.injEq] at won
    exact won.imp Eq.symm Eq.symm
  · exact seats_apart h.valid first mem left (same ▸ right)

theorem duel_joined (ho : duels (viewOf s key).node slot = some o) : o.winner ∈ joined ∧ o.loser ∈ joined := by
  obtain ⟨p, mem, _, f⟩ := duel_fought scored h first ho
  exact ⟨seats_listed h.valid first mem (f.seats f.player), seats_listed h.valid first mem (f.lost rfl).1⟩

theorem losses_once (w : Pubkey) : (having (fun o => o.loser = w) (duels (viewOf s key).node)).encard ≤ 1 := by
  rw [Set.encard_le_one_iff]
  rintro slot slot' ⟨o, ho, lost⟩ ⟨o', ho', lost'⟩
  obtain ⟨p, mem, rfl, f⟩ := duel_fought scored h first ho
  obtain ⟨p', mem', rfl, f'⟩ := duel_fought scored h first ho'
  obtain ⟨seated, unwon⟩ := f.lost lost
  obtain ⟨seated', unwon'⟩ := f'.lost lost'
  rw [unwon_once h.valid first mem mem' seated seated' unwon unwon']

/-- Who has lost a match is in no match that is still to be played. -/
theorem loser_out (ho : duels (viewOf s key).node slot = some o) {slot' : Slot}
    (hm : (viewOf s key).node slot' = some m) (player : m.hasPlayer o.loser) : m.status = .completed := by
  by_contra open_
  obtain ⟨p, mem, _, f⟩ := duel_fought scored h first ho
  have real : o.loser ≠ default := by
    obtain ⟨realA, realB⟩ := scored.real slot o ho
    rcases (f.loser_iff.1 rfl).1 with hw | hw <;> rw [hw] <;> assumption
  obtain ⟨⟨r, i⟩, mem', rfl⟩ := (h.taken slot').1 (by simp [hm])
  have undecided : (boardOf rt key (viewOf s key).node).winner (r, i) = none := by
    rw [boardOf_winner hm, result_eq_none.2 open_]
  have seated : Seats (boardOf rt key (viewOf s key).node) (r, i) o.loser := by
    rw [Seats, boardOf_left hm, boardOf_right hm, seat_eq_some, seat_eq_some]
    exact player.imp (fun hp => ⟨hp.symm, real⟩) fun hp => ⟨hp.symm, real⟩
  obtain ⟨seated', unwon⟩ := f.lost rfl
  obtain rfl := unwon_once h.valid first mem mem' seated' seated unwon (by simp [undecided])
  rw [f.winner] at undecided
  cases undecided

/-- In the end everyone but the champion has lost. -/
theorem lost_iff (done : t.status = .completed) (hw : w ∈ joined) :
    (having (fun o => o.loser = w) (duels (viewOf s key).node)).Nonempty ↔ w ≠ t.champion := by
  have champion : (boardOf rt key (viewOf s key).node).winner (k, 0) = some w ↔ w = t.champion := by
    rw [h.crowned done, Option.some.injEq, eq_comm]
  rw [ne_eq, ← champion, unbeaten_iff h.valid first hw]
  constructor
  · rintro ⟨slot, o, ho, lost⟩ all
    obtain ⟨p, mem, _, f⟩ := duel_fought scored h first ho
    obtain ⟨seated, unwon⟩ := f.lost lost
    exact unwon (all p mem seated)
  · intro beaten
    simp only [not_forall] at beaten
    obtain ⟨⟨r, i⟩, mem, seated, unwon⟩ := beaten
    obtain ⟨m, hm, finished⟩ := standing_completed h done mem
    have node : (viewOf s key).node (canonicalSlot rt key r i) = some m := hm
    rw [boardOf_winner node, result_eq_some.2 ⟨finished, rfl⟩] at unwon
    have won := h.valid.won _ mem m.winner (by rw [boardOf_winner node, result_eq_some.2 ⟨finished, rfl⟩])
    -- the only player of a bye has won it
    have played : m.bye = false := by
      by_contra bye
      obtain ⟨_, hB⟩ := scored.byes _ m node (by simpa using bye)
      have nobody : (boardOf rt key (viewOf s key).node).right (r, i) = none := by
        rw [boardOf_right node, hB, seat, if_pos rfl]
      rw [Seats, nobody] at seated
      rw [nobody] at won
      have same := (seated.resolve_right (by simp)).symm.trans (won.resolve_right (by simp))
      exact unwon same.symm
    have ho : duels (viewOf s key).node (canonicalSlot rt key r i) = some ⟨m.playerA, m.playerB, m.winner⟩ :=
      duels_eq_some.2 ⟨m, node, duel?_eq_some.2 ⟨finished, played, rfl, rfl, rfl⟩⟩
    obtain ⟨p, _, place, f⟩ := duel_fought scored h first ho
    refine ⟨_, _, ho, f.loser_iff.2 ⟨?_, fun hw => unwon (congrArg some hw)⟩⟩
    rw [Seats, boardOf_left node, boardOf_right node, seat_eq_some, seat_eq_some] at seated
    exact seated.imp (fun hp => hp.1.symm) fun hp => hp.1.symm

omit scored in
theorem champion_joined (done : t.status = .completed) : t.champion ∈ joined :=
  seats_listed h.valid first (root_mem k) (h.valid.won _ (root_mem k) _ (h.crowned done))

end Bracket

/-- What the counters of the participants need to know about the matches. -/
structure Tallied (key : Pubkey) (s : Ledger) (ws : List Pubkey) : Prop where
  fought : ∀ slot o, duels (viewOf s key).node slot = some o → ∃ b p, Fought b p o
  listed : ∀ slot o, duels (viewOf s key).node slot = some o → o.winner ∈ ws ∧ o.loser ∈ ws
  few : ∀ P, (having P (duels (viewOf s key).node)).encard < 255
  once : ∀ w, (having (fun o => o.loser = w) (duels (viewOf s key).node)).encard ≤ 1
  out : ∀ slot o slot' m, duels (viewOf s key).node slot = some o →
    s.matchNode? (.matchNode key slot') = some m → m.hasPlayer o.loser → m.status = .completed

theorem tallied_idle (idle : ∀ slot, duels (viewOf s key).node slot = none) (ws : List Pubkey) : Tallied key s ws := by
  refine ⟨fun slot o ho => ?_, fun slot o ho => ?_, fun P => ?_, fun w => ?_, fun slot o _ _ ho => ?_⟩
  · simp [idle slot] at ho
  · simp [idle slot] at ho
  · rw [having_idle idle, Set.encard_empty]
    decide
  · simp [having_idle idle]
  · simp [idle slot] at ho

theorem tallied_begun (scored : Scored (viewOf s key) t) (h : Standing rt key k (viewOf s key).node t)
    (first : FirstRound (boardOf rt key (viewOf s key).node) (k + 1) joined)
    (few : t.participantCount ≤ Keys.maxParticipants) : Tallied key s joined where
  fought slot o ho := by
    obtain ⟨p, _, _, f⟩ := duel_fought scored h first ho
    exact ⟨_, p, f⟩
  listed slot o ho := duel_joined scored h first ho
  few := standing_few h few
  once := losses_once scored h first
  out slot o slot' m ho hm player := loser_out scored h first ho hm player

theorem playedAt_eq {P : MatchNode → Prop} {Q : Duel → Prop} (h : ∀ slot m o,
    duels (viewOf s key).node slot = some o → MatchNode.duel? m = some o → (P m ↔ Q o)) :
    playedAt key s P = having Q (duels (viewOf s key).node) := by
  ext slot
  constructor
  · rintro ⟨m, hm, done, played, hP⟩
    have duel : MatchNode.duel? m = some ⟨m.playerA, m.playerB, m.winner⟩ :=
      duel?_eq_some.2 ⟨done, played, rfl, rfl, rfl⟩
    have ho : duels (viewOf s key).node slot = some _ := duels_eq_some.2 ⟨m, hm, duel⟩
    exact ⟨_, ho, (h slot m _ ho duel).1 hP⟩
  · rintro ⟨o, ho, hQ⟩
    obtain ⟨m, hm, duel⟩ := duels_eq_some.1 ho
    obtain ⟨done, played, _⟩ := duel?_eq_some.1 duel
    exact ⟨m, hm, done, played, (h slot m o ho duel).2 hQ⟩

section Sums

variable (tallied : Tallied key s ws) (scored : Scored (viewOf s key) t) (distinct : ws.Nodup)
  (all : ∀ w, w ∈ ws ↔ (s.participant? (.participant key w)).isSome = true)

include distinct in
theorem sum_counter {counter : Pubkey → Nat} {g : Duel → Pubkey}
    (listed : ∀ slot o, duels (viewOf s key).node slot = some o → g o ∈ ws)
    (counts : ∀ w ∈ ws, (counter w : ℕ∞) = (having (fun o => g o = w) (duels (viewOf s key).node)).encard) :
    ((ws.map counter).sum : ℕ∞) = (playedAt key s fun _ => True).encard := by
  rw [playedAt_eq (Q := fun _ => True) fun _ _ _ _ _ => Iff.rfl, ← encard_sum distinct listed, Nat.cast_list_sum,
    List.map_map]
  exact congrArg List.sum (List.map_congr_left counts)

include tallied scored distinct all

theorem sum_wins : ((ws.map (winsOf key s)).sum : ℕ∞) = (playedAt key s fun _ => True).encard := by
  refine sum_counter distinct (fun slot o ho => (tallied.listed slot o ho).1) fun w hw => ?_
  obtain ⟨x, hx⟩ := Option.isSome_iff_exists.1 ((all w).1 hw)
  rw [← scored.wins w x hx, winsOf, hx]
  rfl

theorem sum_losses : ((ws.map (lossesOf key s)).sum : ℕ∞) = (playedAt key s fun _ => True).encard := by
  refine sum_counter distinct (fun slot o ho => (tallied.listed slot o ho).2) fun w hw => ?_
  obtain ⟨x, hx⟩ := Option.isSome_iff_exists.1 ((all w).1 hw)
  rw [← scored.losses w x hx, lossesOf, hx]
  rfl

omit tallied scored all in
/-- In the end all but one have lost once. -/
theorem losses_settled (champion : w ∈ ws) (beaten : ∀ q ∈ ws, lossesOf key s q = if q = w then 0 else 1) :
    (ws.map (lossesOf key s)).sum = ws.length - 1 := by
  have split := List.perm_cons_erase champion
  have others : (ws.erase w).map (lossesOf key s) = (ws.erase w).map fun _ => 1 := by
    refine List.map_congr_left fun q hq => ?_
    obtain ⟨apart, mem⟩ := distinct.mem_erase_iff.1 hq
    rw [beaten q mem, if_neg apart]
  rw [(split.map _).sum_eq, List.map_cons, List.sum_cons, beaten w champion, if_pos rfl, others, List.map_const',
    List.sum_replicate, List.length_erase_of_mem champion]
  simp

theorem Tallied.accounted (ended : t.status = .completed → t.participantCount = ws.length ∧ t.champion ∈ ws ∧
    ∀ w ∈ ws, (having (fun o => o.loser = w) (duels (viewOf s key).node)).Nonempty ↔ w ≠ t.champion) :
    Accounted key s t ws := by
  have wins := sum_wins tallied scored distinct all
  have losses := sum_losses tallied scored distinct all
  have once w x (hx : s.participant? (.participant key w) = some x) : x.losses ≤ 1 := by
    exact_mod_cast (scored.losses w x hx).trans_le (tallied.once w)
  have unlost (done : t.status = .completed) w x (hx : s.participant? (.participant key w) = some x) :
      x.losses = 0 ↔ w = t.champion := by
    obtain ⟨_, _, lost⟩ := ended done
    rw [← not_iff_not, ← ne_eq w, ← lost w ((all w).2 (by simp [hx])), ← Set.encard_ne_zero, ← scored.losses w x hx,
      Nat.cast_ne_zero]
  refine ⟨distinct, all, wins, losses, fun w x hx => ⟨?_, ?_⟩, fun w x hx => ⟨?_, ?_⟩, once,
    fun w x hx out slot' m hm player => ?_, fun done => ?_, fun done => ⟨(ended done).2.1, unlost done⟩⟩
  · rw [scored.wins w x hx, playedAt_eq fun slot m o ho duel => ?_]
    rw [(duel?_eq_some.1 duel).2.2.2.2]
  · rw [scored.losses w x hx, playedAt_eq fun slot m o ho duel => ?_]
    obtain ⟨_, _, hA, hB, hw⟩ := duel?_eq_some.1 duel
    obtain ⟨_, _, f⟩ := tallied.fought slot o ho
    rw [f.loser_iff, MatchNode.hasPlayer, hA, hB, hw]
  · exact_mod_cast (scored.wins w x hx).trans_lt (tallied.few _)
  · exact_mod_cast (scored.losses w x hx).trans_lt (tallied.few _)
  · have nonempty : (having (fun o => o.loser = w) (duels (viewOf s key).node)).Nonempty := by
      rw [← Set.encard_ne_zero, ← scored.losses w x hx, out]
      exact one_ne_zero
    obtain ⟨slot, o, ho, rfl⟩ := nonempty
    exact tallied.out slot o slot' m ho hm player
  · obtain ⟨count, champion, _⟩ := ended done
    have settled : (ws.map (lossesOf key s)).sum = ws.length - 1 := by
      refine losses_settled distinct champion fun q hq => ?_
      obtain ⟨x, hx⟩ := Option.isSome_iff_exists.1 ((all q).1 hq)
      have number : lossesOf key s q = x.losses := by rw [lossesOf, hx]; rfl
      have none_ := unlost done q x hx
      rw [number]
      split
      · exact none_.2 ‹_›
      · exact Nat.le_antisymm (once q x hx) (Nat.one_le_iff_ne_zero.2 fun h0 => absurd (none_.1 h0) ‹_›)
    rw [count]
    exact ⟨by exact_mod_cast wins.trans (losses.symm.trans (congrArg _ settled)), settled⟩

end Sums

/-- In every run of a fresh seeded tournament with canonical addresses, up to
the first close of a child, the statistics of the participants account for the
matches played. -/
theorem life_accounted {a : CreateTournament} {born start : Ledger} {past : History}
    (life : Life rt a born start past s) (fresh : Fresh a.key born) (mode : a.settlementMode ≠ .organizerOnly)
    (canonical : ∀ d ∈ accepted a.key past, Canonical rt a.key d)
    (idle : Always (fun e => ¬ ClosesChild a.key e) past) :
    ∃ t ws, s.tournament? a.key = some t ∧ Accounted a.key s t ws := by
  obtain ⟨past', life', unclosed, sub, _⟩ := life_pruned life idle
  have canonical' := canonical_sublist sub canonical
  obtain ⟨t, ht, scored⟩ := life_scored life' fresh mode unclosed canonical'
  obtain ⟨distinct, count⟩ := life_count life' fresh ht
  have all := life_roster life' fresh unclosed
  refine ⟨t, joins a.key past', ht, ?_⟩
  by_cases begun : Begun t
  · obtain ⟨k, h, first⟩ := life_bracket life' fresh unclosed mode canonical' ht begun
    have tallied := tallied_begun scored h first (life_few life' ht)
    exact tallied.accounted scored distinct all fun done =>
      ⟨count, champion_joined h first done, fun w hw => lost_iff scored h first done hw⟩
  · exact (tallied_idle (scored.idle begun) _).accounted scored distinct all fun done =>
      absurd (.inr (.inl done)) begun

theorem playedOut_record : ∃ t, (after sampleRuntime (created sampleRuntime sampleTournament sampleBorn)
    (playedOut sampleTournament.key)).tournament? sampleTournament.key = some t ∧ t.status = .completed ∧
      t.participantCount = 4 :=
  ⟨_, rfl, rfl, rfl⟩

theorem playedOut_accounted : ∃ s t ws, t.status = .completed ∧ (ws.map (winsOf sampleTournament.key s)).sum = 3 ∧
    (ws.map (lossesOf sampleTournament.key s)).sum = 3 ∧ Accounted sampleTournament.key s t ws := by
  obtain ⟨t, ws, ht, accounted⟩ := life_accounted playedOut_life sampleBorn_fresh (by decide) (by decide)
    fun e he closes => by
      obtain ⟨c, p, hc, _⟩ := closes
      have mem := mem_log he
      rw [hc] at mem
      simp [playedOut, conceded, fourRevealed, joinAs, startWith, openTreasury] at mem
  obtain ⟨t', ht', done, four⟩ := playedOut_record
  obtain rfl := Option.some.inj (ht.symm.trans ht')
  obtain ⟨wins, losses⟩ := accounted.settled done
  rw [four] at wins losses
  exact ⟨_, t, ws, done, wins, losses, accounted⟩

end BracketChain.Accounting
