import BracketChain.Filling

namespace BracketChain.Tree

open Outcome Keys Records Accounts Registration Start Settlement Envelope Refunds Program Runs Layout View Lifecycle
  Refinement Lives Bookkeeping Enrolment Matches Reports Seats Elimination Building Completeness FixedDraw Standings Filling
  Scripts

variable {rt : Runtime} {key : Pubkey} {clock : Clock} {b : Action} {v v' : TournamentView} {t t' : Tournament}

def matchAt (rt : Runtime) (key : Pubkey) (s : Ledger) (r i : Nat) : Option MatchNode :=
  s.matchNode? (.matchNode key (canonicalSlot rt key r i))

/-- The matches of a bracket form a single-elimination tree: above the first
round a seat holds the winner of its child, or nobody while there is none. -/
structure SingleElimination (rt : Runtime) (key : Pubkey) (s : Ledger) (t : Tournament) : Prop where
  rounds : t.bracketSize = 2 ^ t.bracketSize.log2
  taken : ∀ slot, (s.matchNode? (.matchNode key slot)).isSome = true ↔
    ∃ r i, r < t.bracketSize.log2 ∧ i < t.bracketSize >>> (r + 1) ∧ slot = canonicalSlot rt key r i
  playerA : ∀ r i m, matchAt rt key s (r + 1) i = some m → ∃ c, matchAt rt key s r (2 * i) = some c ∧
    m.playerA = if c.status = .completed then c.winner else default
  playerB : ∀ r i m, matchAt rt key s (r + 1) i = some m → ∃ c, matchAt rt key s r (2 * i + 1) = some c ∧
    m.playerB = if c.status = .completed then c.winner else default
  pending : ∀ r i m, matchAt rt key s (r + 1) i = some m →
    (m.status = .pending ↔ m.playerA = default ∨ m.playerB = default)
  winner : ∀ r i m, matchAt rt key s r i = some m → m.status = .completed → m.winner ≠ default ∧ m.hasPlayer m.winner

/-- All matches of the bracket are completed, and the champion won every match
on the way from its only first-round match to the root. -/
structure Crowned (rt : Runtime) (key : Pubkey) (past : History) (s : Ledger) (t : Tournament) : Prop where
  completed : ∀ slot m, s.matchNode? (.matchNode key slot) = some m → m.status = .completed
  number : {slot | CompletedAt (viewOf s key).node slot}.encard = (t.bracketSize - 1 : Nat)
  reported : t.matchesReported = t.totalMatches
  joined : t.champion ∈ joins key past
  path : ∃ i, (∃ m, matchAt rt key s 0 i = some m ∧ m.hasPlayer t.champion) ∧
    (∀ j m, matchAt rt key s 0 j = some m → m.hasPlayer t.champion → j = i) ∧
    ∀ r < t.bracketSize.log2, ∃ m, matchAt rt key s r (i / 2 ^ r) = some m ∧ m.status = .completed ∧
      m.winner = t.champion

section Playing

variable {k : Nat}

theorem finalizes_place {ix : Instruction} {a : FinalizeAccounts} {slot : Slot} {m : MatchNode} {winner : Pubkey}
    {p' : Pubkey → Option Participant} (h : Standing rt key k v.node t)
    (slots : ∀ slot m, v.node slot = some m → m.slot = slot)
    (finalizes : Finalizes key clock v ix a slot t m winner p') :
    (m.round, m.matchIndex) ∈ grid (k + 1) ∧ slot = canonicalSlot rt key m.round m.matchIndex ∧
      (isFinal t m ↔ m.round = k) := by
  obtain ⟨mem, place⟩ := h.place finalizes.node (slots slot m finalizes.node)
  refine ⟨mem, place, ?_⟩
  rw [isFinal, h.dims.trailing]
  exact ⟨fun last => Nat.succ.inj last.1, fun last => ⟨congrArg Nat.succ last, last_round mem (congrArg Nat.succ last)⟩⟩

theorem standing_step (h : Standing rt key k v.node t) (effect : Effect rt key clock b v v')
    (ht : v.record = some t) (ht' : v'.record = some t') (slots : ∀ slot m, v.node slot = some m → m.slot = slot)
    (running : t.status = .active ∨ t.status = .completed) (running' : t'.status = .active ∨ t'.status = .completed)
    (unclosed : ∀ c, b = .call (.closeTournament c) → c.tournament ≠ key) : Standing rt key k v'.node t' := by
  have same {t₁ : Tournament} (h₁ : v.record = some t₁) : t = t₁ := Option.some.inj (ht.symm.trans h₁)
  cases effect with
  | others =>
      obtain rfl := same ht'
      exact h.keep (fun _ => rfl) h.dims ⟨rfl, rfl, rfl⟩
  | create _ _ _ unopened => simp [ht] at unopened
  | join _ _ _ _ record _ _ open_ | requestSeed _ _ record _ open_ =>
      obtain rfl := same record
      simp [open_] at running
  | revealSeed _ _ _ record =>
      obtain rfl := same record
      obtain rfl := Option.some.inj ht'
      exact h.keep (fun _ => rfl) (h.dims.of_same rfl rfl rfl) ⟨rfl, rfl, rfl⟩
  | partialCancel _ _ record =>
      obtain rfl := Option.some.inj ht'
      simp at running'
  | start _ _ record _ opens =>
      obtain rfl := same record
      rcases (opens_status opens).1 with hs | hs <;> simp [hs] at running
  | @edit _ ix c slot _ m m' _ _ _ _ node edits =>
      obtain rfl := same ht'
      refine h.keep (fun q => ?_) h.dims ⟨rfl, rfl, rfl⟩
      by_cases hq : q = slot
      · subst hq
        simp [node, edits_face edits]
      · simp only [Function.update_of_ne hq]
  | @advance _ ix c slot next _ m n winner p' finalizes inner address parent round index =>
      obtain rfl := same finalizes.record
      obtain rfl := Option.some.inj ht'
      obtain ⟨mem, rfl, _⟩ := finalizes_place h slots finalizes
      obtain ⟨above, place⟩ := h.place parent (slots next n parent)
      rw [round, index] at above place
      subst place
      exact h.advance finalizes.running finalizes.node finalizes.active rfl finalizes.player mem above parent
  | @conclude _ ix c slot _ m winner p' u paid finalizes last =>
      obtain rfl := same finalizes.record
      obtain rfl := Option.some.inj ht'
      obtain ⟨mem, rfl, final⟩ := finalizes_place h slots finalizes
      have node := finalizes.node
      rw [final.1 last, last.2] at mem node ⊢
      exact h.conclude node finalizes.active finalizes.player mem clock.unixTimestamp
  | refund _ _ _ _ record _ refunding =>
      obtain rfl := same record
      rcases refunding_cases refunding with ⟨_, hs | hs | hs⟩ | ⟨_, hs⟩ <;> simp [hs] at running
  | closeChildren c key_eq => exact absurd key_eq (unclosed c rfl)
  | closeRoot => cases ht'

/-- A seat that is taken keeps its player, and a completed match its result. -/
structure Extends (m m' : MatchNode) : Prop where
  playerA : m.playerA ≠ default → m'.playerA = m.playerA
  playerB : m.playerB ≠ default → m'.playerB = m.playerB
  result : m.status = .completed → m'.status = .completed ∧ m'.winner = m.winner

theorem extends_of_face {m m' : MatchNode} (h : MatchNode.face m' = MatchNode.face m) : Extends m m' := by
  obtain ⟨status, hA, hB, winner⟩ := face_eq h
  exact ⟨fun _ => hA, fun _ => hB, fun done => ⟨status.trans done, winner⟩⟩

theorem Extends.trans {m m' m'' : MatchNode} (h : Extends m m') (h' : Extends m' m'') : Extends m m'' := by
  refine ⟨fun hA => ?_, fun hB => ?_, fun done => ?_⟩
  · exact (h'.playerA (h.playerA hA ▸ hA)).trans (h.playerA hA)
  · exact (h'.playerB (h.playerB hB ▸ hB)).trans (h.playerB hB)
  · obtain ⟨done', winner⟩ := h.result done
    obtain ⟨done'', winner'⟩ := h'.result done'
    exact ⟨done'', winner'.trans winner⟩

/-- A winner is only seated in a pending match. -/
theorem seated_pending {ix : Instruction} {a : FinalizeAccounts} {child slot : Slot} {m n : MatchNode} {winner : Pubkey}
    {p' : Pubkey → Option Participant} (h : Standing rt key k v.node t)
    (slots : ∀ slot m, v.node slot = some m → m.slot = slot)
    (finalizes : Finalizes key clock v ix a child t m winner p') (node : v.node slot = some n)
    (round : n.round = m.round + 1) (index : n.matchIndex = m.matchIndex / 2) :
    n.status = .pending ∧ (if m.matchIndex % 2 = 0 then n.playerA else n.playerB) = default := by
  obtain ⟨_, rfl, _⟩ := finalizes_place h slots finalizes
  obtain ⟨above, place⟩ := h.place node (slots slot n node)
  rw [round, index] at above place
  exact h.parent_empty finalizes.node finalizes.active above (place ▸ node)

theorem extends_step (standing : t.status = .active → ∃ k, Standing rt key k v.node t)
    (effect : Effect rt key clock b v v') (ht : v.record = some t)
    (slots : ∀ slot m, v.node slot = some m → m.slot = slot)
    (unclosed : ∀ c, b = .call (.closeTournament c) → c.tournament ≠ key) {slot : Slot} {m : MatchNode}
    (hm : v.node slot = some m) : ∃ m', v'.node slot = some m' ∧ Extends m m' := by
  have change := effect_node effect slot
  have same {n : MatchNode} (hn : v.node slot = some n) : m = n := Option.some.inj (hm.symm.trans hn)
  generalize v'.node slot = o at change
  cases change with
  | same => exact ⟨m, hm, extends_of_face rfl⟩
  | placed c d _ _ _ _ chunk mem slot_eq =>
      have fresh := chunk.fresh d mem
      rw [slot_eq, hm] at fresh
      cases fresh
  | edited _ _ _ _ _ _ _ node edits =>
      obtain rfl := same node
      exact ⟨_, rfl, extends_of_face (edits_face edits)⟩
  | finalized _ _ _ finalizes =>
      obtain rfl := same finalizes.node
      exact ⟨_, rfl, fun _ => rfl, fun _ => rfl, fun done => by simp [finalizes.active] at done⟩
  | seated ix a child _ finalizes inner address node round index =>
      obtain rfl := same node
      obtain rfl : t = _ := Option.some.inj (ht.symm.trans finalizes.record)
      obtain ⟨k, h⟩ := standing finalizes.running
      obtain ⟨pending, vacant⟩ := seated_pending h slots finalizes node round index
      refine ⟨_, rfl, fun hA => ?_, fun hB => ?_, fun done => by simp [pending] at done⟩
      · rw [advance_eq]
        split at vacant
        · exact absurd vacant hA
        · simp [*]
      · rw [advance_eq]
        split at vacant
        · simp [*]
        · exact absurd vacant hB
  | closed c call key_eq => exact absurd key_eq (unclosed c call)

end Playing

section Shape

variable {s : Ledger} {k r i : Nat} (h : Standing rt key k (viewOf s key).node t)
include h

theorem standing_log2 : t.bracketSize.log2 = k + 1 := by
  rw [h.dims.size, Nat.log2_two_pow]

theorem standing_mem : (r, i) ∈ grid (k + 1) ↔ r < t.bracketSize.log2 ∧ i < t.bracketSize >>> (r + 1) := by
  rw [mem_grid, standing_log2 h, h.dims.size]

theorem matchAt_mem {m : MatchNode} (hm : matchAt rt key s r i = some m) : (r, i) ∈ grid (k + 1) := by
  obtain ⟨p, hp, place⟩ := (h.taken (canonicalSlot rt key r i)).1 (Option.isSome_iff_exists.2 ⟨m, hm⟩)
  rwa [canonicalSlot_inj (p := p) (q := (r, i)) place] at hp

omit h in
theorem standing_seat {p : Pubkey} {c : MatchNode} (below : matchAt rt key s r i = some c)
    (fed : seat p = (boardOf rt key (viewOf s key).node).winner (r, i)) :
    p = if c.status = .completed then c.winner else default := by
  rw [boardOf_winner below] at fed
  split
  · rw [result_eq_some.2 ⟨‹_›, rfl⟩] at fed
    exact (seat_eq_some.1 fed).1
  · rw [result_eq_none.2 ‹_›] at fed
    exact seat_eq_none.1 fed

theorem standing_elimination : SingleElimination rt key s t := by
  have log := standing_log2 h
  refine ⟨by rw [log, h.dims.size], fun slot => (h.taken slot).trans ?_, fun r i m hm => ?_, fun r i m hm => ?_,
    fun r i m hm => ?_, fun r i m hm done => ?_⟩
  · constructor
    · rintro ⟨⟨r, i⟩, hp, rfl⟩
      exact ⟨r, i, (standing_mem h).1 hp |>.1, (standing_mem h).1 hp |>.2, rfl⟩
    · rintro ⟨r, i, hr, hi, rfl⟩
      exact ⟨(r, i), (standing_mem h).2 ⟨hr, hi⟩, rfl⟩
  · have mem := matchAt_mem h hm
    obtain ⟨c, hc⟩ := h.at_place (left_mem mem)
    refine ⟨c, hc, standing_seat hc ?_⟩
    have node : (viewOf s key).node (canonicalSlot rt key (r + 1) i) = some m := hm
    rw [← boardOf_left node, h.valid.left r i mem]
  · have mem := matchAt_mem h hm
    obtain ⟨c, hc⟩ := h.at_place (right_mem mem)
    refine ⟨c, hc, standing_seat hc ?_⟩
    have node : (viewOf s key).node (canonicalSlot rt key (r + 1) i) = some m := hm
    rw [← boardOf_right node, h.valid.right r i mem]
  · have mem := matchAt_mem h hm
    have full := h.valid.full r i mem
    rw [boardOf_left hm, boardOf_right hm, boardOf_winner hm, seat_isSome, seat_isSome] at full
    cases hs : m.status with
    | pending =>
        have ready := h.ready _ m hm (by simp [hs])
        simp only [hs, reduceCtorEq, false_iff] at ready
        simpa [or_iff_not_and_not] using ready
    | active =>
        have ready := (h.ready _ m hm (by simp [hs])).1 hs
        simp [ready]
    | completed =>
        have both := full (by simp [MatchNode.result, hs])
        simp [both]
  · have won := h.valid.won _ (matchAt_mem h hm) m.winner (by rw [boardOf_winner hm, result_eq_some.2 ⟨done, rfl⟩])
    rw [boardOf_left hm, boardOf_right hm, seat_eq_some, seat_eq_some] at won
    rcases won with ⟨hp, real⟩ | ⟨hp, real⟩
    · exact ⟨real, .inl hp.symm⟩
    · exact ⟨real, .inr hp.symm⟩

theorem standing_completed (done : t.status = .completed) (hp : (r, i) ∈ grid (k + 1)) :
    ∃ m, matchAt rt key s r i = some m ∧ m.status = .completed := by
  obtain ⟨m, hm⟩ := h.at_place hp
  have won := h.valid.all_won (by rw [h.crowned done]; rfl) _ hp
  rw [boardOf_winner hm] at won
  exact ⟨m, hm, by by_contra open_; simp [result_eq_none.2 open_] at won⟩

end Shape

section Life

variable {a : CreateTournament} {born start s : Ledger} {past : History} (life : Life rt a born start past s)
  (fresh : Fresh a.key born) (mode : a.settlementMode ≠ .organizerOnly) (unclosed : Unclosed a.key past)
  (canonical : ∀ d ∈ accepted a.key past, Canonical rt a.key d)
include life fresh mode unclosed canonical

/-- The bracket of a fresh seeded tournament with canonical addresses, from
its activation to its last match. -/
theorem life_standing (ht : s.tournament? a.key = some t) (running : t.status = .active ∨ t.status = .completed) :
    ∃ k, Standing rt a.key k (viewOf s a.key).node t := by
  have ht₀ := life.start_record
  have empty := life.start_empty fresh
  refine canonical_invariant (P := fun _ s => ∀ t, s.tournament? a.key = some t →
    t.status = .active ∨ t.status = .completed → ∃ k, Standing rt a.key k (viewOf s a.key).node t)
    life unclosed canonical ?_ ?_ t ht running
  · intro t ht running
    obtain rfl := Option.some.inj (ht.symm.trans ht₀)
    simp [CreateTournament.record] at running
  · intro past s b s' earlier standing step effect later unclosed canonical t' ht' running
    obtain ⟨t, ht⟩ := earlier.record
    have slots slot m (hm : (viewOf s a.key).node slot = some m) : m.slot = slot := (node_slot earlier.wf hm).1
    have last := (always_snoc.1 unclosed).2
    rcases (effect_status effect ht ht').playing running with before | before | ⟨active, before⟩
    · obtain ⟨k, h⟩ := standing t ht (.inl before)
      exact ⟨k, standing_step h effect ht ht' slots (.inl before) running last⟩
    · obtain ⟨k, h⟩ := standing t ht (.inr before)
      exact ⟨k, standing_step h effect ht ht' slots (.inr before) running last⟩
    · obtain ⟨t₁, ht₁, built⟩ := course_built later.course ht₀ rfl unclosed
      obtain rfl : t' = t₁ := Option.some.inj (ht'.symm.trans ht₁)
      refine (life_placed_snoc earlier effect ht ht' before).standing built empty canonical active ?_
        (life_unique later fresh _) ?_
      · rw [(later.course.terms ht₀ ht').settlementMode]
        exact mode
      · rintro w i ⟨x, hx, _⟩
        exact (life_entered later fresh hx).2

/-- The seats and results of the matches that a history has seen. -/
def KeepsSeats (key : Pubkey) (past : History) (s : Ledger) : Prop :=
  ∀ q slot m, Visits past s q → q.matchNode? (.matchNode key slot) = some m →
    ∃ m', s.matchNode? (.matchNode key slot) = some m' ∧ Extends m m'

theorem life_keeps : KeepsSeats a.key past s := by
  refine canonical_invariant (P := KeepsSeats a.key) life unclosed canonical ?_ ?_
  · rintro q slot m (rfl | ⟨_, hb⟩) hm
    · exact ⟨m, hm, extends_of_face rfl⟩
    · simp at hb
  · intro past s b s' earlier ih step effect later unclosed canonical q slot m hq hm
    obtain ⟨unclosed, last⟩ := always_snoc.1 unclosed
    replace canonical := canonical_sublist (List.sublist_append_left past _) canonical
    rcases visits_snoc.1 hq with rfl | hq
    · exact ⟨m, hm, extends_of_face rfl⟩
    · obtain ⟨m', hm', before⟩ := ih q slot m hq hm
      obtain ⟨t, ht⟩ := earlier.record
      obtain ⟨m'', hm'', after⟩ := extends_step (fun active =>
        life_standing earlier fresh mode unclosed canonical ht (.inl active)) effect ht
        (fun slot m hm => (node_slot earlier.wf hm).1) last hm'
      exact ⟨m'', hm'', before.trans after⟩

omit fresh in
/-- The draw behind the bracket of a running tournament. -/
theorem life_drawn (ht : s.tournament? a.key = some t) (running : t.status = .active ∨ t.status = .completed) :
    Built a.key (viewOf start a.key) (viewOf s a.key) t (accepted a.key past) ∧
      ((accepted a.key past).map MatchInitDescriptor.position).Nodup ∧ ∃ k w, Drawn w k ∧ w.n = t.participantCount ∧
        ((accepted a.key past).map MatchInitDescriptor.position).Perm (grid (k + 1)) ∧
        ∀ d ∈ accepted a.key past, Seated (viewOf s a.key).participant w d := by
  have ht₀ := life.start_record
  obtain ⟨t', ht', built⟩ := course_built life.course ht₀ rfl unclosed
  obtain rfl : t = t' := Option.some.inj (ht.symm.trans ht')
  have nodup := canonical_nodup built.distinct canonical
  obtain ⟨k, dims, places⟩ := built_grid built nodup running
  obtain ⟨w, draw⟩ : ∃ w, drawOf t = some w := ⟨_, if_neg ((life.course.terms ht₀ ht).settlementMode ▸ mode)⟩
  exact ⟨built, nodup, k, w, drawOf_drawn dims draw, drawOf_count draw, places,
    (built.underway (.inr running)).seated w draw⟩

theorem first_round_player (ht : s.tournament? a.key = some t) (running : t.status = .active ∨ t.status = .completed)
    {i : Nat} {m : MatchNode} (hm : matchAt rt a.key s 0 i = some m) {w : Pubkey} (real : w ≠ default)
    (player : m.hasPlayer w) : w ∈ joins a.key past ∧
      ∀ j m', matchAt rt a.key s 0 j = some m' → m'.hasPlayer w → j = i := by
  have empty := life.start_empty fresh
  obtain ⟨built, nodup, k, w', drawn, _, places, seated⟩ := life_drawn life mode unclosed canonical ht running
  have slots slot m (hm : (viewOf s a.key).node slot = some m) : m.slot = slot := (node_slot life.wf hm).1
  have round {j : Nat} {m' : MatchNode} (hm' : matchAt rt a.key s 0 j = some m') : m'.round = 0 :=
    congrArg Slot.round (slots _ m' hm')
  -- the player carries the rank of one of the two seats
  obtain ⟨d, hd, _, ground, players⟩ := built_player built empty slots hm (round hm)
  obtain ⟨rank, number, hrank, carries, _⟩ :=
    seated_rank a.key drawn (seated d hd) ground (ground_low places hd ground) real ((players w).1 player)
  refine ⟨?_, fun j m' hm' player' => ?_⟩
  · obtain ⟨x, hx, _⟩ := carries
    exact List.mem_of_getElem? (life_entered life fresh hx).1
  · have one := built_placed_once built empty slots drawn seated places nodup real (drawn.lt hrank) carries
      fun _ _ _ x _ number' => life_unique life fresh w'.n number (drawn.lt hrank) x w number' carries
    exact congrArg Slot.matchIndex (one.unique ⟨m', hm', round hm', player'⟩ ⟨m, hm, round hm, player⟩)

theorem life_crowned (ht : s.tournament? a.key = some t) (done : t.status = .completed) :
    Crowned rt a.key past s t := by
  obtain ⟨k, h⟩ := life_standing life fresh mode unclosed canonical ht (.inr done)
  have completed slot m (hm : (viewOf s a.key).node slot = some m) : m.status = .completed := by
    obtain ⟨p, hp, rfl⟩ := (h.taken slot).1 (by simp [hm])
    obtain ⟨n, hn, finished⟩ := standing_completed h done hp
    rwa [Option.some.inj (hm.symm.trans hn)]
  obtain ⟨i, _, first, seated, up⟩ := h.valid.path (root_mem k) (h.crowned done)
  obtain ⟨m, hm⟩ := h.at_place first
  rw [boardOf_left hm, boardOf_right hm, seat_eq_some, seat_eq_some] at seated
  have real : t.champion ≠ default := seated.elim And.right And.right
  have player : m.hasPlayer t.champion := seated.imp (fun hp => hp.1.symm) fun hp => hp.1.symm
  obtain ⟨joined, one⟩ := first_round_player life fresh mode unclosed canonical ht (.inr done) hm real player
  refine ⟨completed, ?_, ?_, joined, i, ⟨m, hm, player⟩, one, fun r hr => ?_⟩
  · have all : {slot | CompletedAt (viewOf s a.key).node slot} =
        {slot | ∃ p ∈ grid (k + 1), canonicalSlot rt a.key p.1 p.2 = slot} := by
      ext slot
      simp only [Set.mem_ofPred_eq, ← h.taken slot, CompletedAt, Option.isSome_iff_exists]
      exact exists_congr fun m => and_iff_left_of_imp (completed slot m)
    have distinct : ((grid (k + 1)).map fun p => canonicalSlot rt a.key p.1 p.2).Nodup :=
      List.Nodup.map (fun p q hp => canonicalSlot_inj hp) (nodup_grid (k + 1))
    rw [all, encard_map distinct, length_grid, h.dims.size]
  · rw [h.count, Board.decided_all (h.valid.all_won (by rw [h.crowned done]; rfl)), h.dims.total]
  · rw [standing_log2 h] at hr
    have won := up r (Nat.le_of_lt_succ hr)
    obtain ⟨n, hn, shown⟩ := Option.bind_eq_some_iff.1 won
    exact ⟨n, hn, result_eq_some.1 shown⟩

/-- Over every run of a fresh seeded tournament with canonical addresses, from
its activation on, the matches form a single-elimination tree in which no seat
is taken twice, and the champion has won its way to the root. -/
theorem tree_invariant (ht : s.tournament? a.key = some t) (running : t.status = .active ∨ t.status = .completed) :
    SingleElimination rt a.key s t ∧ KeepsSeats a.key past s ∧
      (t.status = .completed → Crowned rt a.key past s t) := by
  obtain ⟨k, h⟩ := life_standing life fresh mode unclosed canonical ht running
  exact ⟨standing_elimination h, life_keeps life fresh mode unclosed canonical,
    life_crowned life fresh mode unclosed canonical ht⟩

end Life

/-- A match is proposed by its winner and confirmed by its loser. -/
def conceded (key : Pubkey) (d : MatchInitDescriptor) (winner loser : Pubkey) (next : Option MatchInitDescriptor)
    (remaining placements : List Pubkey) : List Action :=
  [.call (.proposeResult ⟨winner, key, .matchNode key d.slot⟩ winner),
    .call (.confirmResult ⟨loser, key, .matchNode key d.slot, next.map fun n => .matchNode key n.slot, remaining⟩
      placements)]

/-- Four players, from the draw to a champion. -/
def playedOut (key : Pubkey) : List Action :=
  fourRevealed key ++ [startWith key [semi0, semi1, lastOf4], openTreasury] ++
    conceded key semi1 (.key 3) (.key 5) (some lastOf4) [] [] ++
    conceded key semi0 (.key 4) (.key 2) (some lastOf4) [] [] ++
    conceded key lastOf4 (.key 3) (.key 4) none [.key 12, .key 17] [.key 3]

theorem playedOut_life : SampleLife (playedOut sampleTournament.key) :=
  script_life sampleBorn_reachable rfl (by decide) (by decide)

theorem playedOut_crowned : ∃ past s t, t.champion = .key 3 ∧ KeepsSeats sampleTournament.key past s ∧
    SingleElimination sampleRuntime sampleTournament.key s t ∧ Crowned sampleRuntime sampleTournament.key past s t := by
  obtain ⟨tree, keeps, crowned⟩ := tree_invariant playedOut_life sampleBorn_fresh (by decide) (fun e he c hc => by
    have mem := mem_log he
    rw [hc] at mem
    simp [playedOut, conceded, fourRevealed, joinAs, startWith, openTreasury] at mem) (by decide) rfl (.inr rfl)
  exact ⟨_, _, _, rfl, keeps, tree, crowned rfl⟩

end BracketChain.Tree
