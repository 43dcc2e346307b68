import BracketChain.Frames
import BracketChain.Tree
import BracketChain.Consent

namespace BracketChain.Consistency

open Outcome Keys Records Accounts Registration Start Settlement Envelope Refunds Program Runs Layout View Lifecycle
  RefundEffects Refinement Frames Lives Bookkeeping Matches Seats Building Completeness FixedDraw Standings Filling BracketChain.Tree
  Scripts Consent

/-- A close call that lists an account with lamports, which it then closes. -/
def ClosesChild (key : Pubkey) (e : Ledger × Action) : Prop :=
  ∃ c p, e.2 = .call (.closeTournament c) ∧ c.tournament = key ∧ p ∈ c.remainingAccounts ∧ e.1.lamports p ≠ 0

/-- The clock is not set back. -/
def Forward (e : Ledger × Action) : Prop :=
  ∀ c, e.2 = .outside (.clock c) → e.1.clock.unixTimestamp ≤ c.unixTimestamp

/-- The envelope and the commitment of a match fit its players and its
tournament. -/
structure Consistent (t : Tournament) (participant : Pubkey → Option Participant) (m : MatchNode) : Prop where
  proposed : m.proposalSource ≠ .none → m.hasPlayer m.proposedWinner ∧ m.proposedAt ≤ m.claimDeadline
  empty : m.proposalSource = .none → m.disputed = false
  oracle : m.proposalSource = .oracle → t.settlementMode = .oracle ∧ m.commitment.isSome = true
  committed : ∀ c, m.commitment = some c → ∃ pa pb, participant m.playerA = some pa ∧ participant m.playerB = some pb ∧
    c.playerAGameId = pa.identityHash ∧ c.playerBGameId = pb.identityHash

/-- What carries it over the steps: nothing is written to a match that is
still pending, and proposals are not dated ahead. -/
structure Orderly (t : Tournament) (participant : Pubkey → Option Participant) (now : Int) (m : MatchNode) : Prop
    extends Consistent t participant m where
  unwritten : m.status = .pending → m.proposalSource = .none ∧ m.commitment = none
  dated : m.proposalSource ≠ .none → m.proposedAt ≤ now

/-- The match after some steps of a history. -/
structure Continues (m m' : MatchNode) : Prop where
  players : m.playerA ≠ default → m.playerB ≠ default → m'.playerA = m.playerA ∧ m'.playerB = m.playerB
  commitment : ∀ c, m.commitment = some c → m'.commitment = some c

variable {rt : Runtime} {key : Pubkey} {clock : Clock} {b : Action} {v v' : TournamentView} {t t' : Tournament}
  {p p' : Pubkey → Option Participant} {now now' : Int} {m m' : MatchNode}

/-- Participants stay open and keep their identity. -/
def KeepsIdentity (p p' : Pubkey → Option Participant) : Prop :=
  ∀ w x, p w = some x → ∃ x', p' w = some x' ∧ x'.identityHash = x.identityHash

theorem KeepsIdentity.refl (p : Pubkey → Option Participant) : KeepsIdentity p p := fun _ x hx => ⟨x, hx, rfl⟩

theorem KeepsIdentity.insert {w : Pubkey} (new : p w = none) (x : Participant) :
    KeepsIdentity p (Function.update p w (some x)) := by
  intro q y hy
  have apart : q ≠ w := by
    rintro rfl
    cases new.symm.trans hy
  exact ⟨y, by rwa [Function.update_of_ne apart], rfl⟩

theorem credited_keepsIdentity {winner : Pubkey} (h : Credited m winner p p') : KeepsIdentity p p' := by
  obtain ⟨a, b, ha, hb, rfl⟩ := h
  have same : (creditMatchStats a b winner).1.identityHash = a.identityHash ∧
      (creditMatchStats a b winner).2.identityHash = b.identityHash := by
    unfold creditMatchStats
    split <;> exact ⟨rfl, rfl⟩
  intro w x hx
  by_cases hB : w = m.playerB
  · subst hB
    obtain rfl := Option.some.inj (hb.symm.trans hx)
    exact ⟨_, Function.update_self .., same.2⟩
  · by_cases hA : w = m.playerA
    · subst hA
      obtain rfl := Option.some.inj (ha.symm.trans hx)
      exact ⟨_, by rw [Function.update_of_ne hB, Function.update_self], same.1⟩
    · exact ⟨x, by rwa [Function.update_of_ne hB, Function.update_of_ne hA], rfl⟩

theorem effect_keepsIdentity (effect : Effect rt key clock b v v')
    (unclosed : ∀ c, b = .call (.closeTournament c) → c.tournament ≠ key) :
    KeepsIdentity v.participant v'.participant := by
  cases effect with
  | join _ _ _ _ _ _ new => exact .insert new _
  | advance _ _ _ _ finalizes | conclude _ _ _ _ _ finalizes =>
      rcases finalizes.stats with ⟨_, rfl⟩ | credited
      · exact .refl _
      · exact credited_keepsIdentity credited
  | refund _ _ _ ws =>
      intro w x hx
      by_cases hw : w ∈ ws
      · exact ⟨Participant.refunded x, by simp [refundAll, hw, hx], rfl⟩
      · exact ⟨x, by simpa [refundAll, hw] using hx, rfl⟩
  | closeChildren c key_eq | closeRoot c key_eq => exact absurd key_eq (unclosed c rfl)
  | others | create | requestSeed | revealSeed | start | edit | partialCancel => exact .refl _

theorem Orderly.keep (h : Orderly t p now m) (mode : t'.settlementMode = t.settlementMode) (roles : KeepsIdentity p p')
    (later : now ≤ now') : Orderly t' p' now' m := by
  refine ⟨⟨h.proposed, h.empty, fun oracle => ?_, fun c hc => ?_⟩, h.unwritten, fun some_ => ?_⟩
  · rw [mode]
    exact h.oracle oracle
  · obtain ⟨pa, pb, ha, hb, hA, hB⟩ := h.committed c hc
    obtain ⟨pa', ha', sameA⟩ := roles _ pa ha
    obtain ⟨pb', hb', sameB⟩ := roles _ pb hb
    exact ⟨pa', pb', ha', hb', hA.trans sameA.symm, hB.trans sameB.symm⟩
  · exact (h.dated some_).trans later

theorem orderly_node (d : MatchInitDescriptor) : Orderly t p now (d.node key) := by
  refine ⟨⟨fun h => absurd rfl h, fun _ => rfl, fun h => (by cases h), fun c h => (by cases h)⟩, fun _ => ⟨rfl, rfl⟩,
    fun h => absurd rfl h⟩

theorem Orderly.edit (h : Orderly t p clock.unixTimestamp m) {ix : Instruction} (edits : Edits t clock m ix m')
    (written : ∀ c, m'.commitment = some c → m.commitment = some c ∨ ∃ pa pb, p m.playerA = some pa ∧
      p m.playerB = some pb ∧ c.playerAGameId = pa.identityHash ∧ c.playerBGameId = pb.identityHash) :
    Orderly t p clock.unixTimestamp m' := by
  cases edits with
  | propose a winner mode active empty proposer player =>
      refine ⟨⟨fun _ => ⟨player, ?_⟩, fun source => (by cases source), fun source => (by cases source), h.committed⟩,
        fun pending => ?_, fun _ => Int.le_refl _⟩
      · simp only [MatchNode.propose]
        omega
      · simp [MatchNode.propose, active] at pending
  | proposeOracle a feed winner mode active empty committed bound player =>
      refine ⟨⟨fun _ => ⟨player, ?_⟩, fun source => (by cases source), fun _ => ⟨mode, committed⟩, h.committed⟩,
        fun pending => ?_, fun _ => Int.le_refl _⟩
      · simp only [MatchNode.propose]
        omega
      · simp [MatchNode.propose, active] at pending
  | dispute a reason pending =>
      refine ⟨⟨fun _ => ⟨(h.proposed pending).1, ?_⟩, fun source => absurd source pending, h.oracle, h.committed⟩,
        h.unwritten, h.dated⟩
      have dated := h.dated pending
      simp only [MatchNode.dispute, forceClaimWindowSecs]
      omega
  | commit a lobby hash c organizer mode running active first =>
      refine ⟨⟨h.proposed, h.empty, fun source => ⟨mode, rfl⟩, fun c hc => ?_⟩, fun pending => ?_, h.dated⟩
      · rcases written c hc with old | new
        · exact h.committed c old
        · exact new
      · exact absurd (active.symm.trans pending) (by decide)
  | bind a feed organizer committed => exact ⟨⟨h.proposed, h.empty, h.oracle, h.committed⟩, h.unwritten, h.dated⟩

theorem Orderly.complete (h : Orderly t p now m) (winner : Pubkey) : Orderly t p now (MatchNode.complete m winner) :=
  ⟨⟨h.proposed, h.empty, h.oracle, h.committed⟩, fun pending => (by cases pending), h.dated⟩

theorem Orderly.advance (h : Orderly t p now m) (pending : m.status = .pending) (i : Nat) (winner : Pubkey) :
    Orderly t p now (MatchNode.advance m i winner) := by
  obtain ⟨empty, none_⟩ := h.unwritten pending
  rw [advance_eq]
  exact ⟨⟨fun some_ => absurd empty some_, h.empty, fun source => (by cases source.symm.trans empty),
    fun c hc => (by cases hc.symm.trans none_)⟩, fun _ => ⟨empty, none_⟩, h.dated⟩

/-- What the commitment of a match is made from. -/
theorem commit_reads {s s' : Ledger} {a : MatchAccounts} {lobby : Bytes16} {hash : Bytes32} {slot : Slot}
    (step : Step rt s (.call (.commitMatchLobby a lobby hash)) s') (key_eq : a.tournament = key)
    (address : a.matchAccount = .matchNode key slot) (hm : (viewOf s key).node slot = some m)
    (hm' : (viewOf s' key).node slot = some m') {c : MatchCommitment} (hc : m'.commitment = some c) :
    ∃ pa pb, (viewOf s key).participant m.playerA = some pa ∧ (viewOf s key).participant m.playerB = some pb ∧
      c.playerAGameId = pa.identityHash ∧ c.playerBGameId = pb.identityHash := by
  obtain ⟨_, _, ran⟩ := call_ran step
  simp only [Instruction.run, bind_ok, commitMatchLobby, pure_ok, Ledger.loadMatch_ok,
    Ledger.loadParticipant_ok] at ran
  obtain ⟨t, _, _, _, n, ⟨hn, _⟩, pa, ha, pb, hb, _, _, _, _, _, _, _, _, rfl⟩ := ran
  rw [address] at hn hm'
  rw [key_eq] at ha hb
  obtain rfl : m = n := Option.some.inj (hm.symm.trans hn)
  have written : m' = { m with commitment := some ⟨lobby, pa.identityHash, pb.identityHash, hash,
      s.clock.unixTimestamp, s.clock.slot⟩ } := by
    simpa [viewOf, Ledger.matchNode?, Ledger.setAccount_accounts, Account.asMatchNode, eq_comm] using hm'
  rw [written] at hc
  obtain rfl := Option.some.inj hc
  exact ⟨pa, pb, ha, hb, rfl, rfl⟩

theorem forward_le {s s' : Ledger} (wf : Wellformed s) (step : Step rt s b s') (forward : Forward (s, b)) :
    s.clock.unixTimestamp ≤ s'.clock.unixTimestamp := by
  rcases step_clock wf step with same | ⟨c, rfl, moved⟩
  · rw [same]
  · rw [moved]
    exact forward c rfl

section Steps

variable {s s' : Ledger} {slot : Slot}

theorem orderly_step (wf : Wellformed s) (step : Step rt s b s')
    (effect : Effect rt key s.clock b (viewOf s key) (viewOf s' key)) (forward : Forward (s, b))
    (last : ∀ c, b = .call (.closeTournament c) → c.tournament ≠ key) (ht : (viewOf s key).record = some t)
    (ht' : (viewOf s' key).record = some t')
    (standing : t.status = .active ∨ t.status = .completed → ∃ k, Standing rt key k (viewOf s key).node t)
    (sofar : ∀ {slot m}, (viewOf s key).node slot = some m →
      Orderly t (viewOf s key).participant s.clock.unixTimestamp m)
    (hm' : (viewOf s' key).node slot = some m') : Orderly t' (viewOf s' key).participant s'.clock.unixTimestamp m' := by
  have slots slot m (hm : (viewOf s key).node slot = some m) : m.slot = slot := (node_slot wf hm).1
  have carried {m : MatchNode} (h : Orderly t (viewOf s key).participant s.clock.unixTimestamp m) :
      Orderly t' (viewOf s' key).participant s'.clock.unixTimestamp m :=
    h.keep (effect_terms effect ht ht').settlementMode (effect_keepsIdentity effect last) (forward_le wf step forward)
  have change := effect_node effect slot
  rw [hm'] at change
  generalize hn' : some m' = o at change
  cases change with
  | same => exact carried (sofar hn'.symm)
  | placed c d =>
      obtain rfl := Option.some.inj hn'
      exact orderly_node d
  | edited ix c call accounts key_eq address record node edits =>
      subst call
      obtain rfl := Option.some.inj hn'
      obtain rfl := Option.some.inj (ht.symm.trans record)
      refine carried ((sofar node).edit edits fun commitment hc => ?_)
      cases edits with
      | commit =>
          obtain rfl := Option.some.inj accounts
          exact .inr (commit_reads step key_eq address node hm' hc)
      | propose | proposeOracle | dispute | bind => exact .inl hc
  | finalized _ _ _ finalizes =>
      obtain rfl := Option.some.inj hn'
      exact carried ((sofar finalizes.node).complete _)
  | seated ix c child _ finalizes inner address node round index =>
      obtain rfl := Option.some.inj hn'
      obtain rfl := Option.some.inj (ht.symm.trans finalizes.record)
      obtain ⟨k, h⟩ := standing (.inl finalizes.running)
      exact carried ((sofar node).advance (seated_pending h slots finalizes node round index).1 _ _)
  | closed => cases hn'

/-- No step replaces a commitment. -/
theorem commitment_step {c : MatchCommitment} (effect : Effect rt key clock b v v') (hm : v.node slot = some m)
    (hc : m.commitment = some c) (hm' : v'.node slot = some m') : m'.commitment = some c := by
  have change := effect_node effect slot
  rw [hm'] at change
  generalize ho : some m' = o at change
  cases change with
  | same =>
      obtain rfl := Option.some.inj (ho.trans hm)
      exact hc
  | placed _ d _ _ _ _ chunk mem slot_eq =>
      have vacant := chunk.fresh d mem
      rw [slot_eq, hm] at vacant
      cases vacant
  | edited _ _ _ _ _ _ _ node edits =>
      obtain rfl := Option.some.inj ho
      obtain rfl := Option.some.inj (hm.symm.trans node)
      cases edits with
      | commit _ _ _ _ _ _ _ _ first => cases first.symm.trans hc
      | propose | proposeOracle | dispute | bind => exact hc
  | finalized _ _ _ finalizes =>
      obtain rfl := Option.some.inj ho
      obtain rfl := Option.some.inj (hm.symm.trans finalizes.node)
      exact hc
  | seated _ _ _ _ _ _ _ node =>
      obtain rfl := Option.some.inj ho
      obtain rfl := Option.some.inj (hm.symm.trans node)
      rw [advance_eq]
      exact hc
  | closed => cases ho

end Steps

section Life

variable {a : CreateTournament} {born start s : Ledger} {past : History} (life : Life rt a born start past s)
  (fresh : Fresh a.key born) (mode : a.settlementMode ≠ .organizerOnly) (unclosed : Unclosed a.key past)
  (canonical : ∀ d ∈ accepted a.key past, Canonical rt a.key d)
include life fresh mode unclosed canonical

theorem life_orderly (forward : Always Forward past) {slot : Slot} {m : MatchNode}
    (hm : (viewOf s a.key).node slot = some m) : ∃ t, (viewOf s a.key).record = some t ∧
      Orderly t (viewOf s a.key).participant s.clock.unixTimestamp m := by
  revert m slot
  refine canonical_invariant (P := fun past s => Always Forward past → ∀ {slot m}, (viewOf s a.key).node slot = some m →
    ∃ t, (viewOf s a.key).record = some t ∧ Orderly t (viewOf s a.key).participant s.clock.unixTimestamp m)
    life unclosed canonical ?_ ?_ forward
  · intro _ slot m hm
    rw [life.start_empty fresh slot] at hm
    cases hm
  · intro past s b s' earlier ih step effect later unclosed canonical forward slot m' hm'
    obtain ⟨unclosed, last⟩ := always_snoc.1 unclosed
    obtain ⟨forward, ahead⟩ := always_snoc.1 forward
    replace canonical := canonical_sublist (List.sublist_append_left past _) canonical
    obtain ⟨t, ht⟩ := earlier.record
    obtain ⟨t', ht'⟩ := later.record
    have standing := life_standing earlier fresh mode unclosed canonical ht
    refine ⟨t', ht', orderly_step earlier.wf step effect ahead last ht ht' standing (fun hm => ?_) hm'⟩
    obtain ⟨t₁, ht₁, orderly⟩ := ih forward hm
    rwa [Option.some.inj (ht₁.symm.trans ht)] at orderly

omit fresh mode unclosed canonical in
theorem life_commitment {q : Ledger} {slot : Slot} {m m' : MatchNode} {c : MatchCommitment} (visited : Visits past s q)
    (hm : (viewOf q a.key).node slot = some m) (hc : m.commitment = some c)
    (hm' : (viewOf s a.key).node slot = some m') : m'.commitment = some c := by
  rcases visited with rfl | ⟨b, entry⟩
  · rwa [Option.some.inj (hm'.symm.trans hm)]
  · obtain ⟨before, after, rfl⟩ := List.append_of_mem entry
    obtain ⟨_, rest⟩ := life.course.from_entry rfl
    have kept := course_node (P := fun n => n.commitment = some c) rest hm hc
      fun q b v' n n' _ _ effect hn committed hn' => commitment_step effect hn committed hn'
    rcases kept with ⟨n, hn, same⟩ | ⟨gone, _⟩
    · rwa [Option.some.inj (hm'.symm.trans hn)]
    · cases gone.symm.trans hm'

/-- The matches that a history has seen go on as they were. -/
theorem life_continues {q : Ledger} {slot : Slot} {m m' : MatchNode} (visited : Visits past s q)
    (hm : (viewOf q a.key).node slot = some m) (hm' : (viewOf s a.key).node slot = some m') : Continues m m' := by
  obtain ⟨n, hn, seats⟩ := life_keeps life fresh mode unclosed canonical q slot m visited hm
  obtain rfl : m' = n := Option.some.inj (hm'.symm.trans hn)
  exact ⟨fun hA hB => ⟨seats.playerA hA, seats.playerB hB⟩, fun c hc => life_commitment life visited hm hc hm'⟩

end Life

theorem closeChildren_idle {s s' : Ledger} {organizer : Pubkey} {children : List Pubkey}
    (empty : ∀ p ∈ children, s.lamports p = 0) (h : each (closeChild key organizer) s children = .ok s') : s' = s := by
  induction children with
  | nil =>
      obtain rfl : s = s' := by simpa [each] using h
      rfl
  | cons child children ih =>
      obtain ⟨first, rest⟩ := List.forall_mem_cons.1 empty
      obtain ⟨m, hm, h⟩ := (each_cons_ok _ _ _ _ _).1 h
      obtain rfl : s = m := by simpa [closeChild, first] using hm
      exact ih rest h

/-- A close call that closes neither children nor the root changes nothing. -/
theorem close_idle {s s' : Ledger} {c : CloseTournament} (step : Step rt s (.call (.closeTournament c)) s')
    (idle : ¬ ClosesChild c.tournament (s, .call (.closeTournament c)))
    (open_ : (s'.tournament? c.tournament).isSome = true) : s' = s := by
  have empty : ∀ p ∈ c.remainingAccounts, s.lamports p = 0 := by
    intro p hp
    by_contra filled
    exact idle ⟨c, p, rfl, rfl, hp, filled⟩
  obtain ⟨_, _, ran⟩ := call_ran step
  simp only [Instruction.run, closeTournament, bind_ok, ite_ok, pure_ok] at ran
  obtain ⟨t, _, _, _, _, _, u, _, _, _, s₁, h₁, h⟩ := ran
  obtain rfl := closeChildren_idle empty h₁
  rcases h with ⟨_, h⟩ | ⟨_, rfl⟩
  · simp only [closeRoot, bind_ok, pure_ok] at h
    obtain ⟨_, _, _, _, rfl⟩ := h
    have gone : (((s₁.drainAccount (.vault c.tournament) c.organizer).drainAccount c.tournament
        c.organizer).tournament? c.tournament) = none := by
      simp [Ledger.tournament?, Ledger.drainAccount, Account.asTournament]
    rw [gone] at open_
    cases open_
  · rfl

/-- Without the close calls that close nothing, the same states are visited. -/
theorem life_pruned {a : CreateTournament} {born start s : Ledger} {past : History}
    (life : Life rt a born start past s) (idle : Always (fun e => ¬ ClosesChild a.key e) past) :
    ∃ past', Life rt a born start past' s ∧ Unclosed a.key past' ∧ past'.Sublist past ∧
      ∀ q, Visits past s q → Visits past' s q := by
  refine life.invariant (P := fun past s => Always (fun e => ¬ ClosesChild a.key e) past →
    ∃ past', Life rt a born start past' s ∧ Unclosed a.key past' ∧ past'.Sublist past ∧
      ∀ q, Visits past s q → Visits past' s q) ?_ ?_ idle
  · intro _
    have young : Life rt a born start [] start := by
      refine ⟨life.reachable, life.created, .nil, ?_⟩
      rintro q (rfl | ⟨b, hb⟩)
      · exact Option.isSome_iff_exists.2 ⟨_, life.start_record⟩
      · cases hb
    exact ⟨[], young, by simp [Unclosed, Always], .slnil, fun _ => id⟩
  · intro past s b s' earlier ih step effect later idle
    obtain ⟨idle, last⟩ := always_snoc.1 idle
    obtain ⟨past', life', unclosed, sub, visits⟩ := ih idle
    have open_ : (s'.tournament? a.key).isSome = true := later.kept s' (.inl rfl)
    by_cases closes : ∃ c, b = .call (.closeTournament c) ∧ c.tournament = a.key
    · obtain ⟨c, rfl, home⟩ := closes
      rw [← home] at open_ last
      obtain rfl := close_idle step last open_
      refine ⟨past', life', unclosed, sub.trans (List.sublist_append_left _ _), fun q hq => ?_⟩
      rcases visits_snoc.1 hq with rfl | hq
      · exact .inl rfl
      · exact visits q hq
    · refine ⟨past' ++ [(s, b)], life'.snoc step open_, always_snoc.2 ⟨unclosed, ?_⟩,
        sub.append (.refl _), fun q hq => ?_⟩
      · intro c hc home
        exact closes ⟨c, hc, home⟩
      · rcases visits_snoc.1 hq with rfl | hq
        · exact .inl rfl
        · exact visits_snoc.2 (.inr (visits q hq))

/-- In every run of a fresh seeded tournament with canonical addresses, up to
the first close of a child, the envelope and the commitment of each match fit
its players, which are fixed once both are known, like the commitment. -/
theorem envelopes_consistent {a : CreateTournament} {born start s : Ledger} {past : History}
    (life : Life rt a born start past s) (fresh : Fresh a.key born) (mode : a.settlementMode ≠ .organizerOnly)
    (canonical : ∀ d ∈ accepted a.key past, Canonical rt a.key d) (forward : Always Forward past)
    (idle : Always (fun e => ¬ ClosesChild a.key e) past) {slot : Slot} {m : MatchNode}
    (hm : s.matchNode? (.matchNode a.key slot) = some m) :
    (∃ t, s.tournament? a.key = some t ∧ Consistent t (viewOf s a.key).participant m) ∧
      ∀ q m₀, Visits past s q → q.matchNode? (.matchNode a.key slot) = some m₀ → Continues m₀ m := by
  obtain ⟨past', life', unclosed, sub, visits⟩ := life_pruned life idle
  have canonical' := canonical_sublist sub canonical
  have forward' : Always Forward past' := fun e entry => forward e (sub.subset entry)
  constructor
  · obtain ⟨t, ht, orderly⟩ := life_orderly life' fresh mode unclosed canonical' forward' hm
    exact ⟨t, ht, orderly.toConsistent⟩
  · intro q m₀ visited hm₀
    exact life_continues life' fresh mode unclosed canonical' (visits q visited) hm₀ hm

section Relayed

/-- The ledger with an oracle in which the relayed tournament is created. -/
def relayBorn : Ledger :=
  after relayRuntime sampleGenesis [sampleInit, .call (.setOracleConfig (.key 9) (.key 300) 0 1)]

/-- The organizer commits to a lobby, a relayer proposes and, later, the other
player disputes. -/
def contested : List Action :=
  relayed.drop 3 ++ [.outside (.clock ⟨40, 9⟩),
    .call (.disputeResult ⟨.key 2, relayTournament.key, finalMatch relayTournament.key⟩ 0)]

theorem contested_life : Life relayRuntime relayTournament relayBorn (created relayRuntime relayTournament relayBorn)
    (log relayRuntime (created relayRuntime relayTournament relayBorn) contested)
    (after relayRuntime (created relayRuntime relayTournament relayBorn) contested) :=
  script_life (script_reachable sampleGenesis_genesis _) rfl (by decide) (by decide)

theorem contested_open {e : Ledger × Action}
    (he : e ∈ log relayRuntime (created relayRuntime relayTournament relayBorn) contested) :
    ¬ ClosesChild relayTournament.key e := by
  rintro ⟨c, p, hc, _⟩
  have mem := mem_log he
  rw [hc] at mem
  simp [contested, relayed, twoRevealed, joinAs, openFinal, startWith, openTreasury] at mem

theorem contested_forward : Always Forward (log relayRuntime (created relayRuntime relayTournament relayBorn) contested) := by
  have forward : (log relayRuntime (created relayRuntime relayTournament relayBorn) contested).all (fun e =>
      match e.2 with
      | .outside (.clock c) => decide (e.1.clock.unixTimestamp ≤ c.unixTimestamp)
      | _ => true) = true := by decide
  intro e he c hc
  have := List.all_eq_true.1 forward e he
  rw [hc] at this
  exact of_decide_eq_true this

theorem contested_node : ∃ m, (after relayRuntime (created relayRuntime relayTournament relayBorn) contested).matchNode?
    (.matchNode relayTournament.key sampleFinal.slot) = some m ∧ m.proposalSource = .oracle ∧ m.disputed = true :=
  ⟨_, rfl, rfl, rfl⟩

theorem contested_consistent : ∃ t m, m.proposalSource = .oracle ∧ m.disputed = true ∧
    Consistent t (viewOf (after relayRuntime (created relayRuntime relayTournament relayBorn) contested)
      relayTournament.key).participant m := by
  obtain ⟨m, hm, source, disputed⟩ := contested_node
  obtain ⟨⟨t, _, consistent⟩, _⟩ := envelopes_consistent contested_life ⟨fun _ => rfl, fun _ => rfl⟩ (by decide)
    (by decide) contested_forward (fun _ => contested_open) hm
  exact ⟨t, m, source, disputed, consistent⟩

end Relayed

end BracketChain.Consistency
