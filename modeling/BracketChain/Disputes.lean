import BracketChain.Building
import BracketChain.Irrevocable

namespace BracketChain.Disputes

open Outcome Keys Records Accounts Registration Start Settlement Envelope Refunds Program Runs Layout View Lifecycle
  MatchEffects Refinement Lives Matches Building Irrevocable Scripts

/-- The match is open for a dispute. -/
def OpenFor (t : Tournament) (m : MatchNode) (now : Int) : Prop :=
  m.status = .active ∧ (t.status = .pendingBracketInit ∨ t.status = .active) ∧ now < m.claimDeadline

/-- Whatever dispute succeeds in a state of the run, its match is open for it. -/
def DisputesOpen (rt : Runtime) (key : Pubkey) (past : History) (s : Ledger) : Prop :=
  ∀ q, Visits past s q → ∀ c reason q', c.tournament = key → Step rt q (.call (.disputeResult c reason)) q' →
    ∃ t m, q.tournament? key = some t ∧ q.matchNode? c.matchAccount = some m ∧ OpenFor t m q.clock.unixTimestamp

/-- The match carries a proposal that nobody has disputed, and that some wallet
may dispute. -/
def Undecided (t : Tournament) (m : MatchNode) (now : Int) : Prop :=
  m.proposalSource ≠ .none ∧ m.disputed = false ∧ (∃ w, w.canSign = true ∧ checkDisputer t m w = .ok ()) ∧
    now + forceClaimWindowSecs ≤ i64Max

/-- The match is not in play any more, nor the tournament, or the proposal can
be claimed. -/
def Overdue (t : Tournament) (m : MatchNode) (now : Int) : Prop :=
  m.status ≠ .active ∨ t.status = .registration ∨ terminal t.status ∨ m.claimDeadline ≤ now

instance (t : Tournament) (m : MatchNode) (now : Int) : Decidable (Overdue t m now) :=
  inferInstanceAs (Decidable (_ ∨ _))

/-- No proposal is left undecided until it is overdue. -/
def NoneOverdue (key : Pubkey) (past : History) (s : Ledger) : Prop :=
  ∀ q, Visits past s q → ∀ t slot m, q.tournament? key = some t → q.matchNode? (.matchNode key slot) = some m →
    Undecided t m q.clock.unixTimestamp → ¬ Overdue t m q.clock.unixTimestamp

/-- What a dispute writes. -/
def MatchNode.seal (m : MatchNode) : Bool × Nat × Int := (m.disputed, m.disputeReason, m.claimDeadline)

/-- `claim_result` is permitted for the proposal on the match. -/
def Claimable (m : MatchNode) (now : Int) : Prop :=
  m.proposalSource ≠ .none ∧ m.disputed = false ∧ m.claimDeadline ≤ now

/-- The envelopes of matches that a history has seen completed are as they
were then. -/
def Sealed (key : Pubkey) (past : History) (s : Ledger) : Prop :=
  ∀ q slot m m', Visits past s q → q.matchNode? (.matchNode key slot) = some m → m.status = .completed →
    s.matchNode? (.matchNode key slot) = some m' → MatchNode.seal m' = MatchNode.seal m

/-- Proposals that could be claimed once are undisputed since and keep their
deadline, unless the clock was set back. -/
def Firm (key : Pubkey) (past : History) (s : Ledger) : Prop :=
  ∀ before q b after slot m m', past = before ++ (q, b) :: after →
    (∀ e ∈ after, q.clock.unixTimestamp ≤ e.1.clock.unixTimestamp) →
    q.matchNode? (.matchNode key slot) = some m → Claimable m q.clock.unixTimestamp →
    s.matchNode? (.matchNode key slot) = some m' → m'.disputed = false ∧ m'.claimDeadline = m.claimDeadline

variable {rt : Runtime} {key : Pubkey} {start s : Ledger} {past : History} {b : Action} {v' : TournamentView}
  {slot : Slot} {m m' : MatchNode}

theorem advance_seal (n : MatchNode) (i : Nat) (w : Pubkey) :
    MatchNode.seal (MatchNode.advance n i w) = MatchNode.seal n := by
  rw [advance_eq]
  rfl

/-- What a step does to the envelope of a match that carries a proposal. -/
theorem seal_step (effect : Effect rt key s.clock b (viewOf s key) v') (hm : (viewOf s key).node slot = some m)
    (settled : m.status ≠ .active ∨ m.proposalSource ≠ .none) (hm' : v'.node slot = some m') :
    (MatchNode.seal m' = MatchNode.seal m ∧ m'.proposalSource = m.proposalSource) ∨
      ∃ c reason, b = .call (.disputeResult c reason) ∧ c.tournament = key ∧ c.matchAccount = .matchNode key slot := by
  have change := effect_node effect slot
  rw [hm'] at change
  have same {n : MatchNode} (h : (viewOf s key).node slot = some n) : m = n := Option.some.inj (hm.symm.trans h)
  generalize hn : some m' = n at change
  cases change with
  | same =>
      obtain rfl := same hn.symm
      exact .inl ⟨rfl, rfl⟩
  | placed c d _ _ _ _ chunk mem slot_eq =>
      have taken := chunk.fresh d mem
      rw [slot_eq] at taken
      cases hm.symm.trans taken
  | edited ix a call accounts key_eq address record node edits =>
      obtain rfl := same node
      obtain rfl := Option.some.inj hn
      cases edits with
      | propose _ _ _ active empty | proposeOracle _ _ _ _ active empty =>
          rcases settled with idle | pending
          · exact absurd active idle
          · exact absurd empty pending
      | dispute c reason =>
          obtain rfl := Option.some.inj accounts
          exact .inr ⟨_, reason, call, key_eq, address⟩
      | commit | bind => exact .inl ⟨rfl, rfl⟩
  | finalized ix a _ finalizes =>
      obtain rfl := same finalizes.node
      obtain rfl := Option.some.inj hn
      exact .inl ⟨rfl, rfl⟩
  | seated ix a child _ finalizes _ address node =>
      obtain rfl := same node
      obtain rfl := Option.some.inj hn
      refine .inl ⟨advance_seal .., ?_⟩
      rw [advance_eq]
  | closed => cases hn

theorem openFor_iff {t : Tournament} {now : Int} : OpenFor t m now ↔ ¬ Overdue t m now := by
  rw [OpenFor, Overdue, ← not_le]
  cases t.status <;> simp [terminal]

/-- A dispute succeeds exactly on an undecided proposal, for a wallet that may
dispute it. -/
theorem dispute_succeeds {c : MatchAccounts} (wf : Wellformed s) (reason : Nat) :
    (∃ s', Step rt s (.call (.disputeResult c reason)) s') ↔
      c.signer.canSign = true ∧ ∃ t m, s.tournament? c.tournament = some t ∧ s.matchNode? c.matchAccount = some m ∧
        c.matchAccount = .matchNode c.tournament m.slot ∧ m.tournament = c.tournament ∧ m.proposalSource ≠ .none ∧
        m.disputed = false ∧ checkDisputer t m c.signer = .ok () ∧
        s.clock.unixTimestamp + forceClaimWindowSecs ≤ i64Max := by
  constructor
  · rintro ⟨s', step⟩
    obtain ⟨signer, _, ran⟩ := call_ran step
    simp only [Instruction.run, disputeResult, bind_ok, require_ok, pure_ok, Ledger.loadTournament_ok, Ledger.loadMatch_ok,
      deadlineAfter_ok] at ran
    obtain ⟨t, ⟨ht, _⟩, m, ⟨hm, address, home⟩, _, pending, _, undisputed, _, may, _, ⟨room, _⟩, _⟩ := ran
    exact ⟨signer, t, m, ht, hm, address, home, pending, undisputed, may, room⟩
  · rintro ⟨signer, t, m, ht, hm, address, home, pending, undisputed, may, room⟩
    refine ⟨s.setAccount c.matchAccount (.matchNode (MatchNode.dispute m reason
      (s.clock.unixTimestamp + forceClaimWindowSecs))), unpaid_step rfl signer ?_⟩
    simp only [Instruction.run, disputeResult, bind_ok, require_ok, pure_ok, Ledger.loadTournament_ok, Ledger.loadMatch_ok,
      deadlineAfter_ok]
    exact ⟨t, ⟨ht, (record_fits wf ht).1⟩, m, ⟨hm, address, home⟩, (), pending, (), undisputed, (), may, _, ⟨room, rfl⟩, rfl⟩

/-- Disputes reach open matches only if and only if no undecided proposal
becomes overdue. -/
theorem disputesOpen_iff (course : Course rt key start past s) :
    DisputesOpen rt key past s ↔ NoneOverdue key past s := by
  have wf {q : Ledger} (visited : Visits past s q) : Wellformed q := by
    obtain ⟨before, moment⟩ := visited.moment
    exact run_wellformed (reachable_wellformed course.reachable) (moment.run course.run)
  constructor
  · intro open_ q visited t slot m ht hm undecided
    obtain ⟨pending, undisputed, ⟨w, signer, may⟩, room⟩ := undecided
    obtain ⟨at_, home⟩ := node_slot (wf visited) hm
    let c : MatchAccounts := ⟨w, key, .matchNode key slot⟩
    have address : c.matchAccount = .matchNode key m.slot := by rw [at_]
    obtain ⟨q', step⟩ := (dispute_succeeds (c := c) (wf visited) 0).2
      ⟨signer, t, m, ht, hm, address, home, pending, undisputed, may, room⟩
    obtain ⟨t', m', ht', hm', reached⟩ := open_ q visited c 0 q' rfl step
    obtain rfl := Option.some.inj (ht.symm.trans ht')
    obtain rfl := Option.some.inj (hm.symm.trans hm')
    exact openFor_iff.1 reached
  · rintro none_ q visited c reason q' rfl step
    obtain ⟨signer, t, m, ht, hm, address, _, pending, undisputed, may, room⟩ :=
      (dispute_succeeds (wf visited) reason).1 ⟨q', step⟩
    refine ⟨t, m, ht, hm, openFor_iff.2 ?_⟩
    exact none_ q visited t m.slot m ht (address ▸ hm) ⟨pending, undisputed, ⟨_, signer, may⟩, room⟩

/-- A dispute of the run finds the match open. -/
theorem dispute_open {q : Ledger} {c : MatchAccounts} {reason : Nat} (course : Course rt key start past s)
    (open_ : DisputesOpen rt key past s) (mem : (q, .call (.disputeResult c reason)) ∈ past) (key_eq : c.tournament = key)
    (address : c.matchAccount = .matchNode key slot) (hm : (viewOf q key).node slot = some m) :
    m.status = .active ∧ q.clock.unixTimestamp < m.claimDeadline := by
  obtain ⟨q', step, _⟩ := course.run.next_visited mem
  obtain ⟨t, m', _, hm', active, _, early⟩ := open_ q (.inr ⟨_, mem⟩) c reason q' key_eq step
  rw [address] at hm'
  obtain rfl := Option.some.inj (hm.symm.trans hm')
  exact ⟨active, early⟩

theorem completed_sealed (course : Course rt key start past s) (open_ : DisputesOpen rt key past s)
    (kept : Always (fun e => ¬ Overwrites key e) past) : Sealed key past s := by
  intro q slot m m' visited hm completed hm'
  rcases visited with rfl | ⟨b, entry⟩
  · rw [Option.some.inj (hm'.symm.trans hm)]
  · obtain ⟨before, after, rfl⟩ := List.append_of_mem entry
    obtain ⟨_, rest⟩ := course.from_entry rfl
    have found := course_node (P := fun n => n.status = .completed ∧ MatchNode.seal n = MatchNode.seal m) rest hm
      ⟨completed, rfl⟩ ?_
    · rcases found with ⟨n, hn, _, same⟩ | ⟨gone, _⟩
      · rw [Option.some.inj (hm'.symm.trans hn)]
        exact same
      · cases gone.symm.trans hm'
    · rintro q' c v' n n' later wf effect hn ⟨done, same⟩ hn'
      have mem : (q', c) ∈ before ++ (q, b) :: after := List.mem_append_right _ later
      have result := completed_step (kept _ mem) effect hn done hn'
      rcases seal_step effect hn (.inl (by simp [done])) hn' with ⟨sealed_, _⟩ | ⟨d, reason, rfl, home, address⟩
      · exact ⟨result.status.trans done, sealed_.trans same⟩
      · have active := (dispute_open course open_ mem home address hn).1
        exact absurd (done.symm.trans active) (by simp)

theorem claimable_firm (course : Course rt key start past s) (open_ : DisputesOpen rt key past s) :
    Firm key past s := by
  intro before q b after slot m m' split forward hm claimable hm'
  obtain ⟨_, rest⟩ := course.from_entry split
  subst split
  obtain ⟨pending, undisputed, due⟩ := claimable
  have found := course_node (P := fun n => n.proposalSource ≠ .none ∧ MatchNode.seal n = MatchNode.seal m) rest hm
    ⟨pending, rfl⟩ ?_
  · rcases found with ⟨n, hn, _, same⟩ | ⟨gone, _⟩
    · obtain rfl := Option.some.inj (hm'.symm.trans hn)
      simp only [MatchNode.seal, Prod.mk.injEq] at same
      exact ⟨same.1.trans undisputed, same.2.2⟩
    · cases gone.symm.trans hm'
  · rintro q' c v' n n' later wf effect hn ⟨standing, same⟩ hn'
    have mem : (q', c) ∈ before ++ (q, b) :: after := List.mem_append_right _ later
    have time : q.clock.unixTimestamp ≤ q'.clock.unixTimestamp := by
      rcases List.mem_cons.1 later with h | h
      · obtain ⟨rfl, _⟩ := Prod.mk.inj h
        exact le_rfl
      · exact forward _ h
    rcases seal_step effect hn (.inr standing) hn' with ⟨sealed_, source⟩ | ⟨d, reason, rfl, home, address⟩
    · exact ⟨source ▸ standing, sealed_.trans same⟩
    · -- the deadline has passed already, so this dispute comes too late
      have early := (dispute_open course open_ mem home address hn).2
      simp only [MatchNode.seal, Prod.mk.injEq] at same
      omega

/-- In every run, disputes reach open matches only if and only if no undecided
proposal becomes overdue. Claimable proposals then keep their deadline, and so
do completed matches their envelope where no winner is seated in one. -/
theorem disputes_iff (course : Course rt key start past s) :
    (DisputesOpen rt key past s ↔ NoneOverdue key past s) ∧ (NoneOverdue key past s → Firm key past s ∧
      (Always (fun e => ¬ Overwrites key e) past → Sealed key past s)) := by
  refine ⟨disputesOpen_iff course, fun none_ => ?_⟩
  have open_ := (disputesOpen_iff course).2 none_
  exact ⟨claimable_firm course open_, completed_sealed course open_⟩

/-- The loser disputes the proposal in time, and the organizer decides. -/
def disputeBy2 (key : Pubkey) : Action := .call (.disputeResult ⟨.key 2, key, finalMatch key⟩ 3)

def arbitrated (key : Pubkey) : List Action :=
  proposedBy3 key ++ [disputeBy2 key, .call (.resolveDispute (finalFor (.key 1) key) (.key 3) [.key 3])]

theorem arbitrated_life : SampleLife (arbitrated sampleTournament.key) :=
  script_life sampleBorn_reachable rfl (by decide) (by decide)

/-- Matches of a fresh tournament come from the descriptors of its chunks. -/
theorem visited_placed {a : CreateTournament} {born q : Ledger} (life : Life rt a born start past s)
    (fresh : Fresh a.key born) (unclosed : Unclosed a.key past) (visited : Visits past s q)
    (hm : q.matchNode? (.matchNode a.key slot) = some m) : ∃ d ∈ accepted a.key past, d.slot = slot := by
  obtain ⟨before, moment⟩ := visited.moment
  have here := life.at_moment moment
  obtain ⟨_, _, built⟩ := course_built here.course here.start_record rfl fun e he => unclosed e (moment.mem he)
  rcases (built.taken slot).1 (Option.isSome_iff_exists.2 ⟨m, hm⟩) with earlier | ⟨d, hd, same⟩
  · rw [here.start_empty fresh slot] at earlier
    cases earlier
  · obtain ⟨e, he, c, call⟩ := mem_accepted.1 hd
    exact ⟨d, mem_accepted.2 ⟨e, moment.mem he, c, call⟩, same⟩

/-- A check of the final in one state. -/
def decidedInTime (key : Pubkey) (q : Ledger) : Bool :=
  match q.tournament? key, q.matchNode? (finalMatch key) with
  | some t, some m => m.proposalSource == .none || m.disputed || !decide (Overdue t m q.clock.unixTimestamp)
  | _, _ => true

theorem arbitrated_settled : ∃ past s m, s.matchNode? (finalMatch sampleTournament.key) = some m ∧
    m.status = .completed ∧ m.disputed = true ∧ DisputesOpen sampleRuntime sampleTournament.key past s ∧
    Sealed sampleTournament.key past s ∧ Firm sampleTournament.key past s := by
  let past := log sampleRuntime (created sampleRuntime sampleTournament sampleBorn) (arbitrated sampleTournament.key)
  have kept : Always (fun e => ¬ Overwrites sampleTournament.key e) past := by
    intro e entry
    have sound : Sound sampleTournament.key sampleBorn e := sound_of_plain (List.all_eq_true.1 (by decide) e entry)
    exact sound.kept
  have unclosed : Unclosed sampleTournament.key past := by
    intro e entry c call
    have mem := mem_log entry
    rw [call] at mem
    simp [arbitrated, proposedBy3, twoRevealed, joinAs, openFinal, startWith, openTreasury, disputeBy2] at mem
  have none_ : NoneOverdue sampleTournament.key past
      (after sampleRuntime (created sampleRuntime sampleTournament sampleBorn) (arbitrated sampleTournament.key)) := by
    intro q visited t slot m ht hm undecided overdue
    obtain ⟨d, hd, rfl⟩ := visited_placed arbitrated_life sampleBorn_fresh unclosed visited hm
    have all : accepted sampleTournament.key past = [sampleFinal] := by decide
    change d ∈ accepted sampleTournament.key past at hd
    rw [all, List.mem_singleton] at hd
    subst hd
    have checked : decidedInTime sampleTournament.key q = true := by
      rcases visited with rfl | ⟨b, entry⟩
      · decide
      · have every : (past.all fun e => decidedInTime sampleTournament.key e.1) = true := by decide
        exact List.all_eq_true.1 every _ entry
    have final_ : q.matchNode? (finalMatch sampleTournament.key) = some m := hm
    obtain ⟨pending, undisputed, _⟩ := undecided
    simp [decidedInTime, ht, final_, pending, undisputed, overdue] at checked
  obtain ⟨disputes, later⟩ := disputes_iff arbitrated_life.course
  obtain ⟨firm, sealed_⟩ := later none_
  exact ⟨_, _, _, rfl, rfl, rfl, disputes.2 none_, sealed_ kept, firm⟩

section TooLate

/-- The loser confirms, and disputes the completed final afterwards. -/
def secondThoughts (key : Pubkey) : List Action := proposedBy3 key ++ [concede key, disputeBy2 key]

/-- The loser disputes when the proposal could be claimed. -/
def afterDeadline (key : Pubkey) : List Action := proposedBy3 key ++ [.outside (.clock ⟨70, 6⟩), disputeBy2 key]

theorem secondThoughts_life : SampleLife (secondThoughts sampleTournament.key) :=
  script_life sampleBorn_reachable rfl (by decide) (by decide)

theorem afterDeadline_life : SampleLife (afterDeadline sampleTournament.key) :=
  script_life sampleBorn_reachable rfl (by decide) (by decide)

/-- Both disputes succeed: one changes the envelope of a completed match, the
other moves the deadline of a claimable proposal by a day. -/
theorem late_disputes :
    (∃ past s t, Life sampleRuntime sampleTournament sampleBorn (created sampleRuntime sampleTournament sampleBorn)
      past s ∧ s.tournament? sampleTournament.key = some t ∧ t.status = .completed ∧
      ¬ DisputesOpen sampleRuntime sampleTournament.key past s ∧ ¬ Sealed sampleTournament.key past s) ∧
    ∃ past s m, Life sampleRuntime sampleTournament sampleBorn (created sampleRuntime sampleTournament sampleBorn)
      past s ∧ s.matchNode? (finalMatch sampleTournament.key) = some m ∧ m.claimDeadline = 70 + 86400 ∧
      ¬ DisputesOpen sampleRuntime sampleTournament.key past s ∧ ¬ Firm sampleTournament.key past s := by
  refine ⟨⟨_, _, _, secondThoughts_life, rfl, rfl, ?_, ?_⟩, ⟨_, _, _, afterDeadline_life, rfl, rfl, ?_, ?_⟩⟩
  · intro open_
    obtain ⟨_, m, _, hm, reached⟩ := open_ (after sampleRuntime (created sampleRuntime sampleTournament sampleBorn)
      (proposedBy3 sampleTournament.key ++ [concede sampleTournament.key])) (script_visits _ _ [_])
      ⟨.key 2, sampleTournament.key, finalMatch sampleTournament.key⟩ 3 _ rfl rfl
    obtain rfl := Option.some.inj hm
    exact absurd reached.1 (by decide)
  · intro sealed_
    have same := sealed_ (after sampleRuntime (created sampleRuntime sampleTournament sampleBorn)
      (proposedBy3 sampleTournament.key ++ [concede sampleTournament.key])) sampleFinal.slot _ _
      (script_visits _ _ [disputeBy2 sampleTournament.key]) rfl rfl rfl
    exact absurd same (by decide)
  · intro open_
    obtain ⟨_, m, _, hm, reached⟩ := open_ (after sampleRuntime (created sampleRuntime sampleTournament sampleBorn)
      (proposedBy3 sampleTournament.key ++ [Action.outside (.clock ⟨70, 6⟩)])) (script_visits _ _ [_])
      ⟨.key 2, sampleTournament.key, finalMatch sampleTournament.key⟩ 3 _ rfl rfl
    obtain rfl := Option.some.inj hm
    exact absurd reached.2.2 (by decide)
  · intro firm
    have same := firm (log sampleRuntime (created sampleRuntime sampleTournament sampleBorn)
      (proposedBy3 sampleTournament.key ++ [.outside (.clock ⟨70, 6⟩)])) _ _ [] sampleFinal.slot _ _ rfl (by simp) rfl
      ⟨by decide, rfl, by decide⟩ rfl
    exact absurd same.1 (by decide)

end TooLate

end BracketChain.Disputes
