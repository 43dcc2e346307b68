import BracketChain.Matches

namespace BracketChain.Proposals

open Outcome Keys Records Accounts Start Settlement Envelope Refunds Program Runs Layout View Lifecycle
  Refinement Lives Matches

def Instruction.proposal? : Instruction → Option MatchAccounts
  | .proposeResult a _ | .proposeResultOracle a _ => some a
  | _ => none

/-- The action disputes the proposal on the match at `p`. -/
def Disputes (p : Pubkey) (b : Action) : Prop :=
  ∃ c reason, b = .call (.disputeResult c reason) ∧ c.matchAccount = p

/-- The same proposal, whether or not it was disputed since. -/
structure SameProposal (m m' : MatchNode) : Prop where
  proposalSource : m'.proposalSource = m.proposalSource
  proposer : m'.proposer = m.proposer
  proposedWinner : m'.proposedWinner = m.proposedWinner
  proposedAt : m'.proposedAt = m.proposedAt

theorem SameProposal.refl (m : MatchNode) : SameProposal m m := ⟨rfl, rfl, rfl, rfl⟩

theorem SameProposal.trans {m m' m'' : MatchNode} (h : SameProposal m m') (h' : SameProposal m' m'') :
    SameProposal m m'' :=
  ⟨h'.proposalSource.trans h.proposalSource, h'.proposer.trans h.proposer,
    h'.proposedWinner.trans h.proposedWinner, h'.proposedAt.trans h.proposedAt⟩

variable {rt : Runtime} {key : Pubkey} {slot : Slot}

/-- What a step may do to the proposal on a match that stays open. -/
inductive EnvelopeStep (key : Pubkey) (slot : Slot) (s : Ledger) (b : Action) (m m' : MatchNode) : Prop
  | kept (same : SameProposal m m') (disputed : m'.disputed = m.disputed)
      (deadline : m'.claimDeadline = m.claimDeadline) (undisputed : ¬ Disputes (.matchNode key slot) b)
  | proposed (ix : Instruction) (c : MatchAccounts) (t : Tournament) (call : b = .call ix)
      (accounts : Instruction.proposal? ix = some c) (address : c.matchAccount = .matchNode key slot)
      (record : s.tournament? key = some t) (empty : m.proposalSource = .none)
      (filled : m'.proposalSource ≠ .none) (author : m'.proposer = c.signer)
      (time : m'.proposedAt = s.clock.unixTimestamp)
      (deadline : m'.claimDeadline = s.clock.unixTimestamp + t.disputeWindowSecs)
      (undisputed : m'.disputed = false)
  | disputed (c : MatchAccounts) (reason : Nat) (t : Tournament) (call : b = .call (.disputeResult c reason))
      (address : c.matchAccount = .matchNode key slot) (record : s.tournament? key = some t)
      (pending : m.proposalSource ≠ .none) (first : m.disputed = false)
      (allowed : checkDisputer t m c.signer = .ok ()) (same : SameProposal m m')
      (deadline : m'.claimDeadline = s.clock.unixTimestamp + forceClaimWindowSecs) (marked : m'.disputed = true)

theorem envelope_step {s s' : Ledger} {b : Action} {m m' : MatchNode} (wf : Wellformed s) (step : Step rt s b s')
    (hm : s.matchNode? (.matchNode key slot) = some m) (hm' : s'.matchNode? (.matchNode key slot) = some m') :
    EnvelopeStep key slot s b m m' := by
  by_cases hd : Disputes (.matchNode key slot) b
  · obtain ⟨c, reason, rfl, address⟩ := hd
    obtain ⟨t, at_, n, n', address', record, node, node', edits⟩ := edit_of_step wf (c := c) rfl step
    obtain ⟨rfl, rfl⟩ : c.tournament = key ∧ at_ = slot := by simpa [address, eq_comm] using address'
    obtain rfl : m = n := Option.some.inj (hm.symm.trans node)
    obtain rfl : m' = n' := Option.some.inj (hm'.symm.trans node')
    cases edits with
    | dispute _ _ pending first allowed =>
        exact .disputed c reason t rfl address record pending first allowed ⟨rfl, rfl, rfl, rfl⟩ rfl rfl
  · have change := step_node wf step hm'
    have same {n : MatchNode} (h : (viewOf s key).node slot = some n) : m = n := Option.some.inj (hm.symm.trans h)
    generalize hn : some m' = n at change
    cases change with
    | same =>
        obtain rfl := same hn.symm
        exact .kept (.refl m) rfl rfl hd
    | placed c d _ _ _ _ chunk mem slot_eq =>
        have taken := chunk.fresh d mem
        rw [slot_eq] at taken
        cases hm.symm.trans taken
    | edited ix a call accounts _ address record node edits =>
        obtain rfl := same node
        obtain rfl := Option.some.inj hn
        cases edits with
        | propose a w _ _ empty =>
            exact .proposed _ a _ call rfl (Option.some.inj accounts ▸ address) record empty
              (by simp [MatchNode.propose]) rfl rfl rfl rfl
        | proposeOracle a feed w _ _ empty =>
            exact .proposed _ a _ call rfl (Option.some.inj accounts ▸ address) record empty
              (by simp [MatchNode.propose]) rfl rfl rfl rfl
        | dispute c reason => exact absurd ⟨c, reason, call, Option.some.inj accounts ▸ address⟩ hd
        | commit | bind => exact .kept ⟨rfl, rfl, rfl, rfl⟩ rfl rfl hd
    | finalized ix a call finalizes =>
        obtain rfl := same finalizes.node
        obtain rfl := Option.some.inj hn
        exact .kept ⟨rfl, rfl, rfl, rfl⟩ rfl rfl hd
    | seated ix a child call finalizes inner address node =>
        obtain rfl := same node
        obtain rfl := Option.some.inj hn
        rw [advance_eq]
        exact .kept ⟨rfl, rfl, rfl, rfl⟩ rfl rfl hd
    | closed => cases hn

/-- The call in the history that recorded the proposal on a match, and what
happened since while the match stayed open. -/
structure Recorded (rt : Runtime) (key : Pubkey) (slot : Slot) (past : History) (m : MatchNode) (q : Ledger)
    (ix : Instruction) (c : MatchAccounts) (t₀ : Tournament) (since : History) : Prop where
  entry : ∃ before, past = before ++ (q, .call ix) :: since
  call : Instruction.proposal? ix = some c
  address : c.matchAccount = .matchNode key slot
  record : q.tournament? key = some t₀
  author : m.proposer = c.signer
  time : m.proposedAt = q.clock.unixTimestamp
  stored : ∃ q' m₀, Step rt q (.call ix) q' ∧ q'.matchNode? (.matchNode key slot) = some m₀ ∧ SameProposal m₀ m
  kept : ∀ e ∈ since, (e.1.matchNode? (.matchNode key slot)).isSome = true

/-- The call that disputed the proposal on a match. -/
structure DisputedBy (key : Pubkey) (slot : Slot) (m : MatchNode) (since : History) (q : Ledger)
    (c : MatchAccounts) (reason : Nat) (t₀ : Tournament) (m₀ : MatchNode) : Prop where
  entry : (q, .call (.disputeResult c reason)) ∈ since
  address : c.matchAccount = .matchNode key slot
  record : q.tournament? key = some t₀
  node : q.matchNode? (.matchNode key slot) = some m₀
  same : SameProposal m₀ m
  allowed : checkDisputer t₀ m₀ c.signer = .ok ()
  deadline : m.claimDeadline = q.clock.unixTimestamp + forceClaimWindowSecs

/-- What the deadline of a recorded proposal means, disputed or not. -/
def Dated (key : Pubkey) (slot : Slot) (m : MatchNode) (q : Ledger) (t₀ : Tournament) (since : History) : Prop :=
  if m.disputed = true then ∃ q' c reason t₁ m₁, DisputedBy key slot m since q' c reason t₁ m₁
  else m.claimDeadline = q.clock.unixTimestamp + t₀.disputeWindowSecs ∧
    ∀ e ∈ since, ¬ Disputes (.matchNode key slot) e.2

/-- The proposal on a match goes back to the history, if there is one. -/
def Traced (rt : Runtime) (key : Pubkey) (slot : Slot) (past : History) (m : MatchNode) : Prop :=
  if m.proposalSource = .none then m.disputed = false
  else ∃ q ix c t₀ since, Recorded rt key slot past m q ix c t₀ since ∧ Dated key slot m q t₀ since

theorem Recorded.snoc {past since : History} {m m' : MatchNode} {q s : Ledger} {ix : Instruction}
    {c : MatchAccounts} {t₀ : Tournament} {b : Action} (h : Recorded rt key slot past m q ix c t₀ since)
    (hm : s.matchNode? (.matchNode key slot) = some m) (same : SameProposal m m') :
    Recorded rt key slot (past ++ [(s, b)]) m' q ix c t₀ (since ++ [(s, b)]) := by
  obtain ⟨before, entry⟩ := h.entry
  obtain ⟨q', m₀, step, node, stored⟩ := h.stored
  refine ⟨⟨before, by simp [entry]⟩, h.call, h.address, h.record, same.proposer.trans h.author,
    same.proposedAt.trans h.time, ⟨q', m₀, step, node, stored.trans same⟩, fun e he => ?_⟩
  rcases List.mem_append.1 he with he | he
  · exact h.kept e he
  · obtain rfl := List.mem_singleton.1 he
    simp [hm]

theorem Dated.snoc {since : History} {m m' : MatchNode} {q s : Ledger} {t₀ : Tournament} {b : Action}
    (h : Dated key slot m q t₀ since) (same : SameProposal m m') (disputed : m'.disputed = m.disputed)
    (deadline : m'.claimDeadline = m.claimDeadline) (undisputed : ¬ Disputes (.matchNode key slot) b) :
    Dated key slot m' q t₀ (since ++ [(s, b)]) := by
  unfold Dated at h ⊢
  rw [disputed, deadline]
  split at h
  · rw [if_pos ‹_›]
    obtain ⟨q', c, reason, t₁, m₁, h⟩ := h
    exact ⟨q', c, reason, t₁, m₁, List.mem_append_left _ h.entry, h.address, h.record, h.node,
      h.same.trans same, h.allowed, deadline.trans h.deadline⟩
  · rw [if_neg ‹_›]
    refine ⟨h.1, fun e he => ?_⟩
    rcases List.mem_append.1 he with he | he
    · exact h.2 e he
    · exact List.mem_singleton.1 he ▸ undisputed

theorem traced_step {past : History} {s s' : Ledger} {b : Action} {m m' : MatchNode} (wf : Wellformed s)
    (step : Step rt s b s') (hm : s.matchNode? (.matchNode key slot) = some m)
    (hm' : s'.matchNode? (.matchNode key slot) = some m') (traced : Traced rt key slot past m) :
    Traced rt key slot (past ++ [(s, b)]) m' := by
  unfold Traced at traced ⊢
  cases envelope_step wf step hm hm' with
  | kept same disputed deadline undisputed =>
      rw [same.proposalSource, disputed]
      split at traced
      · rwa [if_pos ‹_›]
      · rw [if_neg ‹_›]
        obtain ⟨q, ix, c, t₀, since, recorded, dated⟩ := traced
        exact ⟨q, ix, c, t₀, _, recorded.snoc hm same, dated.snoc same disputed deadline undisputed⟩
  | proposed ix c t call accounts address record empty filled author time deadline undisputed =>
      subst call
      rw [if_neg filled]
      refine ⟨s, ix, c, t, [], ⟨⟨past, rfl⟩, accounts, address, record, author, time,
        ⟨s', m', step, hm', .refl m'⟩, by simp⟩, ?_⟩
      simp [Dated, undisputed, deadline]
  | disputed c reason t call address record pending first allowed same deadline marked =>
      rw [if_neg pending] at traced
      rw [if_neg (same.proposalSource ▸ pending)]
      obtain ⟨q, ix, d, t₀, since, recorded, _⟩ := traced
      refine ⟨q, ix, d, t₀, _, recorded.snoc hm same, ?_⟩
      rw [Dated, if_pos marked]
      exact ⟨s, c, reason, t, m, by simp [call], address, record, hm, same, allowed, deadline⟩

/-- In every run, every proposal and every dispute goes back to the call that
recorded it. -/
theorem run_traced {start s : Ledger} {past : History} (genesis : Genesis start) (run : Run rt start past s)
    {m : MatchNode} (hm : s.matchNode? (.matchNode key slot) = some m) : Traced rt key slot past m := by
  refine run.invariant (P := fun past s => ∀ m, s.matchNode? (.matchNode key slot) = some m →
    Traced rt key slot past m) (fun m hm => ?_) ?_ m hm
  · rw [Ledger.matchNode?, genesis.derived _ (by simp)] at hm
    cases hm
  · intro past s b s' earlier traced step m' hm'
    have wf := run_wellformed (genesis_wellformed genesis) earlier
    cases hm : s.matchNode? (.matchNode key slot) with
    | some m => exact traced_step wf step hm hm' (traced m hm)
    | none =>
        -- the match was opened by this step, with an empty envelope
        have change := step_node wf step hm'
        have absent : (viewOf s key).node slot = none := hm
        generalize hn : some m' = n at change
        cases change with
        | same => cases hn.trans absent
        | placed c d =>
            obtain rfl := Option.some.inj hn
            simp [Traced, MatchInitDescriptor.node]
        | edited _ _ _ _ _ _ _ node | seated _ _ _ _ _ _ _ node => cases absent.symm.trans node
        | finalized _ _ _ finalizes => cases absent.symm.trans finalizes.node
        | closed => cases hn

/-- While a match stays open, its proposal is never replaced, and a disputed
one stays disputed. -/
theorem proposal_stays {start s : Ledger} {past : History} (reachable : Reachable rt start)
    (run : Run rt start past s) {m m' : MatchNode} (hm : start.matchNode? (.matchNode key slot) = some m)
    (pending : m.proposalSource ≠ .none) (kept : ∀ e ∈ past, (e.1.matchNode? (.matchNode key slot)).isSome = true)
    (hm' : s.matchNode? (.matchNode key slot) = some m') :
    SameProposal m m' ∧ (m.disputed = true → m'.disputed = true) := by
  refine run.invariant (P := fun past s => (∀ e ∈ past, (e.1.matchNode? (.matchNode key slot)).isSome = true) →
    ∀ m', s.matchNode? (.matchNode key slot) = some m' → SameProposal m m' ∧ (m.disputed = true → m'.disputed = true))
    (fun _ m' hm' => ?_) ?_ kept m' hm'
  · obtain rfl := Option.some.inj (hm.symm.trans hm')
    exact ⟨.refl m, id⟩
  · intro past s b s' earlier ih step kept m' hm'
    obtain ⟨m₁, hm₁⟩ := Option.isSome_iff_exists.1 (kept (s, b) (by simp))
    obtain ⟨same, marked⟩ := ih (fun e he => kept e (List.mem_append_left _ he)) m₁ hm₁
    have wf := reachable_wellformed (reachable_run reachable earlier)
    cases envelope_step wf step hm₁ hm' with
    | kept same' disputed => exact ⟨same.trans same', fun h => disputed.trans (marked h)⟩
    | proposed _ _ _ _ _ _ _ empty => exact absurd (same.proposalSource.symm.trans empty) pending
    | disputed _ _ _ _ _ _ _ _ _ same' _ marked' => exact ⟨same.trans same', fun _ => marked'⟩

end BracketChain.Proposals
