import BracketChain.Proposals
import BracketChain.Scripts

namespace BracketChain.Justification

open Outcome Keys Records Accounts Registration Start Settlement Envelope Refunds Program Runs Layout View Lifecycle
  Refinement Lives Matches Proposals Scripts

/-- The ways to finalize a match without trusting anyone: the other player
agrees, the dispute window of the recorded proposal has run out, or the match
was disputed and the organizer settles it or leaves it for a day. -/
inductive Justified (rt : Runtime) (key : Pubkey) (slot : Slot) (past : History) (s : Ledger) (t : Tournament)
    (m : MatchNode) (winner : Pubkey) : Instruction → Prop
  | confirmed (a : FinalizeAccounts) (placements : List Pubkey) {q : Ledger} {ix : Instruction}
      {c : MatchAccounts} {t₀ : Tournament} {since : History}
      (recorded : Recorded rt key slot past m q ix c t₀ since) (pending : Proposed m winner false)
      (player : m.hasPlayer a.signer) (other : a.signer ≠ m.proposer) :
      Justified rt key slot past s t m winner (.confirmResult a placements)
  | elapsed (ix' : Instruction) (claims : (∃ a placements, ix' = .claimResult a placements) ∨
        ∃ a placements, ix' = .settleFinal a placements ∧ a.signer = t.arbitrator)
      {q : Ledger} {ix : Instruction} {c : MatchAccounts} {t₀ : Tournament} {since : History}
      (recorded : Recorded rt key slot past m q ix c t₀ since) (pending : Proposed m winner false)
      (undisputed : ∀ e ∈ since, ¬ Disputes (.matchNode key slot) e.2)
      (window : q.clock.unixTimestamp + t₀.disputeWindowSecs ≤ s.clock.unixTimestamp)
      (own : (∀ e ∈ since, (e.1.tournament? key).isSome = true) → t.disputeWindowSecs = t₀.disputeWindowSecs) :
      Justified rt key slot past s t m winner ix'
  | resolved (a : FinalizeAccounts) (placements : List Pubkey) {q q' : Ledger} {ix : Instruction}
      {c d : MatchAccounts} {t₀ t₁ : Tournament} {since : History} {reason : Nat} {m₁ : MatchNode}
      (recorded : Recorded rt key slot past m q ix c t₀ since)
      (disputed : DisputedBy key slot m since q' d reason t₁ m₁) (organizer : a.signer = t.organizer) :
      Justified rt key slot past s t m winner (.resolveDispute a winner placements)
  | forced (a : FinalizeAccounts) (placements : List Pubkey) {q q' : Ledger} {ix : Instruction}
      {c d : MatchAccounts} {t₀ t₁ : Tournament} {since : History} {reason : Nat} {m₁ : MatchNode}
      (recorded : Recorded rt key slot past m q ix c t₀ since) (pending : Proposed m winner true)
      (disputed : DisputedBy key slot m since q' d reason t₁ m₁)
      (window : q'.clock.unixTimestamp + 86400 ≤ s.clock.unixTimestamp) :
      Justified rt key slot past s t m winner (.forceClaimDisputed a placements)

variable {rt : Runtime} {key : Pubkey} {slot : Slot} {start s s' : Ledger} {past : History} {b : Action}

theorem completed_by {m m' : MatchNode} (wf : Wellformed s) (step : Step rt s b s')
    (hm : s.matchNode? (.matchNode key slot) = some m) (before : m.status ≠ .completed)
    (hm' : s'.matchNode? (.matchNode key slot) = some m') (after : m'.status = .completed) :
    ∃ ix a t p', b = .call ix ∧ Finalizes key s.clock (viewOf s key) ix a slot t m m'.winner p' := by
  have change := step_node wf step hm'
  have same {n : MatchNode} (h : (viewOf s key).node slot = some n) : m = n := Option.some.inj (hm.symm.trans h)
  generalize hn : some m' = n at change
  cases change with
  | same => exact absurd (same hn.symm ▸ after) before
  | placed c d _ _ _ _ chunk mem slot_eq =>
      have taken := chunk.fresh d mem
      rw [slot_eq] at taken
      cases hm.symm.trans taken
  | edited ix a call accounts _ address record node edits =>
      obtain rfl := same node
      obtain rfl := Option.some.inj hn
      cases edits <;> exact absurd after before
  | finalized ix a call finalizes =>
      obtain rfl := same finalizes.node
      obtain rfl := Option.some.inj hn
      exact ⟨ix, a, _, _, call, finalizes⟩
  | seated ix a child call finalizes inner address node =>
      obtain rfl := same node
      obtain rfl := Option.some.inj hn
      exact absurd after (advance_incomplete _ _ before)
  | closed => cases hn

theorem justified {ix : Instruction} {a : FinalizeAccounts} {t : Tournament} {m : MatchNode} {winner : Pubkey}
    {p' : Pubkey → Option Participant} (genesis : Genesis start) (run : Run rt start past s)
    (finalizes : Finalizes key s.clock (viewOf s key) ix a slot t m winner p')
    (mode : t.settlementMode ≠ .organizerOnly) : Justified rt key slot past s t m winner ix := by
  have traced := run_traced genesis run finalizes.node
  have decided := finalizes.decided
  -- the recorded proposal, and what its deadline says when it is disputed or not
  have pending (h : m.proposalSource ≠ .none) :
      ∃ q ix c t₀ since, Recorded rt key slot past m q ix c t₀ since ∧ Dated key slot m q t₀ since := by
    rwa [Traced, if_neg h] at traced
  have disputed (h : m.disputed = true) : m.proposalSource ≠ .none := by
    intro hs
    rw [Traced, if_pos hs, h] at traced
    cases traced
  have own {q : Ledger} {ix : Instruction} {c : MatchAccounts} {t₀ : Tournament} {since : History}
      (recorded : Recorded rt key slot past m q ix c t₀ since)
      (opened : ∀ e ∈ since, (e.1.tournament? key).isSome = true) :
      t.disputeWindowSecs = t₀.disputeWindowSecs := by
    obtain ⟨before, entry⟩ := recorded.entry
    obtain ⟨reach, u, step, rest⟩ := run.split entry
    have course : Course rt key q ((q, .call ix) :: since) s := by
      refine ⟨⟨start, before, genesis, reach⟩, (Run.one step).append rest, ?_⟩
      rintro q' (rfl | ⟨b', hb⟩)
      · exact Option.isSome_iff_exists.2 ⟨t, finalizes.record⟩
      · rcases List.mem_cons.1 hb with he | hb
        · obtain ⟨rfl, _⟩ := Prod.mk.inj he
          exact Option.isSome_iff_exists.2 ⟨t₀, recorded.record⟩
        · exact opened (q', b') hb
    exact (course.terms recorded.record finalizes.record).disputeWindowSecs
  have elapsed (claims : (∃ a placements, ix = .claimResult a placements) ∨
      ∃ a placements, ix = .settleFinal a placements ∧ a.signer = t.arbitrator)
      (proposed : Proposed m winner false) (late : m.claimDeadline ≤ s.clock.unixTimestamp) :
      Justified rt key slot past s t m winner ix := by
    obtain ⟨q, ix', c, t₀, since, recorded, dated⟩ := pending proposed.1
    rw [Dated, if_neg (by simp [proposed.2.1])] at dated
    exact .elapsed ix claims recorded proposed dated.2 (dated.1 ▸ late) (own recorded)
  cases ix with
  | reportResult => exact absurd decided.2.1 mode
  | confirmResult b placements =>
      obtain ⟨proposed, player, other⟩ := decided
      obtain ⟨q, ix', c, t₀, since, recorded, _⟩ := pending proposed.1
      exact .confirmed b placements recorded proposed player other
  | claimResult b placements => exact elapsed (.inl ⟨b, placements, rfl⟩) decided.1 decided.2
  | settleFinal b placements => exact elapsed (.inr ⟨b, placements, rfl, decided.1⟩) decided.2.1 decided.2.2
  | forceClaimDisputed b placements =>
      obtain ⟨proposed, late⟩ := decided
      obtain ⟨q, ix', c, t₀, since, recorded, dated⟩ := pending proposed.1
      rw [Dated, if_pos proposed.2.1] at dated
      obtain ⟨q', d, reason, t₁, m₁, by_⟩ := dated
      exact .forced b placements recorded proposed by_ (by_.deadline ▸ late)
  | resolveDispute b w placements =>
      obtain ⟨organizer, marked, rfl⟩ := decided
      obtain ⟨q, ix', c, t₀, since, recorded, dated⟩ := pending (disputed marked)
      rw [Dated, if_pos marked] at dated
      obtain ⟨q', d, reason, t₁, m₁, by_⟩ := dated
      exact .resolved b placements recorded by_ organizer
  | _ => cases decided

/-- A match is disputed at most once while its account stays open. -/
theorem disputed_once {before since : History} {q : Ledger} (genesis : Genesis start) (run : Run rt start past s)
    (entry : past = before ++ (q, b) :: since) (disputes : Disputes (.matchNode key slot) b)
    (kept : ∀ e ∈ since, (e.1.matchNode? (.matchNode key slot)).isSome = true) :
    ∀ e ∈ since, ¬ Disputes (.matchNode key slot) e.2 := by
  rintro ⟨s₁, b₁⟩ he ⟨c₁, reason₁, rfl, address₁⟩
  obtain ⟨mid, after, rfl⟩ := List.append_of_mem he
  obtain ⟨reach, u, step, rest⟩ := run.split entry
  obtain ⟨reach₁, u₁, step₁, _⟩ := rest.split rfl
  have reachable : Reachable rt u := ⟨start, _, genesis, reach.snoc step⟩
  obtain ⟨c, reason, rfl, address⟩ := disputes
  have wf := run_wellformed (genesis_wellformed genesis) reach
  obtain ⟨t, at_, m, m', address', _, _, node', edits⟩ := edit_of_step wf (c := c) rfl step
  obtain ⟨rfl, rfl⟩ : c.tournament = key ∧ at_ = slot := by simpa [address, eq_comm] using address'
  have wf₁ := run_wellformed (reachable_wellformed reachable) reach₁
  obtain ⟨t₁, at₁, n, n', address₁', _, node₁, _, edits₁⟩ := edit_of_step wf₁ (c := c₁) rfl step₁
  obtain ⟨home, rfl⟩ : c₁.tournament = c.tournament ∧ at₁ = at_ := by simpa [address₁, eq_comm] using address₁'
  rw [home] at node₁
  cases edits with
  | dispute _ _ pending =>
      cases edits₁ with
      | dispute _ _ _ first =>
          have stays := (proposal_stays reachable reach₁ node' pending
            (fun e he => kept e (List.mem_append_left _ he)) node₁).2 rfl
          exact Bool.false_ne_true (first.symm.trans stays)

/-- Outside trust mode every finalization is justified, and proposals stay as
recorded, disputed at most once, while their match is open. -/
theorem finalizations_justified (genesis : Genesis start) (run : Run rt start past s) :
    (∀ b s' key slot t m m', Step rt s b s' → s.tournament? key = some t → t.settlementMode ≠ .organizerOnly →
      s.matchNode? (.matchNode key slot) = some m → m.status ≠ .completed →
      s'.matchNode? (.matchNode key slot) = some m' → m'.status = .completed →
      ∃ ix, b = .call ix ∧ Justified rt key slot past s t m m'.winner ix ∧
        ∀ a winner placements, ix ≠ .reportResult a winner placements) ∧
    (∀ before q b since key slot m m', past = before ++ (q, b) :: since →
      q.matchNode? (.matchNode key slot) = some m → m.proposalSource ≠ .none →
      (∀ e ∈ since, (e.1.matchNode? (.matchNode key slot)).isSome = true) →
      s.matchNode? (.matchNode key slot) = some m' → SameProposal m m') ∧
    ∀ before q b since key slot, past = before ++ (q, b) :: since → Disputes (.matchNode key slot) b →
      (∀ e ∈ since, (e.1.matchNode? (.matchNode key slot)).isSome = true) →
      ∀ e ∈ since, ¬ Disputes (.matchNode key slot) e.2 := by
  refine ⟨fun b s' key slot t m m' step ht mode hm before hm' after => ?_,
    fun before q b since key slot m m' entry hm pending kept hm' => ?_,
    fun before q b since key slot entry disputes kept => disputed_once genesis run entry disputes kept⟩
  · have wf := run_wellformed (genesis_wellformed genesis) run
    obtain ⟨ix, a, t', p', rfl, finalizes⟩ := completed_by wf step hm before hm' after
    obtain rfl : t = t' := Option.some.inj (ht.symm.trans finalizes.record)
    refine ⟨ix, rfl, justified genesis run finalizes mode, ?_⟩
    rintro a' w placements rfl
    exact mode finalizes.decided.2.1
  · obtain ⟨reach, u, step, rest⟩ := run.split entry
    refine (proposal_stays ⟨start, before, genesis, reach⟩ ((Run.one step).append rest) hm pending ?_ hm').1
    intro e he
    rcases List.mem_cons.1 he with rfl | he
    · simp [hm]
    · exact kept e he

theorem concede_justified : ∃ past s t m, Justified sampleRuntime sampleTournament.key sampleFinal.slot past s t m
    (.key 3) (.confirmResult (finalFor (.key 2) sampleTournament.key) [.key 3]) := by
  have run : Run sampleRuntime sampleGenesis _ _ := script_run sampleGenesis proposedFinal
  obtain ⟨ix, h, justified, _⟩ := (finalizations_justified sampleGenesis_genesis run).1 (concede sampleTournament.key)
    (after sampleRuntime (after sampleRuntime sampleGenesis proposedFinal) [concede sampleTournament.key])
    sampleTournament.key sampleFinal.slot _ _ _ rfl rfl (by decide) rfl (by decide) rfl rfl
  obtain rfl := Action.call.inj h
  exact ⟨_, _, _, _, justified⟩

end BracketChain.Justification
