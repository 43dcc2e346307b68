import BracketChain.Events
import BracketChain.Lives

namespace BracketChain.Emissions

open Outcome Keys Records Accounts Payout Registration Start Settlement Envelope Refunds Program Recording Events
  Lifecycle FinalizeEffects MatchEffects

variable {rt : Runtime} {s s' : Ledger} {key mint : Pubkey}

section Plain

/-- What is done after a handler to find its events does not change what the
handler did. -/
theorem plain_after {σ ω : Type} {run : Except Error σ} {k : σ → Except Error (σ × ω)}
    (h : ∀ s', run = .ok s' → (k s').map Prod.fst = .ok s') : (run >>= k).map Prod.fst = run := by
  cases run with
  | ok s' => exact h s' rfl
  | error e => rfl

theorem emitEdit_plain {a : MatchAccounts} {event : MatchNode → Event} {run : Ledger → Except Error Ledger}
    (writes : ∀ s', run s = .ok s' → ∃ (s₀ : Ledger) (m : MatchNode), s' = s₀.setAccount a.matchAccount (.matchNode m)) :
    (emitEdit a event run s).map Prod.fst = run s := by
  refine plain_after fun s' h => ?_
  obtain ⟨s₀, m, rfl⟩ := writes s' h
  have written : (s₀.setAccount a.matchAccount (.matchNode m)).matchNode? a.matchAccount = some m :=
    Ledger.matchNode?_eq_some.2 (by rw [Ledger.setAccount_accounts, if_pos rfl])
  rw [written]
  rfl

theorem emitPlacements_plain (items : List (Nat × Pubkey × Pubkey)) :
    (eachReporting (emitPlacement key mint) s items.zipIdx).map Prod.fst = payPlacements key mint s items := by
  have indexed : items.zipIdx.map Prod.fst = items := List.zipIdx_map_fst 0 items
  generalize items.zipIdx = numbered at indexed ⊢
  subst indexed
  unfold payPlacements
  refine eachReporting_state (fun s item => ?_) s numbered
  obtain ⟨⟨amount, recipient, account⟩, i⟩ := item
  simp only [emitPlacement]
  split
  · rfl
  · rw [Outcome.map_bind]
    exact congrArg _ (funext fun _ => plain_after fun _ _ => rfl)

theorem emitDistribution_plain {t : Tournament} {m : MatchNode} {treasury winner : Pubkey} {vault : TokenAccount}
    {remaining placements : List Pubkey} :
    (emitDistribution s key t m treasury vault remaining winner placements).map Prod.fst =
      distributePrizes s key t m treasury vault remaining winner placements := by
  simp only [emitDistribution, distributePrizes, Outcome.map_bind, ← emitPlacements_plain, bind_map]
  iterate 6 refine congrArg _ (funext fun _ => ?_)
  rw [← Outcome.map_bind]
  exact plain_after fun _ _ => rfl

theorem emitFinalized_plain {t : Tournament} {m : MatchNode} {next : Option MatchNode} {treasury : Pubkey}
    {vault : TokenAccount} {remaining : List Pubkey} {v : Verdict} :
    (emitFinalized s key t m next vault treasury remaining v).map Prod.fst =
      finalizeMatch s key t m next vault treasury remaining v := by
  simp only [emitFinalized, finalizeMatch, Outcome.map_bind]
  iterate 4 refine congrArg _ (funext fun _ => ?_)
  split
  · rw [← emitDistribution_plain]
    simp only [Outcome.map_bind, bind_map]
    rfl
  · simp only [Outcome.map_bind]
    rfl

/-- What a finalizing call decides about the match it finds. -/
def verdictOf : Instruction → MatchNode → Verdict
  | .reportResult _ winner placements, _ | .resolveDispute _ winner placements, _ => ⟨winner, placements, true⟩
  | .settleFinal _ placements, m => ⟨m.proposedWinner, placements, true⟩
  | .confirmResult _ placements, m | .claimResult _ placements, m | .forceClaimDisputed _ placements, m =>
      ⟨m.proposedWinner, placements, false⟩
  | _, m => ⟨m.proposedWinner, [], false⟩

/-- The event of a finalizing call itself, next to those of `finalize_match`. -/
def closingOf (now : Int) : Instruction → Pubkey → MatchNode → List Event
  | .claimResult _ _, key, m => [resultClaimed false now key m]
  | .forceClaimDisputed _ _, key, m => [resultClaimed true now key m]
  | .resolveDispute a winner _, key, m => [disputeResolved a.signer winner now key m]
  | .settleFinal a _, key, m => [finalSettled a.signer now key m]
  | _, _, _ => []

/-- The accounts of a finalized match written back, with or without the
statistics of its players. -/
def Written (a : FinalizeAccounts) (f : Finalized) (s' : Ledger) : Prop :=
  s' = writeBack a f ∨ ∃ w w' x x', s' = ((writeBack a f).setAccount (.participant a.tournament w)
    (.participant x)).setAccount (.participant a.tournament w') (.participant x')

theorem credited_written {a : FinalizeAccounts} {l : Loaded} {v : Verdict}
    (h : finalizeCredited a l v s = .ok s') : ∃ f, finalizeMatch s a.tournament l.t l.m l.next l.vault l.treasury
      a.remainingAccounts v = .ok f ∧ Written a f s' := by
  simp only [finalizeCredited, bind_ok, pure_ok] at h
  obtain ⟨_, _, _, _, f, hf, rfl⟩ := h
  exact ⟨f, hf, .inr ⟨_, _, _, _, rfl⟩⟩

/-- The finalizing instructions load the accounts of a match, run
`finalize_match` on their verdict and write the accounts back. -/
structure Finalizing (rt : Runtime) (ix : Instruction) (a : FinalizeAccounts) : Prop where
  emits : ∀ s, Instruction.emit rt ix s =
    emitFinalize a (verdictOf ix) (closingOf s.clock.unixTimestamp ix) (ix.run rt) s
  runs : ∀ s, ∃ rest : Loaded → Except Error Ledger, ix.run rt s = loadFinalize s a >>= rest ∧
    ∀ l s', rest l = .ok s' → ∃ f, finalizeMatch s a.tournament l.t l.m l.next l.vault l.treasury
      a.remainingAccounts (verdictOf ix l.m) = .ok f ∧ Written a f s'

theorem finalizing {ix : Instruction} {a : FinalizeAccounts} (call : Instruction.finalize? ix = some a) :
    Finalizing rt ix a := by
  cases ix with
  | reportResult b winner placements =>
      obtain rfl := Option.some.inj call
      refine ⟨fun _ => rfl, fun s => ⟨_, by rw [Instruction.run, reportResult], fun l s' h => ?_⟩⟩
      simp only [bind_ok, pure_ok] at h
      obtain ⟨_, _, _, _, f, hf, rfl⟩ := h
      exact ⟨f, hf, .inl rfl⟩
  | confirmResult b placements =>
      obtain rfl := Option.some.inj call
      refine ⟨fun _ => rfl, fun s => ⟨_, by rw [Instruction.run, confirmResult], fun l s' h => ?_⟩⟩
      simp only [bind_ok] at h
      obtain ⟨_, _, _, _, _, _, _, _, h⟩ := h
      exact credited_written h
  | claimResult b placements =>
      obtain rfl := Option.some.inj call
      refine ⟨fun _ => rfl, fun s => ⟨_, by rw [Instruction.run, claimResult], fun l s' h => ?_⟩⟩
      simp only [bind_ok] at h
      obtain ⟨_, _, _, _, _, _, h⟩ := h
      exact credited_written h
  | forceClaimDisputed b placements =>
      obtain rfl := Option.some.inj call
      refine ⟨fun _ => rfl, fun s => ⟨_, by rw [Instruction.run, forceClaimDisputed], fun l s' h => ?_⟩⟩
      simp only [bind_ok] at h
      obtain ⟨_, _, _, _, _, _, h⟩ := h
      exact credited_written h
  | resolveDispute b winner placements =>
      obtain rfl := Option.some.inj call
      refine ⟨fun _ => rfl, fun s => ⟨_, by rw [Instruction.run, resolveDispute], fun l s' h => ?_⟩⟩
      simp only [bind_ok] at h
      obtain ⟨_, _, _, _, h⟩ := h
      exact credited_written h
  | settleFinal b placements =>
      obtain rfl := Option.some.inj call
      refine ⟨fun _ => rfl, fun s => ⟨_, by rw [Instruction.run, settleFinal], fun l s' h => ?_⟩⟩
      simp only [bind_ok] at h
      obtain ⟨_, _, _, _, _, _, _, _, h⟩ := h
      exact credited_written h
  | _ => cases call

theorem emitFinalize_plain {ix : Instruction} {a : FinalizeAccounts} (f : Finalizing rt ix a) (s : Ledger) :
    (Instruction.emit rt ix s).map Prod.fst = ix.run rt s := by
  obtain ⟨rest, shape, finalizes⟩ := f.runs s
  rw [f.emits, emitFinalize, shape, Outcome.map_bind]
  refine bind_ok_congr fun l hl => ?_
  rw [hl]
  refine plain_after fun s' h => ?_
  obtain ⟨f, hf, _⟩ := finalizes l s' h
  rw [← emitFinalized_plain] at hf
  obtain ⟨f', hf', -⟩ := (map_ok _ _ _).1 hf
  rw [hf']
  rfl

/-- A finalizing call taken apart: its accounts, `finalize_match` with its
events, and what is written. -/
theorem emitFinalize_ok {ix : Instruction} {a : FinalizeAccounts} {events : List Event} (f : Finalizing rt ix a)
    (h : Instruction.emit rt ix s = .ok (s', events)) : ∃ l f reports, loadFinalize s a = .ok l ∧
      emitFinalized s a.tournament l.t l.m l.next l.vault l.treasury a.remainingAccounts (verdictOf ix l.m) =
        .ok (f, reports) ∧ Written a f s' ∧
      events = reports ++ closingOf s.clock.unixTimestamp ix l.m.tournament l.m := by
  obtain ⟨rest, shape, finalizes⟩ := f.runs s
  rw [f.emits, emitFinalize, shape] at h
  simp only [bind_ok, pure_ok] at h
  obtain ⟨l, hl, t, ⟨l', hl', ht⟩, ⟨f, reports⟩, hf, h⟩ := h
  obtain rfl := Except.ok.inj (hl.symm.trans hl')
  obtain ⟨rfl, rfl⟩ := Prod.mk.inj h
  obtain ⟨f', hf', written⟩ := finalizes l t ht
  rw [← emitFinalized_plain, map_ok, hf] at hf'
  obtain ⟨_, same, rfl⟩ := hf'
  obtain rfl := Except.ok.inj same
  exact ⟨l, f, reports, hl, hf, written, rfl⟩

theorem emitRefundPair_plain {t : Tournament} (s : Ledger) (pair : Pubkey × Pubkey) :
    (emitRefundPair key t s pair).map Prod.fst = refundPair key t s pair := by
  rw [emitRefundPair, Outcome.map_bind, refundPair]
  refine bind_ok_congr fun p hp => ?_
  rw [hp]
  exact plain_after fun _ _ => rfl

theorem emitCloseChild_plain {organizer : Pubkey} (s : Ledger) (child : Pubkey) :
    (emitCloseChild key organizer s child).map Prod.fst = closeChild key organizer s child :=
  plain_after fun _ _ => rfl

theorem emitRefundChunk_plain {a : CancelTournament} {t : Tournament} :
    (emitRefundChunk a t s).map Prod.fst = refundChunk a t s := by
  simp only [emitRefundChunk, emitRefundDeposit, refundChunk, Outcome.map_bind, bind_assoc, pure_bind]
  refine congrArg _ (funext fun _ => congrArg _ (funext fun st => ?_))
  rw [← eachReporting_plain emitRefundPair_plain, bind_map]
  rfl

/-- The events aside, a call with its events is the call. -/
theorem emit_plain (ix : Instruction) (s : Ledger) : (Instruction.emit rt ix s).map Prod.fst = ix.run rt s := by
  cases ix with
  | initializeProtocol | setSasConfig | setOracleConfig | requestSeed | revealSeed =>
      simp only [Instruction.emit]
      cases Instruction.run rt _ s <;> rfl
  | createTournament a =>
      rw [Instruction.emit, emitCreated, Instruction.run]
      exact plain_after fun _ _ => rfl
  | partialCancelTournament a =>
      rw [Instruction.emit, emitPartialCancel, Instruction.run]
      exact plain_after fun _ _ => rfl
  | joinTournament a =>
      rw [Instruction.emit, emitRegistered, Instruction.run, Outcome.map_bind, joinTournament]
      refine bind_ok_congr fun t ht => ?_
      rw [ht]
      exact plain_after fun _ _ => rfl
  | startTournament a =>
      refine plain_after fun s' h => ?_
      simp only [startTournament, bind_ok, pure_ok] at h
      obtain ⟨_, _, _, _, _, _, t, _, _, _, st, _, _, _, t', _, rfl⟩ := h
      have written : (st.ledger.setAccount a.tournament (.tournament t')).tournament? a.tournament = some t' :=
        Ledger.tournament?_eq_some.2 (by rw [Ledger.setAccount_accounts, if_pos rfl])
      rw [written]
      rfl
  | proposeResult a winner =>
      refine emitEdit_plain fun s' h => ?_
      simp only [proposeResult, bind_ok, pure_ok] at h
      obtain ⟨_, _, m, _, _, _, _, _, _, _, _, _, _, _, _, _, rfl⟩ := h
      exact ⟨_, _, rfl⟩
  | proposeResultOracle a feed =>
      refine emitEdit_plain fun s' h => ?_
      simp only [proposeResultOracle, bind_ok, pure_ok] at h
      obtain ⟨_, _, m, _, _, _, _, _, _, _, _, _, _, _, _, _, _, _, _, _, _, _, _, _, rfl⟩ := h
      exact ⟨_, _, rfl⟩
  | disputeResult a reason =>
      refine emitEdit_plain fun s' h => ?_
      simp only [disputeResult, bind_ok, pure_ok] at h
      obtain ⟨_, _, m, _, _, _, _, _, _, _, _, _, rfl⟩ := h
      exact ⟨_, _, rfl⟩
  | commitMatchLobby a lobby hash =>
      refine emitEdit_plain fun s' h => ?_
      simp only [commitMatchLobby, bind_ok, pure_ok] at h
      obtain ⟨_, _, _, _, m, _, _, _, _, _, _, _, _, _, _, _, _, _, rfl⟩ := h
      exact ⟨_, _, rfl⟩
  | bindMatchFeed a feed =>
      refine emitEdit_plain fun s' h => ?_
      simp only [bindMatchFeed, bind_ok, pure_ok] at h
      obtain ⟨_, _, _, _, m, _, _, _, _, _, _, _, _, _, _, _, _, _, _, _, rfl⟩ := h
      exact ⟨_, _, rfl⟩
  | reportResult | confirmResult | claimResult | forceClaimDisputed | resolveDispute | settleFinal =>
      exact emitFinalize_plain (finalizing rfl) s
  | cancelTournament a =>
      simp only [Instruction.emit, emitCancel, Instruction.run, cancelTournament, Outcome.map_bind]
      iterate 5 refine congrArg _ (funext fun _ => ?_)
      rw [← emitRefundChunk_plain]
      cases emitRefundChunk a _ s <;> rfl
  | partialRefundChunk a =>
      simp only [Instruction.emit, emitPartialRefund, Instruction.run, partialRefundChunk, Outcome.map_bind, emitRefundChunk_plain]
  | closeTournament a =>
      refine plain_after fun s' h => ?_
      simp only [closeTournament, bind_ok] at h
      obtain ⟨_, _, _, _, _, _, _, _, _, _, s₁, h₁, _⟩ := h
      rw [← eachReporting_plain emitCloseChild_plain, map_ok] at h₁
      obtain ⟨closed, hc, -⟩ := h₁
      rw [hc]
      rfl

end Plain

/-- The events of a step. A failed call emits none. -/
def eventsOf (rt : Runtime) (s : Ledger) : Action → List Event
  | .call ix =>
      match Instruction.emit rt ix s with
      | .ok (_, events) => events
      | .error _ => []
  | .outside _ => []

/-- The events of a history, in the order they were emitted in. -/
def eventLog (rt : Runtime) (past : History) : List Event := past.flatMap fun e => eventsOf rt e.1 e.2

/-- The events of a history that are about one tournament. -/
def logOf (rt : Runtime) (key : Pubkey) (past : History) : List Event :=
  (eventLog rt past).filter fun e => e.tournament = key

theorem eventLog_snoc (past : History) (s : Ledger) (b : Action) :
    eventLog rt (past ++ [(s, b)]) = eventLog rt past ++ eventsOf rt s b := by
  simp [eventLog]

theorem logOf_snoc (key : Pubkey) (past : History) (s : Ledger) (b : Action) :
    logOf rt key (past ++ [(s, b)]) = logOf rt key past ++ (eventsOf rt s b).filter fun e => e.tournament = key := by
  rw [logOf, eventLog_snoc, List.filter_append]
  rfl

theorem step_emits {ix : Instruction} (step : Step rt s (.call ix) s') :
    Instruction.emit rt ix s = .ok (s', eventsOf rt s (.call ix)) := by
  obtain ⟨_, _, h⟩ := call_ran step
  rw [← emit_plain, map_ok] at h
  obtain ⟨⟨_, events⟩, emitted, rfl⟩ := h
  rw [eventsOf, emitted]

end BracketChain.Emissions
