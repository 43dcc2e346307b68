import BracketChain.StartEffects

namespace BracketChain.Refinement

open Outcome Keys Records Accounts Registration Program Layout View Confinement Lifecycle RegistrationEffects
  MatchEffects FinalizeEffects RefundEffects StartEffects

variable {rt : Runtime} {s s' : Ledger}

theorem fits_outside {n : Nat} {a : Account} (h : a.outside = true) : Account.fits (.key n) a := by
  cases a <;> simp_all [Account.outside, Account.fits]

theorem genesis_wellformed (g : Genesis s) : Wellformed s := by
  intro p
  by_cases hp : ∃ n, p = .key n
  · obtain ⟨n, rfl⟩ := hp
    exact fits_outside (g.outside n)
  · rw [g.derived p (fun n hn => hp ⟨n, hn⟩)]
    trivial

theorem genesis_record (g : Genesis s) (key : Pubkey) : s.tournament? key = none := by
  apply Option.eq_none_iff_forall_ne_some.2
  intro t ht
  have hk := isTournament_of_record (genesis_wellformed g) ht
  rw [Ledger.tournament?, g.derived key (by rintro n rfl; cases hk)] at ht
  cases ht

theorem initializeProtocol_confined {a : InitializeProtocol} (wf : Wellformed s)
    (signer : a.authority.canSign = true) (h : initializeProtocol rt a s = .ok s') : Confined none s s' := by
  simp only [initializeProtocol, bind_ok] at h
  obtain ⟨_, _, h⟩ := h
  obtain ⟨_, l, rfl⟩ := Ledger.initAccount_ok h
  exact confined_open wf ⟨rfl, signer⟩ (.inl rfl)

theorem updateConfig_confined {authority : Pubkey} {f : ProtocolConfig → ProtocolConfig} (wf : Wellformed s)
    (same : ∀ c, (f c).authority = c.authority) (h : updateConfig authority f s = .ok s') :
    Confined none s s' := by
  simp only [updateConfig, bind_ok, require_ok, pure_ok, Ledger.loadConfig, orThrow_ok] at h
  obtain ⟨c, hc, _, _, rfl⟩ := h
  have fit := wf .protocolConfig
  have hacc : s.accounts .protocolConfig = .protocolConfig c := by
    simp only [Ledger.config?] at hc
    cases hs : s.accounts .protocolConfig <;> simp_all [Account.asConfig]
  rw [hacc] at fit
  exact confined_set wf ⟨rfl, (same c).symm ▸ fit.2⟩ (.inl rfl)

theorem sendTokens_confined {p : Pubkey} {amount : Nat} (wf : Wellformed s)
    (h : Outside.run (.sendTokens p amount) s = .ok s') : Confined none s s' := by
  simp only [Outside.run, bind_ok, require_ok, pure_ok, Ledger.loadToken_ok] at h
  obtain ⟨v, hv, _, _, rfl⟩ := h
  refine ⟨wellformed_set wf (fits_amount wf hv _), fun key hk _ => ?_⟩
  by_cases hp : p = .vault key
  · subst hp
    refine ⟨amount, ?_⟩
    have vault : (viewOf s key).vault = some v := hv
    rw [viewOf_set_vault hk]
    simp [TournamentView.credit, vault, Account.asToken, TokenAccount.plus]
  · refine ⟨0, ?_⟩
    rw [credit_zero, viewOf_set_other hk]
    obtain ⟨n, rfl⟩ | ⟨hv, _⟩ := token_fits wf hv
    · simp [Pubkey.home]
    · rw [hv] at hp ⊢
      simpa [Pubkey.home] using hp

theorem outside_confined {e : Outside} (wf : Wellformed s) (h : e.run s = .ok s') : Confined none s s' := by
  have unchanged {t : Ledger} (ha : t.accounts = s.accounts) (ht : t.transfers = s.transfers) :
      Confined none s t :=
    ⟨wellformed_of_accounts wf ha, fun key hk _ =>
      ⟨0, by rw [credit_zero, viewOf_congr hk (fun p _ => congrFun ha p) ht]⟩⟩
  cases e with
  | clock | slotHashes | sendLamports | spendLamports =>
      obtain rfl := Except.ok.inj h
      exact unchanged rfl rfl
  | account n a =>
      simp only [Outside.run, bind_ok, require_ok, pure_ok] at h
      obtain ⟨_, ha, rfl⟩ := h
      exact confined_set wf (fits_outside ha) (.inl rfl)
  | sendTokens p amount => exact sendTokens_confined wf h

/-- Every call acts on its own tournament as the lifecycle says, and on the
others by credits at most. -/
theorem instruction_simulated {ix : Instruction} {key : Pubkey} (wf : Wellformed s)
    (signer : ix.signer.canSign = true) (bytes : ix.descriptorBytes ≤ maxInstructionData)
    (own : ix.tournament = some key) (h : ix.run rt s = .ok s') : Simulated rt key (.call ix) s s' := by
  cases ix with
  | initializeProtocol | setSasConfig | setOracleConfig => cases own
  | createTournament a =>
      obtain rfl := Option.some.inj own
      exact create_simulated wf signer h
  | joinTournament a =>
      obtain rfl := Option.some.inj own
      exact join_simulated wf signer h
  | requestSeed a =>
      obtain rfl := Option.some.inj own
      exact requestSeed_simulated wf h
  | revealSeed a =>
      obtain rfl := Option.some.inj own
      exact revealSeed_simulated wf h
  | startTournament a =>
      obtain rfl := Option.some.inj own
      exact start_simulated wf bytes h
  | proposeResult a winner =>
      obtain rfl := Option.some.inj own
      exact propose_simulated wf h
  | proposeResultOracle a feed =>
      obtain rfl := Option.some.inj own
      exact proposeOracle_simulated wf h
  | disputeResult a reason =>
      obtain rfl := Option.some.inj own
      exact dispute_simulated wf h
  | commitMatchLobby a lobby hash =>
      obtain rfl := Option.some.inj own
      exact commit_simulated wf h
  | bindMatchFeed a feed =>
      obtain rfl := Option.some.inj own
      exact bind_simulated wf h
  | reportResult a winner placements =>
      obtain rfl := Option.some.inj own
      exact report_simulated wf h
  | confirmResult a placements =>
      obtain rfl := Option.some.inj own
      exact confirm_simulated wf h
  | claimResult a placements =>
      obtain rfl := Option.some.inj own
      exact claim_simulated wf h
  | forceClaimDisputed a placements =>
      obtain rfl := Option.some.inj own
      exact forceClaim_simulated wf h
  | resolveDispute a winner placements =>
      obtain rfl := Option.some.inj own
      exact resolve_simulated wf h
  | settleFinal a placements =>
      obtain rfl := Option.some.inj own
      exact settleFinal_simulated wf h
  | cancelTournament a =>
      obtain rfl := Option.some.inj own
      exact cancel_simulated wf h
  | partialCancelTournament a =>
      obtain rfl := Option.some.inj own
      exact partialCancel_simulated wf h
  | partialRefundChunk a =>
      obtain rfl := Option.some.inj own
      exact partialRefund_simulated wf h
  | closeTournament a =>
      obtain rfl := Option.some.inj own
      exact close_simulated wf h

theorem instruction_confined {ix : Instruction} (wf : Wellformed s) (signer : ix.signer.canSign = true)
    (none_ : ix.tournament = none) (h : ix.run rt s = .ok s') : Confined none s s' := by
  cases ix with
  | initializeProtocol a => exact initializeProtocol_confined wf signer h
  | setSasConfig authority credential schemas => exact updateConfig_confined wf (by intro c; rfl) h
  | setOracleConfig authority queue stale samples =>
      simp only [Instruction.run, setOracleConfig, bind_ok] at h
      obtain ⟨_, _, _, _, h⟩ := h
      exact updateConfig_confined wf (by intro c; rfl) h
  | _ => cases none_

theorem step_confined {a : Action} (wf : Wellformed s) (step : Step rt s a s') :
    Confined a.tournament s s' := by
  cases a with
  | outside e => exact outside_confined wf (outside_ran step)
  | call ix =>
      obtain ⟨signer, bytes, h⟩ := call_ran step
      change Confined ix.tournament s s'
      cases own : ix.tournament with
      | none => exact instruction_confined wf signer own h
      | some key => exact (instruction_simulated wf signer bytes own h).confined

theorem step_simulated {a : Action} {key : Pubkey} (wf : Wellformed s) (own : a.tournament = some key)
    (step : Step rt s a s') : Simulated rt key a s s' := by
  cases a with
  | outside e => cases own
  | call ix =>
      obtain ⟨signer, bytes, h⟩ := call_ran step
      exact instruction_simulated wf signer bytes own h

/-- A step of the ledger is a step of the abstract life of each tournament. -/
theorem step_effect {a : Action} {key : Pubkey} (wf : Wellformed s) (hk : key.isTournament = true)
    (step : Step rt s a s') : Effect rt key s.clock a (viewOf s key) (viewOf s' key) := by
  by_cases own : a.tournament = some key
  · exact (step_simulated wf own step).effect
  · obtain ⟨k, hv⟩ := (step_confined wf step).others key hk own
    rw [hv]
    exact .others k own

theorem run_wellformed {start : Ledger} {past : History} (wf : Wellformed start) (run : Run rt start past s) :
    Wellformed s :=
  run.invariant (P := fun _ s => Wellformed s) wf fun _ _ _ _ _ wf step => (step_confined wf step).wf

theorem reachable_wellformed (h : Reachable rt s) : Wellformed s := by
  obtain ⟨start, past, genesis, run⟩ := h
  exact run_wellformed (genesis_wellformed genesis) run

theorem reachable_run {start : Ledger} {past : History} (h : Reachable rt start) (run : Run rt start past s) :
    Reachable rt s := by
  obtain ⟨first, before, genesis, reach⟩ := h
  exact ⟨first, _, genesis, reach.append run⟩

end BracketChain.Refinement
