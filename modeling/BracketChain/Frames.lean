import BracketChain.Refinement

namespace BracketChain.Frames

open Outcome Keys Records Accounts Payout Registration Start Settlement Envelope Refunds Program Layout View
  Confinement RegistrationEffects FinalizeEffects RefundEffects StartEffects Refinement

/-- The accounts of no tournament, token accounts apart, and the clock are as
before. -/
structure Framed (s s' : Ledger) : Prop where
  account : ∀ p, p.home = none → s.token? p = none → s'.accounts p = s.accounts p
  clock : s'.clock = s.clock

variable {rt : Runtime} {s s' t : Ledger} {key : Pubkey}

theorem Framed.refl (s : Ledger) : Framed s s := ⟨fun _ _ _ => rfl, rfl⟩

theorem Framed.trans (h : Framed s t) (h' : Framed t s') : Framed s s' := by
  refine ⟨?_, h'.clock.trans h.clock⟩
  intro p home plain
  have kept := h.account p home plain
  have plain' : t.token? p = none := by rwa [Ledger.token?, kept]
  exact (h'.account p home plain').trans kept

theorem framed_set {p : Pubkey} (home : p.home ≠ none) (a : Account) : Framed s (s.setAccount p a) := by
  refine ⟨?_, rfl⟩
  intro q hq _
  rw [Ledger.setAccount_accounts, if_neg]
  rintro rfl
  exact home hq

theorem framed_drain {p : Pubkey} (home : p.home ≠ none) (dest : Pubkey) : Framed s (s.drainAccount p dest) := by
  obtain ⟨account, _⟩ := framed_set (s := s) home .system
  exact ⟨account, rfl⟩

theorem framed_open {p : Pubkey} (home : p.home ≠ none) (l : Pubkey → Nat) (a : Account) :
    Framed s (Ledger.setAccount { s with lamports := l } p a) := by
  obtain ⟨account, _⟩ := framed_set (s := s) home a
  exact ⟨account, rfl⟩

theorem framed_init {payer p : Pubkey} {space : Nat} {a : Account}
    (h : s.initAccount rt payer p space a = .ok s') (home : p.home ≠ none) : Framed s s' := by
  obtain ⟨_, l, rfl⟩ := Ledger.initAccount_ok h
  exact framed_open home l a

theorem framed_create {payer p : Pubkey} {space : Nat} {a : Account}
    (h : s.createAccount rt payer p space a = .ok s') (home : p.home ≠ none) : Framed s s' := by
  obtain ⟨_, l, rfl⟩ := Ledger.createAccount_ok h
  exact framed_open home l a

theorem framed_transfer {source destination authority : Pubkey} {amount : Nat}
    (h : s.tokenTransfer source destination authority amount = .ok s') : Framed s s' := by
  obtain ⟨a, b, ha, hb, _, _, _, _, ⟨_, rfl⟩ | ⟨_, _, rfl⟩⟩ := Ledger.tokenTransfer_ok.1 h
  · exact ⟨fun _ _ _ => rfl, rfl⟩
  · refine ⟨?_, rfl⟩
    intro p _ plain
    rw [Ledger.setAccount_accounts, if_neg, Ledger.setAccount_accounts, if_neg]
    · rfl
    · rintro rfl
      cases plain.symm.trans ha
    · rintro rfl
      cases plain.symm.trans hb

theorem framed_each {ι : Type} {f : Ledger → ι → Except Error Ledger} {is : List ι}
    (step : ∀ s i t, f s i = .ok t → Framed s t) (h : each f s is = .ok s') : Framed s s' :=
  each_related Framed.refl (fun _ _ _ => Framed.trans) step is s s' h

section Registrations

theorem create_framed {a : CreateTournament} (h : createTournament rt a s = .ok s') : Framed s s' := by
  simp only [createTournament, bind_ok] at h
  obtain ⟨_, _, _, _, s₁, h₁, s₂, h₂, _, _, _, _, h⟩ := h
  have opened : Framed s s₂ := (framed_init h₁ (Option.some_ne_none _)).trans (framed_init h₂ (Option.some_ne_none _))
  refine opened.trans ?_
  simp only [payDeposit, ite_ok, bind_ok] at h
  rcases h with ⟨_, _, _, h⟩ | ⟨_, h⟩
  · exact framed_transfer h
  · cases h
    exact .refl _

theorem home_ne_none {t : Tournament} (h : key = .tournament t.organizer t.name) : key.home ≠ none := by
  rw [h]
  exact Option.some_ne_none _

theorem join_framed {a : JoinTournament} (h : joinTournament rt a s = .ok s') : Framed s s' := by
  simp only [joinTournament, bind_ok, pure_ok, Ledger.loadTournament_ok] at h
  obtain ⟨t, ⟨_, at_⟩, _, _, _, _, _, _, _, _, _, _, _, _, s₁, h₁, _, _, _, _, _, _, s₂, h₂, _, _, rfl⟩ := h
  exact ((framed_init h₁ (Option.some_ne_none _)).trans (framed_transfer h₂)).trans (framed_set (home_ne_none at_) _)

theorem requestSeed_framed {a : RequestSeed} (h : requestSeed rt a s = .ok s') : Framed s s' := by
  simp only [requestSeed, bind_ok, pure_ok, Ledger.loadTournament_ok] at h
  obtain ⟨t, ⟨_, at_⟩, _, _, _, _, _, _, _, _, _, _, _, _, _, _, rfl⟩ := h
  exact framed_set (home_ne_none at_) _

theorem revealSeed_framed {a : RevealSeed} (h : revealSeed rt a s = .ok s') : Framed s s' := by
  simp only [revealSeed, bind_ok, pure_ok, Ledger.loadTournament_ok] at h
  obtain ⟨t, ⟨_, at_⟩, _, _, _, _, _, _, _, _, _, _, _, _, rfl⟩ := h
  exact framed_set (home_ne_none at_) _

theorem start_framed {a : StartTournament} (h : startTournament rt a s = .ok s') : Framed s s' := by
  simp only [startTournament, bind_ok, pure_ok, Ledger.loadTournament_ok] at h
  obtain ⟨t, ⟨_, at_⟩, _, _, _, _, t₁, _, _, _, st, hst, _, _, t₂, _, rfl⟩ := h
  refine Framed.trans ?_ (framed_set (home_ne_none at_) _)
  refine each_related (R := fun x y => Framed x.ledger y.ledger) (fun x => .refl x.ledger)
    (fun _ _ _ => Framed.trans) ?_ _ _ st hst
  rintro x ⟨d, p⟩ y hy
  simp only [initMatch, bind_ok, require_ok, pure_ok] at hy
  obtain ⟨_, _, _, _, _, _, _, _, _, rfl, s₁, h₁, _, _, rfl⟩ := hy
  exact framed_create h₁ (Option.some_ne_none _)

end Registrations

section Edits

variable {a : MatchAccounts}

theorem match_home {p : Pubkey} {m : MatchNode} (h : s.loadMatch key p = .ok m) : p.home ≠ none := by
  obtain ⟨_, rfl, _⟩ := Ledger.loadMatch_ok.1 h
  exact Option.some_ne_none _

theorem propose_framed {winner : Pubkey} (h : proposeResult a winner s = .ok s') : Framed s s' := by
  simp only [proposeResult, bind_ok, pure_ok] at h
  obtain ⟨_, _, m, hm, _, _, _, _, _, _, _, _, _, _, _, _, rfl⟩ := h
  exact framed_set (match_home hm) _

theorem proposeOracle_framed {feed : Pubkey} (h : proposeResultOracle rt a feed s = .ok s') : Framed s s' := by
  simp only [proposeResultOracle, bind_ok, pure_ok] at h
  obtain ⟨_, _, m, hm, _, _, _, _, _, _, _, _, _, _, _, _, _, _, _, _, _, _, _, _, rfl⟩ := h
  exact framed_set (match_home hm) _

theorem dispute_framed {reason : Nat} (h : disputeResult a reason s = .ok s') : Framed s s' := by
  simp only [disputeResult, bind_ok, pure_ok] at h
  obtain ⟨_, _, m, hm, _, _, _, _, _, _, _, _, rfl⟩ := h
  exact framed_set (match_home hm) _

theorem commit_framed {lobby : Bytes16} {hash : Bytes32} (h : commitMatchLobby a lobby hash s = .ok s') :
    Framed s s' := by
  simp only [commitMatchLobby, bind_ok, pure_ok] at h
  obtain ⟨_, _, _, _, m, hm, _, _, _, _, _, _, _, _, _, _, _, _, rfl⟩ := h
  exact framed_set (match_home hm) _

theorem bind_framed {feed : Pubkey} (h : bindMatchFeed rt a feed s = .ok s') : Framed s s' := by
  simp only [bindMatchFeed, bind_ok, pure_ok] at h
  obtain ⟨_, _, _, _, m, hm, _, _, _, _, _, _, _, _, _, _, _, _, _, _, rfl⟩ := h
  exact framed_set (match_home hm) _

end Edits

section Payouts

variable {mint treasury winner : Pubkey} {t : Tournament} {m : MatchNode}

theorem payPlacements_framed {items : List (Nat × Pubkey × Pubkey)} (h : payPlacements key mint s items = .ok s') :
    Framed s s' := by
  refine framed_each ?_ h
  rintro s ⟨amount, recipient, account⟩ t ht
  simp only [ite_ok, bind_ok] at ht
  rcases ht with ⟨_, ht⟩ | ⟨_, _, _, ht⟩
  · cases ht
    exact .refl s
  · exact framed_transfer ht

theorem payFee_framed {fee : Nat} {account : Option Pubkey} (h : payFee s key mint treasury fee account = .ok s') :
    Framed s s' := by
  simp only [payFee, ite_ok, bind_ok] at h
  rcases h with ⟨_, h⟩ | ⟨_, _, _, _, _, h⟩
  · cases h
    exact .refl s
  · exact framed_transfer h

theorem distributePrizes_framed {vault : TokenAccount} {remaining placements : List Pubkey}
    (h : distributePrizes s key t m treasury vault remaining winner placements = .ok s') : Framed s s' := by
  simp only [distributePrizes, bind_ok] at h
  obtain ⟨_, _, _, _, _, _, _, _, _, _, s₁, h₁, h⟩ := h
  exact (payPlacements_framed h₁).trans (payFee_framed h)

theorem finalizeMatch_framed {next : Option MatchNode} {vault : TokenAccount} {remaining : List Pubkey} {v : Verdict}
    {f : Finalized} (h : finalizeMatch s key t m next vault treasury remaining v = .ok f) : Framed s f.ledger := by
  simp only [finalizeMatch, bind_ok, ite_ok, pure_ok] at h
  obtain ⟨_, _, _, _, _, _, _, _, ⟨_, _, _, _, _, s₁, h₁, rfl⟩ | ⟨_, _, _, n, _, rfl⟩⟩ := h
  · exact distributePrizes_framed h₁
  · exact .refl s

theorem writeBack_framed {a : FinalizeAccounts} {l : Loaded} {f : Finalized} (wf : Wellformed s) (loads : Loads s a l)
    (h : Framed s f.ledger) : Framed s (writeBack a f) := by
  have record : a.tournament.home ≠ none := home_ne_none (record_fits wf loads.record).1
  have node : a.matchAccount.home ≠ none := by
    rw [loads.address]
    exact Option.some_ne_none _
  have written := (h.trans (framed_set record (.tournament f.tournament))).trans
    (framed_set node (.matchNode f.matchAccount))
  unfold writeBack writeNext
  split
  · obtain ⟨q, hq⟩ : ∃ n, s.matchNode? ‹Pubkey› = some n := by
      have next := loads.next
      rw [‹a.nextMatch = _›] at next
      simp only [loadNext, bind_ok, orThrow_ok, pure_ok] at next
      exact ⟨_, next.choose_spec.1⟩
    refine written.trans (framed_set ?_ _)
    rw [(node_fits wf hq).1]
    exact Option.some_ne_none _
  · exact written

theorem report_framed {a : FinalizeAccounts} {placements : List Pubkey} (wf : Wellformed s)
    (h : reportResult a winner placements s = .ok s') : Framed s s' := by
  simp only [reportResult, bind_ok, pure_ok] at h
  obtain ⟨l, hl, _, _, _, _, f, hf, rfl⟩ := h
  exact writeBack_framed wf (loadFinalize_ok hl) (finalizeMatch_framed hf)

theorem credited_framed {a : FinalizeAccounts} {l : Loaded} {v : Verdict} (wf : Wellformed s)
    (hl : loadFinalize s a = .ok l) (h : finalizeCredited a l v s = .ok s') : Framed s s' := by
  simp only [finalizeCredited, bind_ok, pure_ok] at h
  obtain ⟨pa, _, pb, _, f, hf, rfl⟩ := h
  have written := writeBack_framed wf (loadFinalize_ok hl) (finalizeMatch_framed hf)
  refine (written.trans (framed_set ?_ _)).trans (framed_set ?_ _) <;> exact Option.some_ne_none _

end Payouts

section Returns

variable {t : Tournament}

theorem refundPair_framed {pair : Pubkey × Pubkey} (wf : Wellformed s) (h : refundPair key t s pair = .ok s') :
    Framed s s' := by
  simp only [refundPair, bind_ok, ite_ok, pure_ok, Ledger.readParticipant_ok] at h
  obtain ⟨x, hx, _, _, ⟨_, rfl⟩ | ⟨_, _, _, s₁, h₁, rfl⟩⟩ := h
  · exact .refl _
  · refine (framed_transfer h₁).trans (framed_set ?_ _)
    rw [(participant_fits wf hx).1]
    exact Option.some_ne_none _

theorem refundPairs_framed {ps : List (Pubkey × Pubkey)} (wf : Wellformed s) (hk : key.isTournament = true)
    (h : each (refundPair key t) s ps = .ok s') : Framed s s' := by
  induction ps generalizing s with
  | nil =>
      cases h
      exact .refl _
  | cons pair ps ih =>
      obtain ⟨m, hm, rest⟩ := (each_cons_ok _ _ _ _ _).1 h
      have first := refundPair_framed wf hm
      obtain ⟨_, _, _, _, ⟨_, rfl⟩ | ⟨_, paid⟩⟩ := refundPair_effect wf hk hm
      · exact ih wf rest
      · exact first.trans (ih paid.confined.wf rest)

theorem refundDeposit_framed {t' : Tournament} {account : Option Pubkey}
    (h : refundDeposit key t account s = .ok (s', t')) : Framed s s' := by
  simp only [refundDeposit, ite_ok] at h
  rcases h with ⟨_, h⟩ | ⟨_, h⟩
  · split at h
    · cases h
      exact .refl _
    · simp only [bind_ok, pure_ok, Prod.mk.injEq] at h
      obtain ⟨_, _, _, _, _, _, s₁, h₁, rfl, _⟩ := h
      exact framed_transfer h₁
  · cases h
    exact .refl _

theorem refundChunk_framed {a : CancelTournament} {t₀ : Tournament} {u : TokenAccount} (wf : Wellformed s)
    (ht : s.tournament? a.tournament = some t₀) (same : t.organizer = t₀.organizer)
    (hu : (viewOf s a.tournament).vault = some u) (h : refundChunk a t s = .ok s') : Framed s s' := by
  have hk := isTournament_of_record wf ht
  have signer : t.organizer.canSign = true := same ▸ (record_fits wf ht).2.2
  have home : a.tournament.home ≠ none := home_ne_none (record_fits wf ht).1
  simp only [refundChunk, bind_ok, pure_ok] at h
  obtain ⟨_, _, ⟨s₁, t₁⟩, h₁, s₂, h₂, rfl⟩ := h
  obtain ⟨_, paid⟩ := refundDeposit_effect wf hk hu signer h₁
  exact ((refundDeposit_framed h₁).trans (refundPairs_framed paid.confined.wf hk h₂)).trans (framed_set home _)

theorem cancel_framed {a : CancelTournament} (wf : Wellformed s) (h : cancelTournament a s = .ok s') :
    Framed s s' := by
  simp only [cancelTournament, bind_ok, Ledger.loadTournament_ok, Ledger.loadVault_ok] at h
  obtain ⟨t, ⟨ht, _⟩, u, ⟨hu, _⟩, _, _, _, _, t', hflip, h⟩ := h
  obtain ⟨rfl, _⟩ := flipCancelled_ok hflip
  refine refundChunk_framed wf ht ?_ hu h
  rfl

theorem partialRefund_framed {a : CancelTournament} (wf : Wellformed s) (h : partialRefundChunk a s = .ok s') :
    Framed s s' := by
  simp only [partialRefundChunk, bind_ok, Ledger.loadTournament_ok, Ledger.loadVault_ok] at h
  obtain ⟨t, ⟨ht, _⟩, u, ⟨hu, _⟩, _, _, _, _, h⟩ := h
  exact refundChunk_framed wf ht rfl hu h

theorem partialCancel_framed {a : PartialCancel} (h : partialCancelTournament a s = .ok s') : Framed s s' := by
  simp only [partialCancelTournament, bind_ok, pure_ok, Ledger.loadTournament_ok] at h
  obtain ⟨t, ⟨_, at_⟩, _, _, _, _, rfl⟩ := h
  exact framed_set (home_ne_none at_) _

theorem closeChildren_framed {organizer : Pubkey} {children : List Pubkey} (wf : Wellformed s)
    (hk : key.isTournament = true) (h : each (closeChild key organizer) s children = .ok s') : Framed s s' := by
  induction children generalizing s with
  | nil =>
      cases h
      exact .refl _
  | cons child children ih =>
      obtain ⟨m, hm, rest⟩ := (each_cons_ok _ _ _ _ _).1 h
      have alone : each (closeChild key organizer) s [child] = .ok m := (each_cons_ok _ _ _ _ _).2 ⟨m, hm, rfl⟩
      obtain ⟨confined, _⟩ := closeChildren_effect wf hk alone
      refine Framed.trans ?_ (ih confined.wf rest)
      simp only [closeChild, ite_ok, bind_ok, require_ok, orThrow_ok, pure_ok] at hm
      rcases hm with ⟨_, hm⟩ | ⟨_, _, _, embedded, hemb, _, rfl, _, _, rfl⟩
      · cases hm
        exact .refl _
      · apply framed_drain
        obtain ⟨_, rfl⟩ | ⟨_, rfl⟩ := embedded_child wf hk hemb <;> exact Option.some_ne_none _

theorem close_framed {a : CloseTournament} (wf : Wellformed s) (h : closeTournament a s = .ok s') : Framed s s' := by
  simp only [closeTournament, bind_ok, ite_ok, pure_ok, Ledger.loadTournament_ok] at h
  obtain ⟨t, ⟨ht, at_⟩, _, _, _, _, u, _, _, _, s₁, h₁, h⟩ := h
  have children := closeChildren_framed wf (isTournament_of_record wf ht) h₁
  rcases h with ⟨_, h⟩ | ⟨_, rfl⟩
  · simp only [closeRoot, bind_ok, pure_ok] at h
    obtain ⟨_, _, _, _, rfl⟩ := h
    have vault : (Pubkey.vault a.tournament).home ≠ none := Option.some_ne_none _
    exact (children.trans (framed_drain vault _)).trans (framed_drain (home_ne_none at_) _)
  · exact children

end Returns

/-- A call on a tournament changes no account outside the tournaments but
token accounts. -/
theorem call_framed {ix : Instruction} (wf : Wellformed s) (own : ix.tournament ≠ none) (h : ix.run rt s = .ok s') :
    Framed s s' := by
  cases ix with
  | initializeProtocol | setSasConfig | setOracleConfig => exact absurd rfl own
  | createTournament a => exact create_framed h
  | joinTournament a => exact join_framed h
  | requestSeed a => exact requestSeed_framed h
  | revealSeed a => exact revealSeed_framed h
  | startTournament a => exact start_framed h
  | proposeResult a winner => exact propose_framed h
  | proposeResultOracle a feed => exact proposeOracle_framed h
  | disputeResult a reason => exact dispute_framed h
  | commitMatchLobby a lobby hash => exact commit_framed h
  | bindMatchFeed a feed => exact bind_framed h
  | reportResult a winner placements => exact report_framed wf h
  | confirmResult a placements | settleFinal a placements =>
      simp only [Instruction.run, confirmResult, settleFinal, bind_ok] at h
      obtain ⟨l, hl, _, _, _, _, _, _, _, _, h⟩ := h
      exact credited_framed wf hl h
  | claimResult a placements | forceClaimDisputed a placements =>
      simp only [Instruction.run, claimResult, forceClaimDisputed, bind_ok] at h
      obtain ⟨l, hl, _, _, _, _, _, _, h⟩ := h
      exact credited_framed wf hl h
  | resolveDispute a winner placements =>
      simp only [Instruction.run, resolveDispute, bind_ok] at h
      obtain ⟨l, hl, _, _, _, _, h⟩ := h
      exact credited_framed wf hl h
  | cancelTournament a => exact cancel_framed wf h
  | partialCancelTournament a => exact partialCancel_framed h
  | partialRefundChunk a => exact partialRefund_framed wf h
  | closeTournament a => exact close_framed wf h

/-- A call on no tournament writes the configuration. Once there is one, only
`set_oracle_config` gives it another queue. -/
theorem config_call {ix : Instruction} (none_ : ix.tournament = none) (h : ix.run rt s = .ok s') :
    ∃ l cfg', s' = { s with lamports := l }.setAccount .protocolConfig (.protocolConfig cfg') ∧
      (s.accounts .protocolConfig = .system ∨ ∃ cfg, s.config? = some cfg ∧
        (cfg'.switchboardQueue = cfg.switchboardQueue ∨
          ∃ authority stale samples, ix = .setOracleConfig authority cfg'.switchboardQueue stale samples)) := by
  cases ix with
  | initializeProtocol a =>
      simp only [Instruction.run, initializeProtocol, bind_ok] at h
      obtain ⟨_, _, h⟩ := h
      obtain ⟨vacant, l, rfl⟩ := Ledger.initAccount_ok h
      exact ⟨l, _, rfl, .inl vacant⟩
  | setSasConfig authority credential schemas =>
      simp only [Instruction.run, setSasConfig, updateConfig, bind_ok, pure_ok, Ledger.loadConfig, orThrow_ok] at h
      obtain ⟨cfg, hcfg, _, _, rfl⟩ := h
      exact ⟨s.lamports, _, rfl, .inr ⟨cfg, hcfg, .inl rfl⟩⟩
  | setOracleConfig authority queue stale samples =>
      simp only [Instruction.run, setOracleConfig, updateConfig, bind_ok, pure_ok, Ledger.loadConfig, orThrow_ok] at h
      obtain ⟨_, _, _, _, cfg, hcfg, _, _, rfl⟩ := h
      exact ⟨s.lamports, _, rfl, .inr ⟨cfg, hcfg, .inr ⟨authority, stale, samples, rfl⟩⟩⟩
  | _ => cases none_

/-- Around the program, an account without tokens changes only at an address
of its own making. -/
theorem outside_account {e : Outside} {p : Pubkey} (step : Step rt s (.outside e) s') (plain : s.token? p = none) :
    s'.accounts p = s.accounts p ∨ ∃ n a, e = .account n a ∧ p = .key n ∧ s'.accounts p = a := by
  have h := outside_ran step
  cases e with
  | clock | slotHashes | sendLamports | spendLamports =>
      obtain rfl := Except.ok.inj h
      exact .inl rfl
  | account n a =>
      simp only [Outside.run, bind_ok, pure_ok] at h
      obtain ⟨_, _, rfl⟩ := h
      rw [Ledger.setAccount_accounts]
      split
      · exact .inr ⟨n, a, rfl, ‹_›, rfl⟩
      · exact .inl rfl
  | sendTokens q amount =>
      simp only [Outside.run, bind_ok, pure_ok, Ledger.loadToken_ok] at h
      obtain ⟨v, hv, _, _, rfl⟩ := h
      have apart : p ≠ q := by
        rintro rfl
        cases plain.symm.trans hv
      rw [Ledger.setAccount_accounts, if_neg apart]
      exact .inl rfl

/-- Only the environment moves the clock. -/
theorem step_clock {b : Action} (wf : Wellformed s) (step : Step rt s b s') :
    s'.clock = s.clock ∨ ∃ c, b = .outside (.clock c) ∧ s'.clock = c := by
  cases b with
  | outside e =>
      replace step := outside_ran step
      cases e with
      | clock c =>
          obtain rfl := Except.ok.inj step
          exact .inr ⟨c, rfl, rfl⟩
      | slotHashes | sendLamports | spendLamports =>
          obtain rfl := Except.ok.inj step
          exact .inl rfl
      | account n a =>
          simp only [Outside.run, bind_ok, pure_ok] at step
          obtain ⟨_, _, rfl⟩ := step
          exact .inl rfl
      | sendTokens p amount =>
          simp only [Outside.run, bind_ok, pure_ok] at step
          obtain ⟨_, _, _, _, rfl⟩ := step
          exact .inl rfl
  | call ix =>
      obtain ⟨_, _, h⟩ := call_ran step
      left
      by_cases own : ix.tournament = none
      · obtain ⟨l, cfg', rfl, _⟩ := config_call own h
        rfl
      · exact (call_framed wf own h).clock

theorem config_plain {cfg : ProtocolConfig} (hcfg : s.config? = some cfg) : s.token? .protocolConfig = none := by
  simp [Ledger.token?, Ledger.config?_eq_some.1 hcfg, Account.asToken]

/-- The configuration stays once it is there. -/
theorem step_config {b : Action} {cfg : ProtocolConfig} (wf : Wellformed s) (hcfg : s.config? = some cfg)
    (step : Step rt s b s') : ∃ cfg', s'.config? = some cfg' := by
  have at_ := Ledger.config?_eq_some.1 hcfg
  have kept (same : s'.accounts .protocolConfig = s.accounts .protocolConfig) : ∃ cfg', s'.config? = some cfg' :=
    ⟨cfg, Ledger.config?_eq_some.2 (same.trans at_)⟩
  cases b with
  | outside e =>
      obtain same | ⟨_, _, _, own, _⟩ := outside_account step (config_plain hcfg)
      · exact kept same
      · cases own
  | call ix =>
      obtain ⟨_, _, h⟩ := call_ran step
      by_cases own : ix.tournament = none
      · obtain ⟨l, cfg', rfl, _⟩ := config_call own h
        refine ⟨cfg', Ledger.config?_eq_some.2 ?_⟩
        rw [Ledger.setAccount_accounts, if_pos rfl]
      · exact kept ((call_framed wf own h).account _ rfl (config_plain hcfg))

end BracketChain.Frames
