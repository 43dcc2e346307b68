import BracketChain.RegistrationEffects

namespace BracketChain.MatchEffects

open Outcome Keys Records Accounts Settlement Envelope Program Layout View Confinement Lifecycle
  RegistrationEffects

variable {rt : Runtime} {s s' : Ledger}

theorem deadlineAfter_ok {now span d : Int} :
    deadlineAfter now span = .ok d ↔ now + span ≤ i64Max ∧ now + span = d := by
  simp only [deadlineAfter, bind_ok, require_ok, pure_ok]
  exact ⟨fun h => h.elim fun _ => id, fun h => ⟨(), h⟩⟩

theorem resolveOracleWinner_ok {value : Int × Nat} {m : MatchNode} {winner : Pubkey}
    (h : resolveOracleWinner value m.playerA m.playerB = .ok winner) : m.hasPlayer winner := by
  unfold resolveOracleWinner at h
  split at h
  · exact .inl (by simpa [eq_comm] using h)
  · exact .inr (by simpa [eq_comm] using h)
  · cases h

theorem edits_slot {t : Tournament} {clock : Clock} {m m' : MatchNode} {ix : Instruction}
    (h : Edits t clock m ix m') : m'.tournament = m.tournament ∧ m'.slot = m.slot := by
  cases h <;> exact ⟨rfl, rfl⟩

theorem confined_set_node {s₀ : Ledger} {key p : Pubkey} {m m' : MatchNode} (wf₀ : Wellformed s₀)
    (hm : s₀.matchNode? p = some m) (home : m.tournament = key) (wf : Wellformed s)
    (same : m'.tournament = m.tournament ∧ m'.slot = m.slot) :
    Confined (some key) s (s.setAccount p (.matchNode m')) := by
  obtain ⟨hp, hk⟩ := node_fits wf₀ hm
  refine confined_set wf ?_ (.inr ?_)
  · simpa only [Account.fits, same.1, same.2] using ⟨hp, hk⟩
  · rw [hp, home, Pubkey.home]

theorem edit_simulated {ix : Instruction} {a : MatchAccounts} {t : Tournament} {m m' : MatchNode}
    (wf : Wellformed s) (ht : s.tournament? a.tournament = some t)
    (hm : s.loadMatch a.tournament a.matchAccount = .ok m) (call : Instruction.edit? ix = some a)
    (edits : Edits t s.clock m ix m') :
    Simulated rt a.tournament (.call ix) s (s.setAccount a.matchAccount (.matchNode m')) := by
  obtain ⟨hn, hp, hk⟩ := Ledger.loadMatch_ok.1 hm
  refine ⟨confined_set_node wf hn hk wf (edits_slot edits), ?_⟩
  rw [hp] at hn
  rw [hp, viewOf_set_node (isTournament_of_record wf ht)]
  exact .edit ix a m.slot call rfl hp ht hn edits

theorem propose_simulated {a : MatchAccounts} {winner : Pubkey} (wf : Wellformed s)
    (h : proposeResult a winner s = .ok s') :
    Simulated rt a.tournament (.call (.proposeResult a winner)) s s' := by
  simp only [proposeResult, bind_ok, require_ok, pure_ok, Ledger.loadTournament_ok, deadlineAfter_ok] at h
  obtain ⟨t, ⟨ht, _⟩, m, hm, _, hmode, _, hact, _, hemp, _, hprop, _, hwin, d, ⟨hb, rfl⟩, rfl⟩ := h
  exact edit_simulated wf ht hm rfl (.propose a winner hmode hact hemp hprop hwin hb)

theorem proposeOracle_simulated {a : MatchAccounts} {feed : Pubkey} (wf : Wellformed s)
    (h : proposeResultOracle rt a feed s = .ok s') :
    Simulated rt a.tournament (.call (.proposeResultOracle a feed)) s s' := by
  simp only [proposeResultOracle, bind_ok, require_ok, orThrow_ok, pure_ok, Ledger.loadTournament_ok,
    deadlineAfter_ok] at h
  obtain ⟨t, ⟨ht, _⟩, m, hm, _, _, _, hmode, _, hact, _, hemp, _, hcom, _, hfeed, _, _, _, _, winner, hw,
    d, ⟨hb, rfl⟩, rfl⟩ := h
  exact edit_simulated wf ht hm rfl
    (.proposeOracle a feed winner hmode hact hemp hcom hfeed (resolveOracleWinner_ok hw) hb)

theorem dispute_simulated {a : MatchAccounts} {reason : Nat} (wf : Wellformed s)
    (h : disputeResult a reason s = .ok s') :
    Simulated rt a.tournament (.call (.disputeResult a reason)) s s' := by
  simp only [disputeResult, bind_ok, require_ok, pure_ok, Ledger.loadTournament_ok, deadlineAfter_ok] at h
  obtain ⟨t, ⟨ht, _⟩, m, hm, _, hpend, _, hfirst, _, hdis, d, ⟨hb, rfl⟩, rfl⟩ := h
  exact edit_simulated wf ht hm rfl (.dispute a reason hpend hfirst hdis hb)

theorem commit_simulated {a : MatchAccounts} {lobby : Bytes16} {hash : Bytes32} (wf : Wellformed s)
    (h : commitMatchLobby a lobby hash s = .ok s') :
    Simulated rt a.tournament (.call (.commitMatchLobby a lobby hash)) s s' := by
  simp only [commitMatchLobby, bind_ok, require_ok, pure_ok, Ledger.loadTournament_ok] at h
  obtain ⟨t, ⟨ht, _⟩, _, horg, m, hm, pa, _, pb, _, _, hmode, _, hrun, _, hact, _, hfirst, rfl⟩ := h
  exact edit_simulated wf ht hm rfl
    (.commit a lobby hash _ horg hmode hrun hact (Option.isNone_iff_eq_none.1 hfirst))

theorem bind_simulated {a : MatchAccounts} {feed : Pubkey} (wf : Wellformed s)
    (h : bindMatchFeed rt a feed s = .ok s') :
    Simulated rt a.tournament (.call (.bindMatchFeed a feed)) s s' := by
  simp only [bindMatchFeed, bind_ok, require_ok, orThrow_ok, pure_ok, Ledger.loadTournament_ok] at h
  obtain ⟨t, ⟨ht, _⟩, _, horg, m, hm, _, _, c, hc, _, _, _, _, _, _, _, _, _, _, rfl⟩ := h
  exact edit_simulated wf ht hm rfl (.bind a feed horg (by simp [hc]))

/-- The payouts of the final touch nothing but the vault. -/
def PaysOnly (key : Pubkey) (s s' : Ledger) : Prop :=
  Wellformed s → (viewOf s key).vault.isSome = true →
    Confined (some key) s s' ∧ ∃ u p, viewOf s' key = { viewOf s key with vault := some u, paid := p }

theorem PaysOnly.refl (key : Pubkey) (s : Ledger) : PaysOnly key s s := by
  intro wf hv
  obtain ⟨u, hu⟩ := Option.isSome_iff_exists.1 hv
  exact ⟨.refl wf, u, (viewOf s key).paid, by rw [← hu]⟩

theorem PaysOnly.trans {key : Pubkey} {t : Ledger} (h : PaysOnly key s t) (h' : PaysOnly key t s') :
    PaysOnly key s s' := by
  intro wf hv
  obtain ⟨c, u, p, ht⟩ := h wf hv
  obtain ⟨c', u', p', hs'⟩ := h' c.wf (by rw [ht]; rfl)
  exact ⟨c.trans c', u', p', by rw [hs', ht]⟩

theorem paysOnly_transfer {key destination : Pubkey} {amount : Nat} (hk : key.isTournament = true)
    (h : s.tokenTransfer (.vault key) destination key amount = .ok s') : PaysOnly key s s' := by
  intro wf _
  exact ⟨confined_transfer wf h (.inl rfl), viewOf_transfer_any wf hk h⟩

theorem payPlacements_paysOnly {key mint : Pubkey} {items : List (Nat × Pubkey × Pubkey)}
    (hk : key.isTournament = true) (h : payPlacements key mint s items = .ok s') : PaysOnly key s s' := by
  refine each_related (PaysOnly.refl key) (fun _ _ _ h h' => h.trans h') ?_ items s s' h
  rintro s ⟨amount, recipient, account⟩ t ht
  simp only [ite_ok, bind_ok] at ht
  rcases ht with ⟨_, ht⟩ | ⟨_, _, _, ht⟩
  · obtain rfl : s = t := by simpa using ht
    exact .refl key s
  · exact paysOnly_transfer hk ht

theorem payFee_paysOnly {key mint treasury : Pubkey} {fee : Nat} {account : Option Pubkey}
    (hk : key.isTournament = true) (h : payFee s key mint treasury fee account = .ok s') :
    PaysOnly key s s' := by
  simp only [payFee, ite_ok, bind_ok] at h
  rcases h with ⟨_, h⟩ | ⟨_, _, _, _, _, h⟩
  · obtain rfl : s = s' := by simpa using h
    exact .refl key s
  · exact paysOnly_transfer hk h

theorem distributePrizes_paysOnly {key treasury winner : Pubkey} {t : Tournament} {m : MatchNode}
    {vault : TokenAccount} {remaining placements : List Pubkey} (hk : key.isTournament = true)
    (h : distributePrizes s key t m treasury vault remaining winner placements = .ok s') :
    PaysOnly key s s' := by
  simp only [distributePrizes, bind_ok, require_ok] at h
  obtain ⟨_, _, _, _, _, _, _, _, amounts, _, s₁, h₁, h⟩ := h
  exact (payPlacements_paysOnly hk h₁).trans (payFee_paysOnly hk h)

end BracketChain.MatchEffects
