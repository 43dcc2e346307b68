import BracketChain.View

namespace BracketChain.Confinement

open Outcome Keys Records Accounts Layout View

/-- Nothing but credits to their vaults happens to tournaments other than `own`. -/
structure Confined (own : Option Pubkey) (s s' : Ledger) : Prop where
  wf : Wellformed s'
  others : ∀ key, key.isTournament = true → own ≠ some key → ∃ k, viewOf s' key = (viewOf s key).credit k

variable {own : Option Pubkey} {s t s' : Ledger}

theorem Confined.refl (wf : Wellformed s) : Confined own s s :=
  ⟨wf, fun _ _ _ => ⟨0, (credit_zero _).symm⟩⟩

theorem Confined.trans (h : Confined own s t) (h' : Confined own t s') : Confined own s s' := by
  refine ⟨h'.wf, fun key hk ho => ?_⟩
  obtain ⟨j, hj⟩ := h.others key hk ho
  obtain ⟨k, hk⟩ := h'.others key hk ho
  exact ⟨j + k, by rw [hk, hj, credit_credit]⟩

theorem confined_set {p : Pubkey} {a : Account} (wf : Wellformed s) (fit : Account.fits p a)
    (home : p.home = none ∨ p.home = own) : Confined own s (s.setAccount p a) := by
  refine ⟨wellformed_set wf fit, fun key hk ho => ⟨0, ?_⟩⟩
  rw [credit_zero, viewOf_set_other hk]
  rcases home with home | home <;> rw [home]
  · exact Option.some_ne_none key |>.symm
  · exact ho

theorem confined_lamports (wf : Wellformed s) (l : Pubkey → Nat) : Confined own s { s with lamports := l } :=
  ⟨wellformed_of_accounts wf rfl, fun _ _ _ => ⟨0, (credit_zero _).symm⟩⟩

theorem confined_drain (wf : Wellformed s) {p : Pubkey} (dest : Pubkey) (home : p.home = own) :
    Confined own s (s.drainAccount p dest) :=
  (confined_set wf (a := .system) trivial (.inr home)).trans
    (confined_lamports (wellformed_set wf (a := .system) trivial) _)

theorem confined_open {p : Pubkey} {a : Account} {l : Pubkey → Nat} (wf : Wellformed s)
    (fit : Account.fits p a) (home : p.home = none ∨ p.home = own) :
    Confined own s (Ledger.setAccount { s with lamports := l } p a) :=
  (confined_lamports wf l).trans (confined_set (wellformed_of_accounts wf rfl) fit home)

/-- Tokens leave only the own vault or accounts of a signer. -/
theorem confined_transfer {source destination authority : Pubkey} {amount : Nat} (wf : Wellformed s)
    (h : s.tokenTransfer source destination authority amount = .ok s')
    (own_source : source.home = own ∨ authority.canSign = true) : Confined own s s' := by
  refine ⟨wellformed_transfer wf h, fun key hk ho => ?_⟩
  obtain ⟨a, b, ha, hb, _, _, _, hauth, h⟩ := Ledger.tokenTransfer_ok.1 h
  have source_other : source.home ≠ some key := by
    rcases own_source with hs | hs
    · exact hs ▸ ho
    · obtain ⟨n, rfl⟩ := token_of_signer wf ha (hauth ▸ hs)
      simp [Pubkey.home]
  have source_ne : source ≠ .vault key := by
    rintro rfl
    exact source_other rfl
  rcases h with ⟨_, rfl⟩ | ⟨hne, _, rfl⟩
  · exact ⟨0, by rw [credit_zero, viewOf_logged_other _ source_ne]⟩
  · by_cases hd : destination = .vault key
    · subst destination
      refine ⟨amount, ?_⟩
      have hv : (viewOf s key).vault = some b := hb
      rw [viewOf_set_vault hk, viewOf_set_other hk source_other, viewOf_logged_other _ source_ne]
      simp [TournamentView.credit, hv, Account.asToken, TokenAccount.plus]
    · refine ⟨0, ?_⟩
      rw [credit_zero, viewOf_set_other hk _, viewOf_set_other hk source_other, viewOf_logged_other _ source_ne]
      obtain ⟨n, rfl⟩ | ⟨hv, _⟩ := token_fits wf hb
      · simp [Pubkey.home]
      · rw [hv] at hd ⊢
        simpa [Pubkey.home] using hd

section Vault

variable {key : Pubkey} {amount : Nat}

theorem viewOf_transfer_in {source authority : Pubkey} (wf : Wellformed s) (hk : key.isTournament = true)
    (h : s.tokenTransfer source (.vault key) authority amount = .ok s') (signer : authority.canSign = true) :
    ∃ u, (viewOf s key).vault = some u ∧ u.amount + amount ≤ u64Max ∧
      viewOf s' key = { viewOf s key with vault := some (TokenAccount.plus u amount) } := by
  obtain ⟨a, b, ha, hb, _, _, _, hauth, h⟩ := Ledger.tokenTransfer_ok.1 h
  obtain ⟨n, rfl⟩ := token_of_signer wf ha (hauth ▸ signer)
  rcases h with ⟨he, _⟩ | ⟨_, hov, rfl⟩
  · cases he
  · refine ⟨b, hb, hov, ?_⟩
    rw [viewOf_set_vault hk, viewOf_set_other hk (by simp [Pubkey.home]), viewOf_logged_other _ (by simp)]
    rfl

theorem viewOf_transfer_out {destination recipient : Pubkey} {d : TokenAccount} (wf : Wellformed s)
    (hk : key.isTournament = true) (h : s.tokenTransfer (.vault key) destination key amount = .ok s')
    (hd : s.token? destination = some d) (ho : d.owner = recipient) (signer : recipient.canSign = true) :
    ∃ u, (viewOf s key).vault = some u ∧ amount ≤ u.amount ∧
      viewOf s' key = { viewOf s key with
        vault := some (TokenAccount.minus u amount)
        paid := (viewOf s key).paid ++ [(recipient, amount)] } := by
  obtain ⟨a, b, ha, hb, _, hle, _, _, h⟩ := Ledger.tokenTransfer_ok.1 h
  obtain rfl : d = b := Option.some.inj (hd.symm.trans hb)
  obtain ⟨n, rfl⟩ := token_of_signer wf hd (ho ▸ signer)
  rcases h with ⟨he, _⟩ | ⟨_, _, rfl⟩
  · cases he
  · refine ⟨a, ha, hle, ?_⟩
    rw [viewOf_set_other hk (by simp [Pubkey.home]), viewOf_set_vault hk, viewOf_logged_own _ rfl, ho]
    rfl

theorem viewOf_transfer_any {destination : Pubkey} (wf : Wellformed s) (hk : key.isTournament = true)
    (h : s.tokenTransfer (.vault key) destination key amount = .ok s') :
    ∃ u p, viewOf s' key = { viewOf s key with vault := some u, paid := p } := by
  obtain ⟨a, b, ha, hb, _, _, _, _, ⟨_, rfl⟩ | ⟨hne, _, rfl⟩⟩ := Ledger.tokenTransfer_ok.1 h
  · refine ⟨a, (viewOf s key).paid ++ [(b.owner, amount)], ?_⟩
    have hv : (viewOf s key).vault = some a := ha
    rw [viewOf_logged_own _ rfl, ← hv]
  · have home : destination.home ≠ some key := by
      obtain ⟨n, rfl⟩ | ⟨hv, _⟩ := token_fits wf hb
      · simp [Pubkey.home]
      · rw [hv] at hne ⊢
        simpa [Pubkey.home, eq_comm] using hne
    refine ⟨TokenAccount.minus a amount, (viewOf s key).paid ++ [(b.owner, amount)], ?_⟩
    rw [viewOf_set_other hk home, viewOf_set_vault hk, viewOf_logged_own _ rfl]
    rfl

end Vault

end BracketChain.Confinement
