import BracketChain.Refunds

namespace BracketChain.Recast

open Outcome Keys Records Accounts Refunds

/-- The ledger with another status in the record at `key`. -/
def recast (key : Pubkey) (status : TournamentStatus) (s : Ledger) : Ledger :=
  match s.tournament? key with
  | some t => s.setAccount key (.tournament { t with status := status })
  | none => s

variable {s m : Ledger} {key p : Pubkey} {t t₀ : Tournament} {status : TournamentStatus}

theorem recast_eq (ht : s.tournament? key = some t) :
    recast key status s = s.setAccount key (.tournament { t with status := status }) := by
  simp [recast, ht]

theorem set_set (s : Ledger) (p : Pubkey) (a b : Account) : (s.setAccount p a).setAccount p b = s.setAccount p b := by
  simp [Ledger.setAccount]

theorem recast_overwrite (a : Account) : (recast key status s).setAccount key a = s.setAccount key a := by
  unfold recast
  split
  · exact set_set ..
  · rfl

theorem set_tournament (a : Account) : (s.setAccount key a).tournament? key = a.asTournament := by
  rw [Ledger.tournament?, Ledger.setAccount_accounts, if_pos rfl]

theorem set_tournament_other (apart : p ≠ key) (a : Account) :
    (s.setAccount p a).tournament? key = s.tournament? key := by
  rw [Ledger.tournament?, Ledger.setAccount_accounts, if_neg apart.symm]
  rfl

theorem recast_tournament (ht : s.tournament? key = some t) :
    (recast key status s).tournament? key = some { t with status := status } := by
  rw [recast_eq ht, set_tournament]
  rfl

theorem recast_same (ht : s.tournament? key = some t) : recast key t.status s = s := by
  rw [recast_eq ht, ← Ledger.tournament?_eq_some.1 ht]
  simp [Ledger.setAccount]

theorem recast_recast (ht : s.tournament? key = some t) (first : TournamentStatus) :
    recast key status (recast key first s) = recast key status s := by
  rw [recast_eq (recast_tournament ht), recast_overwrite, recast_eq ht]

theorem recast_set (ht : s.tournament? key = some t) (apart : p ≠ key) (a : Account) :
    recast key status (s.setAccount p a) = (recast key status s).setAccount p a := by
  rw [recast_eq ((set_tournament_other apart a).trans ht), recast_eq ht]
  simp only [Ledger.setAccount, Function.update_comm apart]

theorem recast_set_set {q : Pubkey} (ht : s.tournament? key = some t) (hp : p ≠ key) (hq : q ≠ key) (a b : Account) :
    recast key status ((s.setAccount p a).setAccount q b) = ((recast key status s).setAccount p a).setAccount q b := by
  rw [recast_set ((set_tournament_other hp a).trans ht) hq, recast_set ht hp]

theorem recast_accounts (ht : s.tournament? key = some t) (apart : p ≠ key) :
    (recast key status s).accounts p = s.accounts p := by
  rw [recast_eq ht, Ledger.setAccount_accounts, if_neg apart]

theorem recast_own (ht : s.tournament? key = some t) :
    (recast key status s).accounts key = .tournament { t with status := status } :=
  Ledger.tournament?_eq_some.1 (recast_tournament ht)

theorem recast_token (ht : s.tournament? key = some t) (p : Pubkey) :
    (recast key status s).token? p = s.token? p := by
  by_cases apart : p = key
  · subst apart
    simp [Ledger.token?, recast_own ht, Ledger.tournament?_eq_some.1 ht, Account.asToken]
  · rw [Ledger.token?, recast_accounts ht apart]
    rfl

theorem recast_readParticipant (ht : s.tournament? key = some t) (p : Pubkey) (e : Error) :
    (recast key status s).readParticipant p e = s.readParticipant p e := by
  by_cases apart : p = key
  · subst apart
    simp [Ledger.readParticipant, Ledger.participant?, recast_own ht, Ledger.tournament?_eq_some.1 ht,
      Account.programOwned, Account.asParticipant]
  · simp only [Ledger.readParticipant, Ledger.participant?, recast_accounts ht apart]

theorem token_apart {v : TokenAccount} (ht : s.tournament? key = some t) (hv : s.token? p = some v) : p ≠ key := by
  rintro rfl
  have account := Ledger.token?_eq_some.1 hv
  rw [Ledger.tournament?_eq_some.1 ht] at account
  cases account

theorem participant_apart {x : Participant} (ht : s.tournament? key = some t) (hx : s.participant? p = some x) :
    p ≠ key := by
  rintro rfl
  have account := Ledger.participant?_eq_some.1 hx
  rw [Ledger.tournament?_eq_some.1 ht] at account
  cases account

theorem transfer_tournament {source destination authority : Pubkey} {amount : Nat}
    (ht : s.tournament? key = some t) (h : s.tokenTransfer source destination authority amount = .ok m) :
    m.tournament? key = some t := by
  obtain ⟨a, b, ha, hb, _, _, _, _, ⟨_, rfl⟩ | ⟨_, _, rfl⟩⟩ := Ledger.tokenTransfer_ok.1 h
  · exact ht
  · rw [set_tournament_other (token_apart ht hb), set_tournament_other (token_apart ht ha)]
    exact ht

theorem recast_logged (ht : s.tournament? key = some t) (x : Transfer) :
    (recast key status s).logged x = recast key status (s.logged x) := by
  have same : (s.logged x).tournament? key = some t := ht
  rw [recast_eq ht, recast_eq same]
  rfl

theorem recast_transfer (ht : s.tournament? key = some t) (source destination authority : Pubkey) (amount : Nat) :
    (recast key status s).tokenTransfer source destination authority amount =
      (s.tokenTransfer source destination authority amount).map (recast key status) := by
  simp only [Ledger.tokenTransfer, Ledger.loadToken, recast_token ht, map_bind]
  apply bind_ok_congr
  intro a ha
  apply bind_ok_congr
  intro b hb
  have source_apart : source ≠ key := token_apart ht ((orThrow_ok _ _ _).1 ha)
  have destination_apart : destination ≠ key := token_apart ht ((orThrow_ok _ _ _).1 hb)
  refine bind_ok_congr fun _ _ => bind_ok_congr fun _ _ => bind_ok_congr fun _ _ => bind_ok_congr fun _ _ => ?_
  have logged : (recast key status s).logged ⟨source, destination, b.owner, amount⟩ = recast key status _ :=
    recast_logged ht _
  simp only [Ledger.logged] at logged
  split
  · exact congrArg Except.ok logged
  · rw [map_bind]
    apply bind_ok_congr
    intro _ _
    have same : (s.logged ⟨source, destination, b.owner, amount⟩).tournament? key = some t := ht
    rw [logged]
    exact congrArg Except.ok (recast_set_set same source_apart destination_apart _ _).symm

theorem recast_refundPair (ht : s.tournament? key = some t₀) (t : Tournament) (pair : Pubkey × Pubkey) :
    refundPair key t (recast key status s) pair = (refundPair key t s pair).map (recast key status) := by
  simp only [refundPair, recast_readParticipant ht, map_bind]
  apply bind_ok_congr
  intro x hx
  have apart : pair.1 ≠ key := participant_apart ht (Ledger.readParticipant_ok.1 hx)
  refine bind_ok_congr fun _ _ => ?_
  split
  · rfl
  · simp only [Ledger.validateTokenAccount, recast_token ht, recast_transfer ht, map_bind, bind_map]
    refine bind_ok_congr fun _ _ => bind_ok_congr fun m hm => ?_
    exact congrArg Except.ok (recast_set (transfer_tournament ht hm) apart _).symm

theorem refundPair_tournament {pair : Pubkey × Pubkey} (ht : s.tournament? key = some t₀)
    (h : refundPair key t s pair = .ok m) : m.tournament? key = some t₀ := by
  simp only [refundPair, bind_ok, require_ok, ite_ok, pure_ok, Ledger.readParticipant_ok] at h
  obtain ⟨x, hx, _, _, ⟨_, rfl⟩ | ⟨_, _, _, s₁, h₁, rfl⟩⟩ := h
  · exact ht
  · rw [set_tournament_other (participant_apart ht hx)]
    exact transfer_tournament ht h₁

theorem recast_refundDeposit (ht : s.tournament? key = some t₀) (t : Tournament) (ata : Option Pubkey) :
    refundDeposit key { t with status := status } ata (recast key status s) =
      (refundDeposit key t ata s).map fun r => (recast key status r.1, { r.2 with status := status }) := by
  unfold refundDeposit
  split
  · cases ata with
    | none => rfl
    | some p =>
        simp only [Ledger.loadToken, recast_token ht, recast_transfer ht, map_bind, bind_map]
        rfl
  · rfl

theorem refundDeposit_record {ata : Option Pubkey} {t' : Tournament} (ht : s.tournament? key = some t₀)
    (h : refundDeposit key t ata s = .ok (m, t')) : m.tournament? key = some t₀ ∧ t'.status = t.status := by
  simp only [refundDeposit, ite_ok] at h
  rcases h with ⟨_, h⟩ | ⟨_, h⟩
  · cases ata with
    | none =>
        cases h
        exact ⟨ht, rfl⟩
    | some p =>
        simp only [bind_ok, pure_ok, Prod.mk.injEq] at h
        obtain ⟨_, _, _, _, _, _, s₁, h₁, rfl, rfl⟩ := h
        exact ⟨transfer_tournament ht h₁, rfl⟩
  · cases h
    exact ⟨ht, rfl⟩

theorem recast_refundChunk {c : CancelTournament} (ht : s.tournament? c.tournament = some t₀) (t : Tournament) :
    refundChunk c { t with status := status } (recast c.tournament status s) =
      (refundChunk c t s).map (recast c.tournament status) := by
  simp only [refundChunk, recast_refundDeposit ht, map_bind, bind_map]
  apply bind_ok_congr
  intro _ _
  apply bind_ok_congr
  rintro ⟨m, t'⟩ hm
  have record := (refundDeposit_record ht hm).1
  have pairs_same : each (refundPair c.tournament { t' with status := status }) (recast c.tournament status m)
      (pairs c.remainingAccounts) =
      (each (refundPair c.tournament t') m (pairs c.remainingAccounts)).map (recast c.tournament status) :=
    each_map (I := fun s => s.tournament? c.tournament = some t₀) (J := fun _ => True)
      (fun _ _ _ hs _ h => refundPair_tournament hs h) (fun _ _ hs _ => recast_refundPair hs t' _) record
      fun _ _ => trivial
  simp only [pairs_same, bind_map]
  apply bind_ok_congr
  intro r hr
  have written : (r.setAccount c.tournament (.tournament t')).tournament? c.tournament = some t' :=
    set_tournament _
  refine congrArg Except.ok ?_
  rw [recast_overwrite, recast_eq written, set_set]

theorem refundChunk_status {c : CancelTournament} (ht : s.tournament? c.tournament = some t₀)
    (h : refundChunk c t s = .ok m) : ∃ t', m.tournament? c.tournament = some t' ∧ t'.status = t.status := by
  simp only [refundChunk, bind_ok, pure_ok] at h
  obtain ⟨_, _, ⟨s₁, t₁⟩, h₁, s₂, _, rfl⟩ := h
  exact ⟨t₁, set_tournament _, (refundDeposit_record ht h₁).2⟩

/-- The ledger holds a cancelled tournament at `key`. -/
def Cancelled (key : Pubkey) (s : Ledger) : Prop := ∃ t, s.tournament? key = some t ∧ t.status = .cancelled

theorem cancel_cancelled {c : CancelTournament} (cancelled : Cancelled c.tournament s)
    (h : cancelTournament c s = .ok m) : Cancelled c.tournament m := by
  obtain ⟨t, ht, hst⟩ := cancelled
  simp only [cancelTournament, bind_ok, Ledger.loadTournament_ok] at h
  obtain ⟨t₁, ⟨ht₁, _⟩, _, _, _, _, _, _, t', hflip, h⟩ := h
  obtain rfl := Option.some.inj (ht.symm.trans ht₁)
  obtain rfl : t = t' := by simpa [flipCancelled, hst] using hflip
  obtain ⟨t', ht', hst'⟩ := refundChunk_status ht h
  exact ⟨t', ht', hst'.trans hst⟩

/-- On a called-off tournament the two refund instructions are the same but
for the status that they find. -/
theorem partialRefund_eq_cancel {c : CancelTournament} (cancelled : Cancelled c.tournament s) :
    partialRefundChunk c (recast c.tournament .partialCancelled s) =
      (cancelTournament c s).map (recast c.tournament .partialCancelled) := by
  obtain ⟨t, ht, hst⟩ := cancelled
  have loaded : (recast c.tournament .partialCancelled s).loadTournament c.tournament =
      (s.loadTournament c.tournament).map fun t => { t with status := .partialCancelled } := by
    simp only [Ledger.loadTournament, recast_tournament ht, ht, orThrow, map_bind]
    rfl
  simp only [partialRefundChunk, cancelTournament, loaded, bind_map, map_bind]
  apply bind_ok_congr
  intro t₁ h₁
  obtain rfl := Option.some.inj (ht.symm.trans (Ledger.loadTournament_ok.1 h₁).1)
  have vault : (recast c.tournament .partialCancelled s).loadVault c.tournament { t with status := .partialCancelled } =
      s.loadVault c.tournament t := by
    simp only [Ledger.loadVault, Ledger.loadToken, recast_token ht]
  have organizer : loadOrganizerToken (recast c.tournament .partialCancelled s) c.organizerTokenAccount =
      loadOrganizerToken s c.organizerTokenAccount := by
    unfold loadOrganizerToken
    split
    · rfl
    · simp only [Ledger.loadToken, recast_token ht]
  rw [vault, organizer]
  refine bind_ok_congr fun _ _ => bind_ok_congr fun _ _ => ?_
  have stage : t.status = .registration ∨ t.status = .pendingBracketInit ∨ t.status = .cancelled := .inr (.inr hst)
  simp only [flipCancelled, require, if_pos stage, if_pos hst]
  exact recast_refundChunk ht t

/-- So they stay in any sequence of calls. -/
theorem partialRefunds_eq_cancels {cs : List CancelTournament} (ht : s.tournament? key = some t)
    (home : ∀ c ∈ cs, c.tournament = key) :
    each (fun s c => partialRefundChunk c s) (recast key .partialCancelled s) cs =
      (each (fun s c => cancelTournament c s) (recast key .cancelled s) cs).map (recast key .partialCancelled) := by
  rw [← recast_recast ht .cancelled]
  refine each_map (I := Cancelled key) (J := fun c => c.tournament = key) ?_ ?_ ⟨_, recast_tournament ht, rfl⟩ home
  · rintro s c t cancelled rfl h
    exact cancel_cancelled cancelled h
  · rintro s c cancelled rfl
    exact partialRefund_eq_cancel cancelled

end BracketChain.Recast
