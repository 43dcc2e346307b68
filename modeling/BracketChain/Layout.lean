import BracketChain.Accounts

namespace BracketChain.Layout

open Outcome Keys Records Accounts

/-- An account lies where its own contents say. Tokens of a tournament lie in
its vault, which nobody has frozen, or at an address of someone's making. -/
def Account.fits (p : Pubkey) : Account → Prop
  | .system => True
  | .protocolConfig c => p = .protocolConfig ∧ c.authority.canSign = true
  | .tournament t => p = .tournament t.organizer t.name ∧ t.vault = .vault p ∧ t.organizer.canSign = true
  | .participant x =>
      p = .participant x.tournament x.wallet ∧ x.tournament.isTournament = true ∧ x.wallet.canSign = true
  | .matchNode m => p = .matchNode m.tournament m.slot ∧ m.tournament.isTournament = true
  | .token v => (∃ n, p = .key n) ∨ (p = .vault v.owner ∧ v.owner.isTournament = true ∧ v.frozen = false)
  | .mint | .zeroed | .foreign _ _ => ∃ n, p = .key n

def Wellformed (s : Ledger) : Prop := ∀ p, Account.fits p (s.accounts p)

theorem home_self {key : Pubkey} (hk : key.isTournament = true) : key.home = some key := by
  cases key <;> simp_all [Pubkey.isTournament, Pubkey.home]

theorem not_canSign_of_isTournament {key : Pubkey} (hk : key.isTournament = true) :
    key.canSign = false := by
  cases key <;> simp_all [Pubkey.isTournament, Pubkey.canSign]

section Reads

variable {s : Ledger} (wf : Wellformed s)
include wf

theorem record_fits {key : Pubkey} {t : Tournament} (h : s.tournament? key = some t) :
    key = .tournament t.organizer t.name ∧ t.vault = .vault key ∧ t.organizer.canSign = true := by
  simpa [Ledger.tournament?_eq_some.1 h, Account.fits] using wf key

theorem isTournament_of_record {key : Pubkey} {t : Tournament} (h : s.tournament? key = some t) :
    key.isTournament = true := by
  rw [(record_fits wf h).1, Pubkey.isTournament]

theorem participant_fits {p : Pubkey} {x : Participant} (h : s.participant? p = some x) :
    p = .participant x.tournament x.wallet ∧ x.tournament.isTournament = true ∧ x.wallet.canSign = true := by
  simpa [Ledger.participant?_eq_some.1 h, Account.fits] using wf p

theorem node_fits {p : Pubkey} {m : MatchNode} (h : s.matchNode? p = some m) :
    p = .matchNode m.tournament m.slot ∧ m.tournament.isTournament = true := by
  simpa [Ledger.matchNode?_eq_some.1 h, Account.fits] using wf p

theorem token_fits {p : Pubkey} {v : TokenAccount} (h : s.token? p = some v) :
    (∃ n, p = .key n) ∨ (p = .vault v.owner ∧ v.owner.isTournament = true ∧ v.frozen = false) := by
  simpa [Ledger.token?_eq_some.1 h, Account.fits] using wf p

theorem fits_amount {p : Pubkey} {v : TokenAccount} (h : s.token? p = some v) (n : Nat) :
    Account.fits p (.token { v with amount := n }) := by
  simpa [Account.fits] using token_fits wf h

theorem vault_owner {key : Pubkey} {v : TokenAccount} (h : s.token? (.vault key) = some v) :
    v.owner = key := by
  obtain ⟨n, hn⟩ | ⟨hp, _⟩ := token_fits wf h
  · cases hn
  · simpa [eq_comm] using hp

theorem vault_thawed {key : Pubkey} {v : TokenAccount} (h : s.token? (.vault key) = some v) :
    v.frozen = false := by
  obtain ⟨n, hn⟩ | ⟨_, _, thawed⟩ := token_fits wf h
  · cases hn
  · exact thawed

theorem token_of_signer {p : Pubkey} {v : TokenAccount} (h : s.token? p = some v)
    (ho : v.owner.canSign = true) : ∃ n, p = .key n := by
  obtain hn | ⟨_, hv, _⟩ := token_fits wf h
  · exact hn
  · simp [not_canSign_of_isTournament hv] at ho

end Reads

theorem wellformed_set {s : Ledger} (wf : Wellformed s) {p : Pubkey} {a : Account}
    (fit : Account.fits p a) : Wellformed (s.setAccount p a) := by
  intro q
  rw [Ledger.setAccount_accounts]
  split
  · subst q
    exact fit
  · exact wf q

theorem wellformed_of_accounts {s t : Ledger} (wf : Wellformed s) (h : t.accounts = s.accounts) :
    Wellformed t := by
  intro p
  rw [h]
  exact wf p

theorem wellformed_transfer {s s' : Ledger} (wf : Wellformed s) {source destination authority : Pubkey}
    {amount : Nat} (h : s.tokenTransfer source destination authority amount = .ok s') : Wellformed s' := by
  obtain ⟨a, b, ha, hb, _, _, _, _, ⟨_, rfl⟩ | ⟨_, _, rfl⟩⟩ := Ledger.tokenTransfer_ok.1 h
  · exact wellformed_of_accounts wf rfl
  · exact wellformed_set (wellformed_set (wellformed_of_accounts wf rfl) (fits_amount wf ha _))
      (fits_amount wf hb _)

end BracketChain.Layout
