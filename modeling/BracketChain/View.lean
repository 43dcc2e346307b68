import BracketChain.Layout

namespace BracketChain.View

open Outcome Keys Records Accounts Layout

/-- The part of the ledger that one tournament is about: its record, the
accounts of its participants by wallet and of its matches by slot, its vault,
and the payments made from the vault. -/
@[ext]
structure TournamentView where
  record : Option Tournament
  participant : Pubkey → Option Participant
  node : Slot → Option MatchNode
  vault : Option TokenAccount
  paid : List (Pubkey × Nat)

def paymentsOf (key : Pubkey) (transfers : List Transfer) : List (Pubkey × Nat) :=
  (transfers.filter fun x => x.source = .vault key).map fun x => (x.recipient, x.amount)

def viewOf (s : Ledger) (key : Pubkey) : TournamentView where
  record := s.tournament? key
  participant w := s.participant? (.participant key w)
  node slot := s.matchNode? (.matchNode key slot)
  vault := s.token? (.vault key)
  paid := paymentsOf key s.transfers

def TokenAccount.plus (v : TokenAccount) (k : Nat) : TokenAccount := { v with amount := v.amount + k }

def TokenAccount.minus (v : TokenAccount) (k : Nat) : TokenAccount := { v with amount := v.amount - k }

/-- The view after someone else moved `k` tokens into the vault. -/
def TournamentView.credit (v : TournamentView) (k : Nat) : TournamentView :=
  { v with vault := v.vault.map fun u => TokenAccount.plus u k }

@[simp] theorem credit_zero (v : TournamentView) : v.credit 0 = v := by
  cases v with
  | mk record participant node vault paid => cases vault <;> rfl

theorem credit_credit (v : TournamentView) (j k : Nat) : (v.credit j).credit k = v.credit (j + k) := by
  cases v with
  | mk record participant node vault paid =>
      cases vault <;> simp [TournamentView.credit, TokenAccount.plus, Nat.add_assoc]

theorem ne_of_isTournament {key p : Pubkey} (hk : key.isTournament = true) (hp : p.isTournament = false) :
    key ≠ p := by
  rintro rfl
  exact Bool.false_ne_true (hp.symm.trans hk)

theorem participant_real {s : Ledger} (wf : Wellformed s) {key w : Pubkey}
    (h : ((viewOf s key).participant w).isSome = true) : w ≠ default := by
  obtain ⟨x, hx⟩ := Option.isSome_iff_exists.1 h
  obtain ⟨address, _, signer⟩ := participant_fits wf (p := .participant key w) hx
  exact (Pubkey.participant.inj address).2 ▸ ne_default_of_canSign signer

section Updates

variable {s t : Ledger} {key : Pubkey}

theorem viewOf_congr (hk : key.isTournament = true) (ha : ∀ p, p.home = some key → t.accounts p = s.accounts p)
    (ht : t.transfers = s.transfers) : viewOf t key = viewOf s key := by
  have hr := ha key (home_self hk)
  have hp w := ha (.participant key w) rfl
  have hn slot := ha (.matchNode key slot) rfl
  have hv := ha (.vault key) rfl
  simp [viewOf, Ledger.tournament?, Ledger.participant?, Ledger.matchNode?, Ledger.token?, hr, hp, hn, hv, ht]

theorem viewOf_set_other (hk : key.isTournament = true) {p : Pubkey} (hp : p.home ≠ some key) (a : Account) :
    viewOf (s.setAccount p a) key = viewOf s key := by
  refine viewOf_congr hk (fun q hq => ?_) rfl
  rw [Ledger.setAccount_accounts, if_neg]
  rintro rfl
  exact hp hq

theorem viewOf_set_record (hk : key.isTournament = true) (a : Account) :
    viewOf (s.setAccount key a) key = { viewOf s key with record := a.asTournament } := by
  have hp w : key ≠ .participant key w := ne_of_isTournament hk rfl
  have hn slot : key ≠ .matchNode key slot := ne_of_isTournament hk rfl
  have hv : key ≠ .vault key := ne_of_isTournament hk rfl
  simp [viewOf, Ledger.tournament?, Ledger.participant?, Ledger.matchNode?, Ledger.token?,
    Ledger.setAccount_accounts, (hp _).symm, (hn _).symm, hv.symm]

theorem viewOf_set_participant (hk : key.isTournament = true) (w : Pubkey) (a : Account) :
    viewOf (s.setAccount (.participant key w) a) key =
      { viewOf s key with participant := Function.update (viewOf s key).participant w a.asParticipant } := by
  have hp : key ≠ .participant key w := ne_of_isTournament hk rfl
  ext1
  case participant =>
    funext q
    by_cases hq : q = w <;> simp [viewOf, Ledger.participant?, Ledger.setAccount_accounts, hq]
  all_goals simp [viewOf, Ledger.tournament?, Ledger.matchNode?, Ledger.token?, Ledger.setAccount_accounts, hp]

theorem viewOf_set_node (hk : key.isTournament = true) (slot : Slot) (a : Account) :
    viewOf (s.setAccount (.matchNode key slot) a) key =
      { viewOf s key with node := Function.update (viewOf s key).node slot a.asMatchNode } := by
  have hp : key ≠ .matchNode key slot := ne_of_isTournament hk rfl
  ext1
  case node =>
    funext q
    by_cases hq : q = slot <;> simp [viewOf, Ledger.matchNode?, Ledger.setAccount_accounts, hq]
  all_goals simp [viewOf, Ledger.tournament?, Ledger.participant?, Ledger.token?, Ledger.setAccount_accounts, hp]

theorem viewOf_set_vault (hk : key.isTournament = true) (a : Account) :
    viewOf (s.setAccount (.vault key) a) key = { viewOf s key with vault := a.asToken } := by
  have hp : key ≠ .vault key := ne_of_isTournament hk rfl
  simp [viewOf, Ledger.tournament?, Ledger.participant?, Ledger.matchNode?, Ledger.token?,
    Ledger.setAccount_accounts, hp]

theorem viewOf_logged_own (x : Transfer) (h : x.source = .vault key) :
    viewOf (s.logged x) key = { viewOf s key with paid := (viewOf s key).paid ++ [(x.recipient, x.amount)] } := by
  simp [viewOf, Ledger.logged, paymentsOf, h, Ledger.tournament?, Ledger.participant?, Ledger.matchNode?,
    Ledger.token?]

theorem viewOf_logged_other (x : Transfer) (h : x.source ≠ .vault key) :
    viewOf (s.logged x) key = viewOf s key := by
  simp [viewOf, Ledger.logged, paymentsOf, h, Ledger.tournament?, Ledger.participant?, Ledger.matchNode?,
    Ledger.token?]

end Updates

end BracketChain.View
