import BracketChain.Accounts

namespace BracketChain.Refunds

open Outcome Keys Records Accounts

structure CancelTournament where
  caller : Pubkey
  tournament : Pubkey
  organizerTokenAccount : Option Pubkey
  remainingAccounts : List Pubkey

/-- `chunks(2)` of an account list of even length. -/
def pairs : List Pubkey → List (Pubkey × Pubkey)
  | p :: ata :: rest => (p, ata) :: pairs rest
  | _ => []

def Participant.refunded (p : Participant) : Participant := { p with refundPaid := true }

/-- One pass of the refund loop: pay a participant that was not paid yet. -/
def refundPair (key : Pubkey) (t : Tournament) (s : Ledger) (pair : Pubkey × Pubkey) :
    Except Error Ledger := do
  let p ← s.readParticipant pair.1 .invalidMatchIndex
  require (p.tournament = key) .invalidMatchIndex
  if p.refundPaid = true then pure s
  else do
    s.validateTokenAccount pair.2 p.wallet t.tokenMint
    let s ← s.tokenTransfer (.vault key) pair.2 key t.entryFee
    pure (s.setAccount pair.1 (.participant (Participant.refunded p)))

def Tournament.depositReturned (t : Tournament) : Tournament := { t with organizerDepositRefunded := true }

/-- Return the deposit once, on a call that supplies the organizer's account. -/
def refundDeposit (key : Pubkey) (t : Tournament) (organizerTokenAccount : Option Pubkey) (s : Ledger) :
    Except Error (Ledger × Tournament) :=
  if 0 < t.organizerDeposit ∧ t.organizerDepositRefunded = false then
    match organizerTokenAccount with
    | none => .ok (s, t)
    | some ata => do
        let v ← s.loadToken ata
        require (v.mint = t.tokenMint) .invalidTokenMint
        require (v.owner = t.organizer) .unauthorizedAuthority
        let s ← s.tokenTransfer (.vault key) ata key t.organizerDeposit
        pure (s, Tournament.depositReturned t)
  else .ok (s, t)

/-- Anchor loads the organizer's token account whenever it is supplied. -/
def loadOrganizerToken (s : Ledger) : Option Pubkey → Except Error Unit
  | none => .ok ()
  | some p => do
      let _ ← s.loadToken p
      pure ()

/-- The part that `cancel_tournament` and `partial_refund_chunk` share: the
deposit, then one refund for each pair of accounts. -/
def refundChunk (a : CancelTournament) (t : Tournament) (s : Ledger) : Except Error Ledger := do
  require (a.remainingAccounts.length % 2 = 0) .remainingAccountsMismatch
  let (s, t) ← refundDeposit a.tournament t a.organizerTokenAccount s
  let s ← each (refundPair a.tournament t) s (pairs a.remainingAccounts)
  pure (s.setAccount a.tournament (.tournament t))

/-- The status after a call to `cancel_tournament`: only the organizer may
flip it, anyone may continue a cancellation. -/
def flipCancelled (a : CancelTournament) (t : Tournament) : Except Error Tournament :=
  if t.status = .cancelled then .ok t
  else do
    require (a.caller = t.organizer) .unauthorizedAuthority
    pure { t with status := .cancelled }

def cancelTournament (a : CancelTournament) (s : Ledger) : Except Error Ledger := do
  let t ← s.loadTournament a.tournament
  let _ ← s.loadVault a.tournament t
  loadOrganizerToken s a.organizerTokenAccount
  require (t.status = .registration ∨ t.status = .pendingBracketInit ∨ t.status = .cancelled)
    .tournamentInProgress
  let t ← flipCancelled a t
  refundChunk a t s

def partialRefundChunk (a : CancelTournament) (s : Ledger) : Except Error Ledger := do
  let t ← s.loadTournament a.tournament
  let _ ← s.loadVault a.tournament t
  loadOrganizerToken s a.organizerTokenAccount
  require (t.status = .partialCancelled) .tournamentInProgress
  refundChunk a t s

structure PartialCancel where
  organizer : Pubkey
  tournament : Pubkey

def partialCancelTournament (a : PartialCancel) (s : Ledger) : Except Error Ledger := do
  let t ← s.loadTournament a.tournament
  require (a.organizer = t.organizer) .unauthorizedAuthority
  require (t.status = .active) .tournamentInProgress
  pure (s.setAccount a.tournament (.tournament { t with status := .partialCancelled }))

structure CloseTournament where
  caller : Pubkey
  tournament : Pubkey
  organizer : Pubkey
  closeRoot : Bool
  remainingAccounts : List Pubkey

/-- Bytes 8 to 40 of an account of this program. -/
def embeddedKey : Account → Option Pubkey
  | .protocolConfig c => some c.authority
  | .tournament t => some t.organizer
  | .participant p => some p.tournament
  | .matchNode m => some m.tournament
  | .zeroed => some default
  | _ => none

/-- One pass of the child loop. An account without lamports is closed already. -/
def closeChild (key organizer : Pubkey) (s : Ledger) (child : Pubkey) : Except Error Ledger :=
  if s.lamports child = 0 then .ok s
  else do
    require ((s.accounts child).programOwned = true) .invalidMatchIndex
    let embedded ← orThrow (embeddedKey (s.accounts child)) .invalidMatchIndex
    require (embedded = key) .invalidMatchIndex
    require (s.lamports organizer + s.lamports child ≤ u64Max) .arithmeticOverflow
    pure (s.drainAccount child organizer)

/-- Close the empty vault and the tournament itself. -/
def closeRoot (key organizer : Pubkey) (vault : TokenAccount) (s : Ledger) : Except Error Ledger := do
  require (vault.amount = 0) .tournamentInProgress
  pure ((s.drainAccount (.vault key) organizer).drainAccount key organizer)

def terminal (status : TournamentStatus) : Prop :=
  status = .completed ∨ status = .cancelled ∨ status = .partialCancelled

instance (status : TournamentStatus) : Decidable (terminal status) := inferInstanceAs (Decidable (_ ∨ _))

def closeTournament (a : CloseTournament) (s : Ledger) : Except Error Ledger := do
  let t ← s.loadTournament a.tournament
  require (a.organizer = t.organizer) .unauthorizedAuthority
  require ((s.accounts a.organizer).isSystem = true) .constraintAddress
  let vault ← s.loadVault a.tournament t
  require (terminal t.status) .tournamentInProgress
  let swept ← each (closeChild a.tournament a.organizer) s a.remainingAccounts
  if a.closeRoot = true then do
    -- at the call of the token program the runtime has seen what the organizer
    -- gained, but not yet the children that lost it
    require (swept.lamports a.organizer = s.lamports a.organizer) .unbalancedInstruction
    closeRoot a.tournament a.organizer vault swept
  else pure swept

end BracketChain.Refunds
