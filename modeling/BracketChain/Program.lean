import BracketChain.Envelope
import BracketChain.Refunds
import BracketChain.Runs

namespace BracketChain.Program

open Outcome Keys Records Accounts Registration Start Settlement Envelope Refunds

structure InitializeProtocol where
  authority : Pubkey
  treasury : Pubkey
  defaultMint : Pubkey

def initializeProtocol (rt : Runtime) (a : InitializeProtocol) (s : Ledger) : Except Error Ledger := do
  loadMint s a.defaultMint
  s.initAccount rt a.authority .protocolConfig protocolConfigSpace (.protocolConfig {
    authority := a.authority
    treasury := a.treasury
    defaultMint := a.defaultMint
    feeBps := protocolFeeBps
    sasCredential := default
    sasSchemas := Vector.replicate 5 default
    switchboardQueue := default
    maxStaleSlots := 0
    minOracleSamples := 0 })

def updateConfig (authority : Pubkey) (f : ProtocolConfig → ProtocolConfig) (s : Ledger) :
    Except Error Ledger := do
  let c ← s.loadConfig
  require (authority = c.authority) .unauthorizedAuthority
  pure (s.setAccount .protocolConfig (.protocolConfig (f c)))

def setSasConfig (authority sasCredential : Pubkey) (sasSchemas : Vector Pubkey 5) (s : Ledger) :
    Except Error Ledger :=
  updateConfig authority (fun c => { c with sasCredential, sasSchemas }) s

def setOracleConfig (authority switchboardQueue : Pubkey) (maxStaleSlots minOracleSamples : Nat)
    (s : Ledger) : Except Error Ledger := do
  require (minOracleSamplesFloor ≤ minOracleSamples) .invalidOracleConfig
  require (maxStaleSlots ≤ maxOracleStaleSlotsCeiling) .invalidOracleConfig
  updateConfig authority (fun c => { c with switchboardQueue, maxStaleSlots, minOracleSamples }) s

/-- Calls to the program. An account whose address a seeds constraint pins is
left out of the call: no other account passes in its place. -/
inductive Instruction
  | initializeProtocol (a : InitializeProtocol)
  | setSasConfig (authority sasCredential : Pubkey) (sasSchemas : Vector Pubkey 5)
  | setOracleConfig (authority switchboardQueue : Pubkey) (maxStaleSlots minOracleSamples : Nat)
  | createTournament (a : CreateTournament)
  | joinTournament (a : JoinTournament)
  | requestSeed (a : RequestSeed)
  | revealSeed (a : RevealSeed)
  | startTournament (a : StartTournament)
  | proposeResult (a : MatchAccounts) (proposedWinner : Pubkey)
  | proposeResultOracle (a : MatchAccounts) (switchboardFeed : Pubkey)
  | disputeResult (a : MatchAccounts) (disputeReason : Nat)
  | commitMatchLobby (a : MatchAccounts) (lobbyId : Bytes16) (expectedFeedHash : Bytes32)
  | bindMatchFeed (a : MatchAccounts) (switchboardFeed : Pubkey)
  | reportResult (a : FinalizeAccounts) (winner : Pubkey) (placements : List Pubkey)
  | confirmResult (a : FinalizeAccounts) (placements : List Pubkey)
  | claimResult (a : FinalizeAccounts) (placements : List Pubkey)
  | forceClaimDisputed (a : FinalizeAccounts) (placements : List Pubkey)
  | resolveDispute (a : FinalizeAccounts) (winner : Pubkey) (placements : List Pubkey)
  | settleFinal (a : FinalizeAccounts) (placements : List Pubkey)
  | cancelTournament (a : CancelTournament)
  | partialCancelTournament (a : PartialCancel)
  | partialRefundChunk (a : CancelTournament)
  | closeTournament (a : CloseTournament)

namespace Instruction

def signer : Instruction → Pubkey
  | initializeProtocol a => a.authority
  | setSasConfig authority _ _ | setOracleConfig authority _ _ _ => authority
  | createTournament a => a.organizer
  | joinTournament a => a.player
  | requestSeed a | startTournament a => a.organizer
  | revealSeed a => a.payer
  | proposeResult a _ | proposeResultOracle a _ | disputeResult a _ | commitMatchLobby a _ _
  | bindMatchFeed a _ => a.signer
  | reportResult a _ _ | confirmResult a _ | claimResult a _ | forceClaimDisputed a _
  | resolveDispute a _ _ | settleFinal a _ => a.signer
  | cancelTournament a | partialRefundChunk a => a.caller
  | partialCancelTournament a => a.organizer
  | closeTournament a => a.caller

/-- Who pays for the accounts that a call opens. -/
def payer : Instruction → Option Pubkey
  | initializeProtocol a => some a.authority
  | createTournament a => some a.organizer
  | joinTournament a => some a.player
  | startTournament a => some a.organizer
  | _ => none

def tournament : Instruction → Option Pubkey
  | initializeProtocol _ | setSasConfig _ _ _ | setOracleConfig _ _ _ _ => none
  | createTournament a => some a.key
  | joinTournament a | requestSeed a | revealSeed a | startTournament a => some a.tournament
  | proposeResult a _ | proposeResultOracle a _ | disputeResult a _ | commitMatchLobby a _ _
  | bindMatchFeed a _ => some a.tournament
  | reportResult a _ _ | confirmResult a _ | claimResult a _ | forceClaimDisputed a _
  | resolveDispute a _ _ | settleFinal a _ => some a.tournament
  | cancelTournament a | partialRefundChunk a => some a.tournament
  | partialCancelTournament a => some a.tournament
  | closeTournament a => some a.tournament

/-- The bytes of the descriptor list, 70 for each descriptor. -/
def descriptorBytes : Instruction → Nat
  | startTournament a => 70 * a.descriptors.length
  | _ => 0

def run (rt : Runtime) : Instruction → Ledger → Except Error Ledger
  | initializeProtocol a => Program.initializeProtocol rt a
  | setSasConfig authority credential schemas => Program.setSasConfig authority credential schemas
  | setOracleConfig authority queue stale samples => Program.setOracleConfig authority queue stale samples
  | createTournament a => Registration.createTournament rt a
  | joinTournament a => Registration.joinTournament rt a
  | requestSeed a => Registration.requestSeed rt a
  | revealSeed a => Registration.revealSeed rt a
  | startTournament a => Start.startTournament rt a
  | proposeResult a winner => Envelope.proposeResult a winner
  | proposeResultOracle a feed => Envelope.proposeResultOracle rt a feed
  | disputeResult a reason => Envelope.disputeResult a reason
  | commitMatchLobby a lobby hash => Envelope.commitMatchLobby a lobby hash
  | bindMatchFeed a feed => Envelope.bindMatchFeed rt a feed
  | reportResult a winner placements => Settlement.reportResult a winner placements
  | confirmResult a placements => Settlement.confirmResult a placements
  | claimResult a placements => Settlement.claimResult a placements
  | forceClaimDisputed a placements => Settlement.forceClaimDisputed a placements
  | resolveDispute a winner placements => Settlement.resolveDispute a winner placements
  | settleFinal a placements => Settlement.settleFinal a placements
  | cancelTournament a => Refunds.cancelTournament a
  | partialCancelTournament a => Refunds.partialCancelTournament a
  | partialRefundChunk a => Refunds.partialRefundChunk a
  | closeTournament a => Refunds.closeTournament a

end Instruction

/-- What happens around the program: time passes, accounts at addresses of
its own making change at the will of other programs, and anyone may send
tokens or lamports to any address. A mint's authority may freeze a wallet's
token account, but no vault. -/
inductive Outside
  | clock (c : Clock)
  | slotHashes (data : List UInt8)
  | account (n : Nat) (a : Account)
  | sendTokens (p : Pubkey) (amount : Nat)
  | sendLamports (p : Pubkey) (amount : Nat)
  | spendLamports (n : Nat) (amount : Nat)

def Outside.run : Outside → Ledger → Except Error Ledger
  | clock c, s => .ok { s with clock := c }
  | slotHashes data, s => .ok { s with slotHashes := data }
  | account n a, s => do
      require (a.outside = true) .notAllowed
      pure (s.setAccount (.key n) a)
  | sendTokens p amount, s => do
      let v ← s.loadToken p
      require (v.amount + amount ≤ u64Max) .tokenOverflow
      pure (s.setAccount p (.token { v with amount := v.amount + amount }))
  | sendLamports p amount, s =>
      .ok { s with lamports := Function.update s.lamports p (s.lamports p + amount) }
  | spendLamports n amount, s =>
      .ok { s with lamports := Function.update s.lamports (.key n) (s.lamports (.key n) - amount) }

/-- The runtime passes at most 10 KiB of data to an instruction. -/
def maxInstructionData : Nat := 10240

inductive Action
  | call (ix : Instruction)
  | outside (e : Outside)

def Action.execute (rt : Runtime) : Action → Ledger → Except Error Ledger
  | call ix, s => do
      require (ix.signer.canSign = true) .missingSignature
      require (ix.descriptorBytes ≤ maxInstructionData) .notAllowed
      ix.run rt s
  | outside e, s => e.run s

/-- The account without data that an action may leave with too little for its
rent. What a call opens it funds, and what it closes goes to someone whole. -/
def Action.charged : Action → Option Pubkey
  | call ix => ix.payer
  | outside (.sendLamports p _) => some p
  | outside (.spendLamports n _) => some (.key n)
  | outside _ => none

/-- The rent rule of the runtime for an account without data: it ends empty,
or with the minimum balance, or no richer where it was below that before. -/
def RentAllows (minimum before after : Nat) : Prop :=
  after = 0 ∨ minimum ≤ after ∨ (after ≤ before ∧ before < minimum)

instance (minimum before after : Nat) : Decidable (RentAllows minimum before after) :=
  inferInstanceAs (Decidable (_ ∨ _))

/-- One step of the ledger. A failed call changes nothing, so only successful
ones are steps. -/
def Action.run (rt : Runtime) (b : Action) (s : Ledger) : Except Error Ledger := do
  let s' ← b.execute rt s
  require (∀ p ∈ b.charged, RentAllows (rt.minimumBalance 0) (s.lamports p) (s'.lamports p)) .insufficientFundsForRent
  pure s'

def Action.tournament : Action → Option Pubkey
  | call ix => ix.tournament
  | outside _ => none

def Step (rt : Runtime) (s : Ledger) (a : Action) (t : Ledger) : Prop := a.run rt s = .ok t

section Steps

variable {rt : Runtime} {s s' : Ledger} {b : Action}

theorem step_iff : Step rt s b s' ↔ b.execute rt s = .ok s' ∧
    ∀ p ∈ b.charged, RentAllows (rt.minimumBalance 0) (s.lamports p) (s'.lamports p) := by
  simp only [Step, Action.run, bind_ok, require_ok, pure_ok]
  constructor
  · rintro ⟨t, executed, _, allowed, rfl⟩
    exact ⟨executed, allowed⟩
  · rintro ⟨executed, allowed⟩
    exact ⟨s', executed, (), allowed, rfl⟩

theorem call_ran {ix : Instruction} (step : Step rt s (.call ix) s') :
    ix.signer.canSign = true ∧ ix.descriptorBytes ≤ maxInstructionData ∧ ix.run rt s = .ok s' := by
  have executed := (step_iff.1 step).1
  simp only [Action.execute, bind_ok, require_ok] at executed
  obtain ⟨_, signer, _, bytes, ran⟩ := executed
  exact ⟨signer, bytes, ran⟩

theorem outside_ran {e : Outside} (step : Step rt s (.outside e) s') : e.run s = .ok s' := (step_iff.1 step).1

theorem call_step {ix : Instruction} (signer : ix.signer.canSign = true)
    (bytes : ix.descriptorBytes ≤ maxInstructionData) (ran : ix.run rt s = .ok s')
    (allowed : ∀ p ∈ ix.payer, RentAllows (rt.minimumBalance 0) (s.lamports p) (s'.lamports p)) :
    Step rt s (.call ix) s' := by
  refine step_iff.2 ⟨?_, allowed⟩
  simp only [Action.execute, bind_ok, require_ok]
  exact ⟨(), signer, (), bytes, ran⟩

/-- A call that opens no account succeeds where its code does. -/
theorem unpaid_step {ix : Instruction} (unpaid : ix.payer = none) (signer : ix.signer.canSign = true)
    (ran : ix.run rt s = .ok s') : Step rt s (.call ix) s' := by
  have bytes : ix.descriptorBytes = 0 := by cases ix <;> first | rfl | cases unpaid
  exact call_step signer (by omega) ran (by simp [unpaid])

end Steps

/-- Before its first call the program owns no initialized account. -/
structure Genesis (s : Ledger) : Prop where
  derived : ∀ p, (∀ n, p ≠ .key n) → s.accounts p = .system
  outside : ∀ n, (s.accounts (.key n)).outside = true
  transfers : s.transfers = []

abbrev History := List (Ledger × Action)

abbrev Run (rt : Runtime) (start : Ledger) (past : History) (s : Ledger) : Prop :=
  Runs.Run (Step rt) start past s

def Reachable (rt : Runtime) (s : Ledger) : Prop :=
  ∃ start past, Genesis start ∧ Run rt start past s

end BracketChain.Program
