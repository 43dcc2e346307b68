import BracketChain.Program
import BracketChain.Recording

namespace BracketChain.Events

open Outcome Keys Records Accounts Payout Registration Start Settlement Envelope Refunds Program Recording

/-- `EVENT_VERSION_V1`, which the first field of every event carries. -/
def eventVersionV1 : Nat := 1

structure TournamentCreated where
  eventVersion : Nat
  tournament : Pubkey
  organizer : Pubkey
  tokenMint : Pubkey
  entryFee : Nat
  organizerDeposit : Nat
  maxParticipants : Nat
  payoutPreset : Nat
  registrationDeadline : Int
  name : List UInt8
deriving DecidableEq, Repr

structure ParticipantRegistered where
  eventVersion : Nat
  tournament : Pubkey
  wallet : Pubkey
  participantIndex : Nat
deriving DecidableEq, Repr

structure TournamentStarted where
  eventVersion : Nat
  tournament : Pubkey
  bracketSize : Nat
  participantCount : Nat
  seedHash : Bytes32
  startedAt : Int
deriving DecidableEq, Repr

structure MatchReported where
  eventVersion : Nat
  tournament : Pubkey
  bracket : Nat
  round : Nat
  matchIndex : Nat
  winner : Pubkey
  reportedAt : Int
deriving DecidableEq, Repr

structure PlacementPayout where
  place : Nat
  recipient : Pubkey
  amount : Nat
deriving DecidableEq, Repr

structure TournamentCompleted where
  eventVersion : Nat
  tournament : Pubkey
  champion : Pubkey
  grossPool : Nat
  feeAmount : Nat
  netPool : Nat
  completedAt : Int
  placementPayouts : List PlacementPayout
  treasuryRecipient : Pubkey
deriving DecidableEq, Repr

structure TournamentCancelled where
  eventVersion : Nat
  tournament : Pubkey
  authority : Pubkey
  cancelledAt : Int
deriving DecidableEq, Repr

structure RefundIssued where
  eventVersion : Nat
  tournament : Pubkey
  wallet : Pubkey
  amount : Nat
deriving DecidableEq, Repr

structure ResultProposed where
  eventVersion : Nat
  tournament : Pubkey
  bracket : Nat
  round : Nat
  matchIndex : Nat
  source : Nat
  proposer : Pubkey
  proposedWinner : Pubkey
  claimDeadline : Int
  proposedAt : Int
deriving DecidableEq, Repr

structure ResultDisputed where
  eventVersion : Nat
  tournament : Pubkey
  bracket : Nat
  round : Nat
  matchIndex : Nat
  disputer : Pubkey
  disputeReason : Nat
  forceClaimDeadline : Int
  disputedAt : Int
deriving DecidableEq, Repr

structure ResultClaimed where
  eventVersion : Nat
  tournament : Pubkey
  bracket : Nat
  round : Nat
  matchIndex : Nat
  winner : Pubkey
  forced : Bool
  claimedAt : Int
deriving DecidableEq, Repr

structure DisputeResolved where
  eventVersion : Nat
  tournament : Pubkey
  bracket : Nat
  round : Nat
  matchIndex : Nat
  arbitrator : Pubkey
  winner : Pubkey
  resolvedAt : Int
deriving DecidableEq, Repr

structure MatchLobbyCommitted where
  eventVersion : Nat
  tournament : Pubkey
  bracket : Nat
  round : Nat
  matchIndex : Nat
  lobbyId : Bytes16
  committedAt : Int
deriving DecidableEq, Repr

structure MatchFeedBound where
  eventVersion : Nat
  tournament : Pubkey
  bracket : Nat
  round : Nat
  matchIndex : Nat
  switchboardFeed : Pubkey
deriving DecidableEq, Repr

structure TournamentPartiallyCancelled where
  eventVersion : Nat
  tournament : Pubkey
  authority : Pubkey
  cancelledAt : Int
deriving DecidableEq, Repr

structure TournamentClosed where
  eventVersion : Nat
  tournament : Pubkey
  accountsClosed : Nat
  rootClosed : Bool
deriving DecidableEq, Repr

structure FinalSettled where
  eventVersion : Nat
  tournament : Pubkey
  bracket : Nat
  round : Nat
  matchIndex : Nat
  arbitrator : Pubkey
  winner : Pubkey
  settledAt : Int
deriving DecidableEq, Repr

inductive Event
  | tournamentCreated (e : TournamentCreated)
  | participantRegistered (e : ParticipantRegistered)
  | tournamentStarted (e : TournamentStarted)
  | matchReported (e : MatchReported)
  | tournamentCompleted (e : TournamentCompleted)
  | tournamentCancelled (e : TournamentCancelled)
  | refundIssued (e : RefundIssued)
  | resultProposed (e : ResultProposed)
  | resultDisputed (e : ResultDisputed)
  | resultClaimed (e : ResultClaimed)
  | disputeResolved (e : DisputeResolved)
  | matchLobbyCommitted (e : MatchLobbyCommitted)
  | matchFeedBound (e : MatchFeedBound)
  | tournamentPartiallyCancelled (e : TournamentPartiallyCancelled)
  | tournamentClosed (e : TournamentClosed)
  | finalSettled (e : FinalSettled)
deriving DecidableEq, Repr

namespace Event

def eventVersion : Event → Nat
  | tournamentCreated e => e.eventVersion
  | participantRegistered e => e.eventVersion
  | tournamentStarted e => e.eventVersion
  | matchReported e => e.eventVersion
  | tournamentCompleted e => e.eventVersion
  | tournamentCancelled e => e.eventVersion
  | refundIssued e => e.eventVersion
  | resultProposed e => e.eventVersion
  | resultDisputed e => e.eventVersion
  | resultClaimed e => e.eventVersion
  | disputeResolved e => e.eventVersion
  | matchLobbyCommitted e => e.eventVersion
  | matchFeedBound e => e.eventVersion
  | tournamentPartiallyCancelled e => e.eventVersion
  | tournamentClosed e => e.eventVersion
  | finalSettled e => e.eventVersion

def tournament : Event → Pubkey
  | tournamentCreated e => e.tournament
  | participantRegistered e => e.tournament
  | tournamentStarted e => e.tournament
  | matchReported e => e.tournament
  | tournamentCompleted e => e.tournament
  | tournamentCancelled e => e.tournament
  | refundIssued e => e.tournament
  | resultProposed e => e.tournament
  | resultDisputed e => e.tournament
  | resultClaimed e => e.tournament
  | disputeResolved e => e.tournament
  | matchLobbyCommitted e => e.tournament
  | matchFeedBound e => e.tournament
  | tournamentPartiallyCancelled e => e.tournament
  | tournamentClosed e => e.tournament
  | finalSettled e => e.tournament

end Event

def payoutPresetDiscriminator : PayoutPreset → Nat
  | .winnerTakesAll => 0
  | .standard => 1
  | .deep => 2
  | .custom _ => 3

/-- `ProposalSource as u8`. -/
def sourceDiscriminant : ProposalSource → Nat
  | .none => 0
  | .player => 1
  | .oracle => 2
  | .gameServer => 3

/-- What a handler leaves, with the events it emits on the way. -/
abbrev Emitted (σ : Type) := σ × List Event

def opened (a : CreateTournament) : Event := .tournamentCreated {
  eventVersion := eventVersionV1
  tournament := a.key
  organizer := a.organizer
  tokenMint := a.tokenMint
  entryFee := a.entryFee
  organizerDeposit := a.organizerDeposit
  maxParticipants := a.maxParticipants
  payoutPreset := payoutPresetDiscriminator a.payoutPreset
  registrationDeadline := a.registrationDeadline
  name := a.name }

def emitCreated (rt : Runtime) (a : CreateTournament) (s : Ledger) : Except Error (Emitted Ledger) := do
  let s' ← createTournament rt a s
  pure (s', [opened a])

def registered (key wallet : Pubkey) (participantIndex : Nat) : Event := .participantRegistered {
  eventVersion := eventVersionV1
  tournament := key
  wallet := wallet
  participantIndex := participantIndex }

def emitRegistered (rt : Runtime) (a : JoinTournament) (s : Ledger) : Except Error (Emitted Ledger) := do
  let t ← s.loadTournament a.tournament
  let s' ← joinTournament rt a s
  pure (s', [registered a.tournament a.player t.participantCount])

def started (key : Pubkey) (t : Tournament) : Event := .tournamentStarted {
  eventVersion := eventVersionV1
  tournament := key
  bracketSize := t.bracketSize
  participantCount := t.participantCount
  seedHash := t.seedHash
  startedAt := t.startedAt }

/-- Of the chunks only the one that completes the bracket is announced. -/
def emitStarted (rt : Runtime) (a : StartTournament) (s : Ledger) : Except Error (Emitted Ledger) := do
  let s' ← startTournament rt a s
  let t ← orThrow (s'.tournament? a.tournament) .accountNotInitialized
  pure (s', if t.matchesInitialized = t.totalMatches then [started a.tournament t] else [])

section Envelope

/-- The events about the envelope of a match read the fields just written. -/
def proposed (m : MatchNode) : Event := .resultProposed {
  eventVersion := eventVersionV1
  tournament := m.tournament
  bracket := m.bracket
  round := m.round
  matchIndex := m.matchIndex
  source := sourceDiscriminant m.proposalSource
  proposer := m.proposer
  proposedWinner := m.proposedWinner
  claimDeadline := m.claimDeadline
  proposedAt := m.proposedAt }

def disputed (disputer : Pubkey) (now : Int) (m : MatchNode) : Event := .resultDisputed {
  eventVersion := eventVersionV1
  tournament := m.tournament
  bracket := m.bracket
  round := m.round
  matchIndex := m.matchIndex
  disputer := disputer
  disputeReason := m.disputeReason
  forceClaimDeadline := m.claimDeadline
  disputedAt := now }

def lobbyCommitted (lobbyId : Bytes16) (now : Int) (m : MatchNode) : Event := .matchLobbyCommitted {
  eventVersion := eventVersionV1
  tournament := m.tournament
  bracket := m.bracket
  round := m.round
  matchIndex := m.matchIndex
  lobbyId := lobbyId
  committedAt := now }

def feedBound (m : MatchNode) : Event := .matchFeedBound {
  eventVersion := eventVersionV1
  tournament := m.tournament
  bracket := m.bracket
  round := m.round
  matchIndex := m.matchIndex
  switchboardFeed := m.switchboardFeed }

/-- An edit of one match and the event about the match it leaves. -/
def emitEdit (a : MatchAccounts) (event : MatchNode → Event) (run : Ledger → Except Error Ledger) (s : Ledger) :
    Except Error (Emitted Ledger) := do
  let s' ← run s
  let m ← orThrow (s'.matchNode? a.matchAccount) .accountNotInitialized
  pure (s', [event m])

def emitProposed (a : MatchAccounts) (proposedWinner : Pubkey) : Ledger → Except Error (Emitted Ledger) :=
  emitEdit a proposed (proposeResult a proposedWinner)

def emitProposedOracle (rt : Runtime) (a : MatchAccounts) (switchboardFeed : Pubkey) :
    Ledger → Except Error (Emitted Ledger) :=
  emitEdit a proposed (proposeResultOracle rt a switchboardFeed)

def emitDisputed (a : MatchAccounts) (disputeReason : Nat) (s : Ledger) : Except Error (Emitted Ledger) :=
  emitEdit a (disputed a.signer s.clock.unixTimestamp) (disputeResult a disputeReason) s

def emitCommitted (a : MatchAccounts) (lobbyId : Bytes16) (expectedFeedHash : Bytes32) (s : Ledger) :
    Except Error (Emitted Ledger) :=
  emitEdit a (lobbyCommitted lobbyId s.clock.unixTimestamp) (commitMatchLobby a lobbyId expectedFeedHash) s

def emitBound (rt : Runtime) (a : MatchAccounts) (switchboardFeed : Pubkey) :
    Ledger → Except Error (Emitted Ledger) :=
  emitEdit a feedBound (bindMatchFeed rt a switchboardFeed)

end Envelope

section Finalizing

/-- What `distribute_prizes` returns: the pool, the fee, the rest, and what
was paid to whom. -/
structure Distribution where
  grossPool : Nat
  feeAmount : Nat
  netPool : Nat
  placementPayouts : List PlacementPayout

/-- One placement, with its index from zero. The place counts from one, as a
`u8`; a share of zero is passed over. -/
def emitPlacement (key mint : Pubkey) (s : Ledger) (item : (Nat × Pubkey × Pubkey) × Nat) :
    Except Error (Ledger × List PlacementPayout) :=
  let ((amount, recipient, account), i) := item
  if amount = 0 then .ok (s, [])
  else do
    s.validateTokenAccount account recipient mint
    let s' ← s.tokenTransfer (.vault key) account key amount
    pure (s', [⟨(i + 1) % 256, recipient, amount⟩])

def emitDistribution (s : Ledger) (key : Pubkey) (t : Tournament) (m : MatchNode) (treasury : Pubkey)
    (vault : TokenAccount) (remaining : List Pubkey) (winner : Pubkey) (placements : List Pubkey) :
    Except Error (Ledger × Distribution) := do
  let count := placementCount t.payoutPreset
  require (placements.length = count) .invalidPayoutPreset
  require (remaining.length = count + 1) .remainingAccountsMismatch
  checkPlacements m winner placements
  let fee := protocolFee vault.amount
  require (fee ≤ vault.amount) .arithmeticOverflow
  let amounts ← splitPlacements (vault.amount - fee) (basisPoints t.payoutPreset).toList count
  let (s, payouts) ← eachReporting (emitPlacement key t.tokenMint) s (amounts.zip (placements.zip remaining)).zipIdx
  let s ← payFee s key t.tokenMint treasury fee remaining[count]?
  pure (s, ⟨vault.amount, fee, vault.amount - fee, payouts⟩)

def report (key : Pubkey) (m : MatchNode) (winner : Pubkey) (now : Int) : MatchReported where
  eventVersion := eventVersionV1
  tournament := key
  bracket := m.bracket
  round := m.round
  matchIndex := m.matchIndex
  winner := winner
  reportedAt := now

def matchReported (key : Pubkey) (m : MatchNode) (winner : Pubkey) (now : Int) : Event :=
  .matchReported (report key m winner now)

def completion (key champion treasury : Pubkey) (d : Distribution) (now : Int) : TournamentCompleted where
  eventVersion := eventVersionV1
  tournament := key
  champion := champion
  grossPool := d.grossPool
  feeAmount := d.feeAmount
  netPool := d.netPool
  completedAt := now
  placementPayouts := d.placementPayouts
  treasuryRecipient := treasury

def tournamentCompleted (key champion treasury : Pubkey) (d : Distribution) (now : Int) : Event :=
  .tournamentCompleted (completion key champion treasury d now)

/-- `finalize_match` with its events. -/
def emitFinalized (s : Ledger) (key : Pubkey) (t : Tournament) (m : MatchNode) (next : Option MatchNode)
    (vault : TokenAccount) (treasury : Pubkey) (remaining : List Pubkey) (v : Verdict) :
    Except Error (Emitted Finalized) := do
  let now := s.clock.unixTimestamp
  require (t.status = .active) .notActive
  require (m.status = .active) .matchAlreadyReported
  require (m.hasPlayer v.winner) .nonParticipantWinner
  let count ← orThrow (checkedAdd u16Max t.matchesReported 1) .arithmeticOverflow
  let reported := matchReported key m v.winner now
  if isFinal t m then do
    require (v.placementsTrusted = true ∨ placementCount t.payoutPreset ≤ 1) .untrustedMultiPlacementFinal
    require (next.isNone = true) .invalidMatchIndex
    let (s', d) ← emitDistribution s key t m treasury vault remaining v.winner v.placements
    pure (⟨s', { t with
      matchesReported := count
      status := .completed
      champion := v.winner
      completedAt := now }, MatchNode.complete m v.winner, none⟩,
      [reported, tournamentCompleted key v.winner treasury d now])
  else do
    require (v.placements = []) .invalidPayoutPreset
    let next ← advanceWinner next key m v.winner
    pure (⟨s, { t with matchesReported := count }, MatchNode.complete m v.winner, some next⟩, [reported])

/-- A call around `finalize_match`: the events of the latter, then its own. -/
def emitFinalize (a : FinalizeAccounts) (verdict : MatchNode → Verdict) (closing : Pubkey → MatchNode → List Event)
    (run : Ledger → Except Error Ledger) (s : Ledger) : Except Error (Emitted Ledger) := do
  let l ← loadFinalize s a
  let s' ← run s
  let f ← emitFinalized s a.tournament l.t l.m l.next l.vault l.treasury a.remainingAccounts (verdict l.m)
  pure (s', f.2 ++ closing l.m.tournament l.m)

def resultClaimed (forced : Bool) (now : Int) (key : Pubkey) (m : MatchNode) : Event := .resultClaimed {
  eventVersion := eventVersionV1
  tournament := key
  bracket := m.bracket
  round := m.round
  matchIndex := m.matchIndex
  winner := m.proposedWinner
  forced := forced
  claimedAt := now }

def disputeResolved (arbitrator winner : Pubkey) (now : Int) (key : Pubkey) (m : MatchNode) :
    Event := .disputeResolved {
  eventVersion := eventVersionV1
  tournament := key
  bracket := m.bracket
  round := m.round
  matchIndex := m.matchIndex
  arbitrator := arbitrator
  winner := winner
  resolvedAt := now }

def finalSettled (arbitrator : Pubkey) (now : Int) (key : Pubkey) (m : MatchNode) : Event := .finalSettled {
  eventVersion := eventVersionV1
  tournament := key
  bracket := m.bracket
  round := m.round
  matchIndex := m.matchIndex
  arbitrator := arbitrator
  winner := m.proposedWinner
  settledAt := now }

def emitReport (a : FinalizeAccounts) (winner : Pubkey) (placements : List Pubkey) :
    Ledger → Except Error (Emitted Ledger) :=
  emitFinalize a (fun _ => ⟨winner, placements, true⟩) (fun _ _ => []) (reportResult a winner placements)

def emitConfirm (a : FinalizeAccounts) (placements : List Pubkey) : Ledger → Except Error (Emitted Ledger) :=
  emitFinalize a (fun m => ⟨m.proposedWinner, placements, false⟩) (fun _ _ => []) (confirmResult a placements)

def emitClaim (a : FinalizeAccounts) (placements : List Pubkey) (s : Ledger) : Except Error (Emitted Ledger) :=
  emitFinalize a (fun m => ⟨m.proposedWinner, placements, false⟩)
    (fun key m => [resultClaimed false s.clock.unixTimestamp key m]) (claimResult a placements) s

def emitForceClaim (a : FinalizeAccounts) (placements : List Pubkey) (s : Ledger) : Except Error (Emitted Ledger) :=
  emitFinalize a (fun m => ⟨m.proposedWinner, placements, false⟩)
    (fun key m => [resultClaimed true s.clock.unixTimestamp key m]) (forceClaimDisputed a placements) s

def emitResolve (a : FinalizeAccounts) (winner : Pubkey) (placements : List Pubkey) (s : Ledger) :
    Except Error (Emitted Ledger) :=
  emitFinalize a (fun _ => ⟨winner, placements, true⟩)
    (fun key m => [disputeResolved a.signer winner s.clock.unixTimestamp key m]) (resolveDispute a winner placements) s

def emitSettleFinal (a : FinalizeAccounts) (placements : List Pubkey) (s : Ledger) : Except Error (Emitted Ledger) :=
  emitFinalize a (fun m => ⟨m.proposedWinner, placements, true⟩)
    (fun key m => [finalSettled a.signer s.clock.unixTimestamp key m]) (settleFinal a placements) s

end Finalizing

section Refunding

def refundIssued (key wallet : Pubkey) (amount : Nat) : Event := .refundIssued {
  eventVersion := eventVersionV1
  tournament := key
  wallet := wallet
  amount := amount }

/-- A participant that was paid before is passed over without an event. -/
def emitRefundPair (key : Pubkey) (t : Tournament) (s : Ledger) (pair : Pubkey × Pubkey) :
    Except Error (Emitted Ledger) := do
  let p ← s.readParticipant pair.1 .invalidMatchIndex
  let s' ← refundPair key t s pair
  pure (s', if p.refundPaid = true then [] else [refundIssued key p.wallet t.entryFee])

def emitRefundDeposit (key : Pubkey) (t : Tournament) (organizerTokenAccount : Option Pubkey) (s : Ledger) :
    Except Error (Emitted (Ledger × Tournament)) := do
  let st ← refundDeposit key t organizerTokenAccount s
  pure (st, if 0 < t.organizerDeposit ∧ t.organizerDepositRefunded = false ∧ organizerTokenAccount.isSome = true
    then [refundIssued key t.organizer t.organizerDeposit] else [])

def emitRefundChunk (a : CancelTournament) (t : Tournament) (s : Ledger) : Except Error (Emitted Ledger) := do
  require (a.remainingAccounts.length % 2 = 0) .remainingAccountsMismatch
  let ((s, t), first) ← emitRefundDeposit a.tournament t a.organizerTokenAccount s
  let (s, rest) ← eachReporting (emitRefundPair a.tournament t) s (pairs a.remainingAccounts)
  pure (s.setAccount a.tournament (.tournament t), first ++ rest)

def cancelled (key authority : Pubkey) (now : Int) : Event := .tournamentCancelled {
  eventVersion := eventVersionV1
  tournament := key
  authority := authority
  cancelledAt := now }

/-- Only the call that flips the status is announced. -/
def emitCancel (a : CancelTournament) (s : Ledger) : Except Error (Emitted Ledger) := do
  let t ← s.loadTournament a.tournament
  let _ ← s.loadVault a.tournament t
  loadOrganizerToken s a.organizerTokenAccount
  require (t.status = .registration ∨ t.status = .pendingBracketInit ∨ t.status = .cancelled)
    .tournamentInProgress
  let flipped ← flipCancelled a t
  let (s', refunds) ← emitRefundChunk a flipped s
  pure (s', (if t.status = .cancelled then [] else [cancelled a.tournament a.caller s.clock.unixTimestamp]) ++ refunds)

def emitPartialRefund (a : CancelTournament) (s : Ledger) : Except Error (Emitted Ledger) := do
  let t ← s.loadTournament a.tournament
  let _ ← s.loadVault a.tournament t
  loadOrganizerToken s a.organizerTokenAccount
  require (t.status = .partialCancelled) .tournamentInProgress
  emitRefundChunk a t s

def partiallyCancelled (key authority : Pubkey) (now : Int) : Event := .tournamentPartiallyCancelled {
  eventVersion := eventVersionV1
  tournament := key
  authority := authority
  cancelledAt := now }

def emitPartialCancel (a : PartialCancel) (s : Ledger) : Except Error (Emitted Ledger) := do
  let s' ← partialCancelTournament a s
  pure (s', [partiallyCancelled a.tournament a.organizer s.clock.unixTimestamp])

def tournamentClosed (key : Pubkey) (accountsClosed : Nat) (rootClosed : Bool) : Event := .tournamentClosed {
  eventVersion := eventVersionV1
  tournament := key
  accountsClosed := accountsClosed
  rootClosed := rootClosed }

/-- A child that is gone already is not counted. -/
def emitCloseChild (key organizer : Pubkey) (s : Ledger) (child : Pubkey) : Except Error (Ledger × List Pubkey) := do
  let s' ← closeChild key organizer s child
  pure (s', if s.lamports child = 0 then [] else [child])

def emitClose (a : CloseTournament) (s : Ledger) : Except Error (Emitted Ledger) := do
  let s' ← closeTournament a s
  let (_, closed) ← eachReporting (emitCloseChild a.tournament a.organizer) s a.remainingAccounts
  pure (s', [tournamentClosed a.tournament closed.length a.closeRoot])

end Refunding

def Instruction.emit (rt : Runtime) : Instruction → Ledger → Except Error (Emitted Ledger)
  | .createTournament a => emitCreated rt a
  | .joinTournament a => emitRegistered rt a
  | .startTournament a => emitStarted rt a
  | .proposeResult a winner => emitProposed a winner
  | .proposeResultOracle a feed => emitProposedOracle rt a feed
  | .disputeResult a reason => emitDisputed a reason
  | .commitMatchLobby a lobby hash => emitCommitted a lobby hash
  | .bindMatchFeed a feed => emitBound rt a feed
  | .reportResult a winner placements => emitReport a winner placements
  | .confirmResult a placements => emitConfirm a placements
  | .claimResult a placements => emitClaim a placements
  | .forceClaimDisputed a placements => emitForceClaim a placements
  | .resolveDispute a winner placements => emitResolve a winner placements
  | .settleFinal a placements => emitSettleFinal a placements
  | .cancelTournament a => emitCancel a
  | .partialCancelTournament a => emitPartialCancel a
  | .partialRefundChunk a => emitPartialRefund a
  | .closeTournament a => emitClose a
  | ix => fun s => (ix.run rt s).map fun s' => (s', [])

end BracketChain.Events
