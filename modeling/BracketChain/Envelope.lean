import BracketChain.Registration
import BracketChain.Settlement

namespace BracketChain.Envelope

open Outcome Keys Records Accounts Registration

structure MatchAccounts where
  signer : Pubkey
  tournament : Pubkey
  matchAccount : Pubkey

/-- A proposal as `propose_result` and `propose_result_oracle` record it. -/
def MatchNode.propose (m : MatchNode) (source : ProposalSource) (proposer winner : Pubkey)
    (now deadline : Int) : MatchNode :=
  { m with
    proposalSource := source
    proposer := proposer
    proposedWinner := winner
    proposedAt := now
    claimDeadline := deadline
    disputed := false
    disputeReason := 0 }

def deadlineAfter (now span : Int) : Except Error Int := do
  require (now + span ≤ i64Max) .arithmeticOverflow
  pure (now + span)

def proposeResult (a : MatchAccounts) (proposedWinner : Pubkey) (s : Ledger) : Except Error Ledger := do
  let t ← s.loadTournament a.tournament
  let m ← s.loadMatch a.tournament a.matchAccount
  require (t.settlementMode ≠ .organizerOnly) .settlementModeMismatch
  require (m.status = .active) .matchAlreadyReported
  require (m.proposalSource = .none) .proposalAlreadyExists
  require (m.hasPlayer a.signer) .notPlayerInMatch
  require (m.hasPlayer proposedWinner) .invalidProposedWinner
  let now := s.clock.unixTimestamp
  let deadline ← deadlineAfter now t.disputeWindowSecs
  pure (s.setAccount a.matchAccount
    (.matchNode (MatchNode.propose m .player a.signer proposedWinner now deadline)))

/-- `Decimal::to_u64` truncates toward zero and rejects negative values and
values past `u64`. A decimal is its mantissa and its scale. -/
def decimalToU64 (value : Int × Nat) : Option Nat :=
  if value.1 < 0 then none
  else
    let n := value.1.toNat / 10 ^ value.2
    if n ≤ u64Max then some n else none

def resolveOracleWinner (value : Int × Nat) (playerA playerB : Pubkey) : Except Error Pubkey :=
  match decimalToU64 value with
  | some 0 => .ok playerA
  | some 1 => .ok playerB
  | _ => .error .oracleWinnerNotInMatch

/-- The raw bytes of an account passed without constraints. Accounts that are
not Switchboard's hold nothing its parsers accept. -/
def foreignData (s : Ledger) (p : Pubkey) : List UInt8 :=
  match s.loadForeign p with
  | some (_, data) => data
  | none => []

def proposeResultOracle (rt : Runtime) (a : MatchAccounts) (switchboardFeed : Pubkey) (s : Ledger) :
    Except Error Ledger := do
  let t ← s.loadTournament a.tournament
  let m ← s.loadMatch a.tournament a.matchAccount
  let cfg ← s.loadConfig
  require (t.settlementMode = .oracle) .settlementModeMismatch
  require (m.status = .active) .matchAlreadyReported
  require (m.proposalSource = .none) .proposalAlreadyExists
  require (m.commitment.isSome = true) .matchNotCommitted
  require (switchboardFeed = m.switchboardFeed) .wrongFeedAccount
  let feed ← orThrow (rt.parseFeed (foreignData s switchboardFeed)) .wrongFeedAccount
  let value ← orThrow (feed.getValue s.clock.slot cfg.maxStaleSlots cfg.minOracleSamples false)
    .oracleWinnerNotInMatch
  let winner ← resolveOracleWinner value m.playerA m.playerB
  let now := s.clock.unixTimestamp
  let deadline ← deadlineAfter now t.disputeWindowSecs
  pure (s.setAccount a.matchAccount
    (.matchNode (MatchNode.propose m .oracle a.signer winner now deadline)))

/-- Who may dispute depends on where the proposal comes from. -/
def checkDisputer (t : Tournament) (m : MatchNode) (disputer : Pubkey) : Except Error Unit :=
  match m.proposalSource with
  | .player => require (m.hasPlayer disputer ∧ disputer ≠ m.proposer) .notCounterparty
  | .oracle => require (m.hasPlayer disputer ∨ disputer = t.arbitrator) .notAuthorized
  | _ => .error .badProposalSource

def MatchNode.dispute (m : MatchNode) (reason : Nat) (deadline : Int) : MatchNode :=
  { m with disputed := true, disputeReason := reason, claimDeadline := deadline }

def disputeResult (a : MatchAccounts) (disputeReason : Nat) (s : Ledger) : Except Error Ledger := do
  let t ← s.loadTournament a.tournament
  let m ← s.loadMatch a.tournament a.matchAccount
  require (m.proposalSource ≠ .none) .noProposal
  require (m.disputed = false) .proposalDisputed
  checkDisputer t m a.signer
  let deadline ← deadlineAfter s.clock.unixTimestamp forceClaimWindowSecs
  pure (s.setAccount a.matchAccount (.matchNode (MatchNode.dispute m disputeReason deadline)))

def commitMatchLobby (a : MatchAccounts) (lobbyId : Bytes16) (expectedFeedHash : Bytes32) (s : Ledger) :
    Except Error Ledger := do
  let t ← s.loadTournament a.tournament
  require (a.signer = t.organizer) .unauthorizedAuthority
  let m ← s.loadMatch a.tournament a.matchAccount
  let pa ← s.loadParticipant a.tournament m.playerA
  let pb ← s.loadParticipant a.tournament m.playerB
  require (t.settlementMode = .oracle) .settlementModeMismatch
  require (t.status = .active) .notActive
  require (m.status = .active) .matchAlreadyReported
  require (m.commitment.isNone = true) .matchAlreadyCommitted
  pure (s.setAccount a.matchAccount (.matchNode { m with
    commitment := some ⟨lobbyId, pa.identityHash, pb.identityHash, expectedFeedHash,
      s.clock.unixTimestamp, s.clock.slot⟩ }))

def bindMatchFeed (rt : Runtime) (a : MatchAccounts) (switchboardFeed : Pubkey) (s : Ledger) :
    Except Error Ledger := do
  let t ← s.loadTournament a.tournament
  require (a.signer = t.organizer) .unauthorizedAuthority
  let m ← s.loadMatch a.tournament a.matchAccount
  let cfg ← s.loadConfig
  let commitment ← orThrow m.commitment .matchNotCommitted
  let (owner, data) ← orThrow (s.loadForeign switchboardFeed) .wrongFeedAccount
  require (ownedBySwitchboard owner) .wrongFeedAccount
  let feed ← orThrow (rt.parseFeed data) .wrongFeedAccount
  require (feed.queue = cfg.switchboardQueue) .wrongFeedAccount
  require (feed.feedHash = commitment.expectedFeedHash) .wrongFeedAccount
  pure (s.setAccount a.matchAccount (.matchNode { m with switchboardFeed := switchboardFeed }))

end BracketChain.Envelope
