import BracketChain.Keys

namespace BracketChain.Records

open Keys

inductive SupportedGame
  | manual | dota2 | cs2Faceit | valorant | loL
deriving DecidableEq, Repr

inductive SettlementMode
  | organizerOnly | playerReported | oracle
deriving DecidableEq, Repr

inductive TournamentStatus
  | registration | pendingBracketInit | active | completed | cancelled | partialCancelled
deriving DecidableEq, Repr

inductive PayoutPreset
  | winnerTakesAll
  | standard
  | deep
  | custom (slots : Vector Nat 8)
deriving DecidableEq, Repr

structure Tournament where
  organizer : Pubkey
  name : List UInt8
  tokenMint : Pubkey
  vault : Pubkey
  entryFee : Nat
  organizerDeposit : Nat
  organizerDepositRefunded : Bool
  maxParticipants : Nat
  bracketSize : Nat
  participantCount : Nat
  matchesInitialized : Nat
  matchesReported : Nat
  totalMatches : Nat
  registrationDeadline : Int
  createdAt : Int
  startedAt : Int
  completedAt : Int
  status : TournamentStatus
  payoutPreset : PayoutPreset
  seedHash : Bytes32
  champion : Pubkey
  game : SupportedGame
  settlementMode : SettlementMode
  disputeWindowSecs : Nat
  vrfRandomnessAccount : Pubkey
  vrfCommitSlot : Nat
  seedRevealed : Bool
  arbitrator : Pubkey
deriving DecidableEq, Repr

inductive MatchStatus
  | pending | active | completed
deriving DecidableEq, Repr

inductive ProposalSource
  | none | player | oracle | gameServer
deriving DecidableEq, Repr

structure MatchCommitment where
  lobbyId : Bytes16
  playerAGameId : Bytes32
  playerBGameId : Bytes32
  expectedFeedHash : Bytes32
  committedAt : Int
  committedSlot : Nat
deriving DecidableEq, Repr

structure MatchNode where
  tournament : Pubkey
  bracket : Nat
  round : Nat
  matchIndex : Nat
  playerA : Pubkey
  playerB : Pubkey
  winner : Pubkey
  status : MatchStatus
  bye : Bool
  bump : Nat
  proposalSource : ProposalSource
  proposer : Pubkey
  proposedWinner : Pubkey
  proposedAt : Int
  claimDeadline : Int
  disputed : Bool
  disputeReason : Nat
  commitment : Option MatchCommitment
  switchboardFeed : Pubkey
deriving DecidableEq, Repr

def MatchNode.slot (m : MatchNode) : Slot := ⟨m.bracket, m.round, m.matchIndex, m.bump⟩

def MatchNode.hasPlayer (m : MatchNode) (p : Pubkey) : Prop := p = m.playerA ∨ p = m.playerB

instance (m : MatchNode) (p : Pubkey) : Decidable (m.hasPlayer p) :=
  inferInstanceAs (Decidable (_ ∨ _))

structure Participant where
  tournament : Pubkey
  wallet : Pubkey
  seedIndex : Nat
  refundPaid : Bool
  identityHash : Bytes32
  identityAttestation : Pubkey
  wins : Nat
  losses : Nat
  pointsFor : Nat
  pointsAgainst : Nat
deriving DecidableEq, Repr

structure ProtocolConfig where
  authority : Pubkey
  treasury : Pubkey
  defaultMint : Pubkey
  feeBps : Nat
  sasCredential : Pubkey
  sasSchemas : Vector Pubkey 5
  switchboardQueue : Pubkey
  maxStaleSlots : Nat
  minOracleSamples : Nat
deriving DecidableEq, Repr

/-- Sizes of the accounts, discriminator included. -/
def tournamentSpace : Nat := 8 + 356

def participantSpace : Nat := 8 + 142

def matchNodeSpace : Nat := 8 + 379

def protocolConfigSpace : Nat := 8 + 331

def tokenAccountSpace : Nat := 165

end BracketChain.Records
