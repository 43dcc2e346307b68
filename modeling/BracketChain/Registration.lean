import BracketChain.Accounts
import BracketChain.Payout
import Mathlib.Algebra.Ring.Int.Defs

namespace BracketChain.Registration

open Outcome Keys Records Accounts Payout

structure CreateTournament where
  organizer : Pubkey
  tokenMint : Pubkey
  organizerTokenAccount : Option Pubkey
  name : List UInt8
  entryFee : Nat
  maxParticipants : Nat
  payoutPreset : PayoutPreset
  registrationDeadline : Int
  organizerDeposit : Nat
  game : SupportedGame
  settlementMode : SettlementMode
  disputeWindowSecs : Nat

def CreateTournament.key (a : CreateTournament) : Pubkey := .tournament a.organizer a.name

/-- The checks the handler makes before any transfer. -/
def CreateTournament.check (a : CreateTournament) (now : Int) : Except Error Unit := do
  require (a.name.length ≤ maxTournamentNameLen) .nameTooLong
  require (a.game = .manual ∨ a.game = .dota2 ∨ a.game = .cs2Faceit) .gameNotYetSupported
  require (minParticipants ≤ a.maxParticipants) .minParticipantsNotMet
  require (a.maxParticipants ≤ Keys.maxParticipants) .maxParticipantsExceeded
  validateCustom a.payoutPreset
  require (minParticipantsOf a.payoutPreset ≤ a.maxParticipants) .presetExceedsParticipants
  require (now < a.registrationDeadline) .registrationClosed

def CreateTournament.record (a : CreateTournament) (now : Int) : Tournament where
  organizer := a.organizer
  name := a.name
  tokenMint := a.tokenMint
  vault := .vault a.key
  entryFee := a.entryFee
  organizerDeposit := a.organizerDeposit
  organizerDepositRefunded := false
  maxParticipants := a.maxParticipants
  bracketSize := 0
  participantCount := 0
  matchesInitialized := 0
  matchesReported := 0
  totalMatches := 0
  registrationDeadline := a.registrationDeadline
  createdAt := now
  startedAt := 0
  completedAt := 0
  status := .registration
  payoutPreset := a.payoutPreset
  seedHash := zeroBytes
  champion := default
  game := a.game
  settlementMode := a.settlementMode
  disputeWindowSecs := a.disputeWindowSecs
  vrfRandomnessAccount := default
  vrfCommitSlot := 0
  seedRevealed := false
  arbitrator := a.organizer

/-- The constraints on the optional account that funds the deposit. -/
def checkOrganizerToken (s : Ledger) (a : CreateTournament) : Except Error Unit :=
  match a.organizerTokenAccount with
  | none => .ok ()
  | some p => do
      let v ← s.loadToken p
      require (v.mint = a.tokenMint) .invalidTokenMint
      require (v.owner = a.organizer) .unauthorizedAuthority

def payDeposit (s : Ledger) (a : CreateTournament) : Except Error Ledger :=
  if 0 < a.organizerDeposit then do
    let source ← orThrow a.organizerTokenAccount .invalidVault
    s.tokenTransfer source (.vault a.key) a.organizer a.organizerDeposit
  else .ok s

def loadMint (s : Ledger) (p : Pubkey) : Except Error Unit :=
  match s.accounts p with
  | .mint => .ok ()
  | _ => .error .accountNotInitialized

def createTournament (rt : Runtime) (a : CreateTournament) (s : Ledger) : Except Error Ledger := do
  let _ ← s.loadConfig
  loadMint s a.tokenMint
  let now := s.clock.unixTimestamp
  let s ← s.initAccount rt a.organizer a.key tournamentSpace (.tournament (a.record now))
  -- the vault opens empty, unless the mint is the native one and lamports lie there
  let s ← s.initAccount rt a.organizer (.vault a.key) tokenAccountSpace (.token ⟨a.tokenMint, a.key, 0, false⟩)
  checkOrganizerToken s a
  a.check now
  payDeposit s a

/-- The signed 64-bit number that eight little-endian bytes spell. -/
def leInt64 (bytes : List UInt8) : Int :=
  if leNat bytes < 2 ^ 63 then leNat bytes else (leNat bytes : Int) - 2 ^ 64

def slice (data : List UInt8) (start stop : Nat) : List UInt8 := (data.drop start).take (stop - start)

/-- Parse an attestation account: `disc(1) | nonce | credential | schema |
u32 length | payload | signer(32) | i64 expiry | ..`, with the identity bytes
behind their own length at offset 9 of the payload. -/
def validateAttestation (rt : Runtime) (owner : Pubkey) (data : List UInt8)
    (player expectedCredential expectedSchema : Pubkey) (now : Int) : Except Error Bytes32 := do
  require (owner = sasProgramId) .invalidAttestationOwner
  require (101 ≤ data.length) .malformedAttestation
  require (slice data 1 33 = rt.keyBytes player) .attestationWalletMismatch
  require (slice data 33 65 = rt.keyBytes expectedCredential) .wrongAttestationCredential
  require (slice data 65 97 = rt.keyBytes expectedSchema) .wrongAttestationSchema
  let payloadEnd := 101 + leNat (slice data 97 101)
  let expiryStart := payloadEnd + 32
  require (expiryStart + 8 ≤ data.length) .malformedAttestation
  let payload := slice data 101 payloadEnd
  require (13 ≤ payload.length) .malformedAttestation
  require (leNat (slice payload 9 13) = 32) .malformedAttestation
  require (45 ≤ payload.length) .malformedAttestation
  let expiry := leInt64 (slice data expiryStart (expiryStart + 8))
  require (expiry = 0 ∨ now < expiry) .attestationExpired
  let identity := (slice payload 13 45).toArray
  if h : identity.size = 32 then .ok ⟨identity, h⟩ else .error .panicked

def gameIndex : SupportedGame → Fin 5
  | .manual => 0
  | .dota2 => 1
  | .cs2Faceit => 2
  | .valorant => 3
  | .loL => 4

def identityOf (rt : Runtime) (s : Ledger) (cfg : ProtocolConfig) (t : Tournament) (player : Pubkey)
    (attestation : Option Pubkey) : Except Error (Bytes32 × Pubkey) :=
  if t.game = .manual then .ok (zeroBytes, default)
  else do
    let p ← orThrow attestation .attestationRequired
    let (owner, data) ← orThrow (s.loadForeign p) .invalidAttestationOwner
    let identity ← validateAttestation rt owner data player cfg.sasCredential
      cfg.sasSchemas[gameIndex t.game] s.clock.unixTimestamp
    pure (identity, p)

structure JoinTournament where
  player : Pubkey
  tournament : Pubkey
  playerTokenAccount : Pubkey
  gameIdentityAttestation : Option Pubkey

def newParticipant (key player : Pubkey) (index : Nat) (identity : Bytes32 × Pubkey) : Participant where
  tournament := key
  wallet := player
  seedIndex := index
  refundPaid := false
  identityHash := identity.1
  identityAttestation := identity.2
  wins := 0
  losses := 0
  pointsFor := 0
  pointsAgainst := 0

def joinTournament (rt : Runtime) (a : JoinTournament) (s : Ledger) : Except Error Ledger := do
  let t ← s.loadTournament a.tournament
  let cfg ← s.loadConfig
  let v ← s.loadToken a.playerTokenAccount
  require (v.mint = t.tokenMint) .invalidTokenMint
  require (v.owner = a.player) .unauthorizedAuthority
  let _ ← s.loadToken (.vault a.tournament)
  let now := s.clock.unixTimestamp
  let identity ← identityOf rt s cfg t a.player a.gameIdentityAttestation
  let s ← s.initAccount rt a.player (.participant a.tournament a.player) participantSpace
    (.participant (newParticipant a.tournament a.player t.participantCount identity))
  require (t.status = .registration) .notInRegistration
  require (now < t.registrationDeadline) .registrationClosed
  require (t.participantCount < t.maxParticipants) .tournamentFull
  let s ← s.tokenTransfer a.playerTokenAccount (.vault a.tournament) a.player t.entryFee
  let count ← orThrow (checkedAdd u16Max t.participantCount 1) .arithmeticOverflow
  pure (s.setAccount a.tournament (.tournament { t with participantCount := count }))

structure RequestSeed where
  organizer : Pubkey
  tournament : Pubkey
  randomnessAccount : Pubkey

def ownedBySwitchboard (owner : Pubkey) : Prop :=
  owner = switchboardOnDemandDevnet ∨ owner = switchboardOnDemandMainnet

instance (owner : Pubkey) : Decidable (ownedBySwitchboard owner) := inferInstanceAs (Decidable (_ ∨ _))

def requestSeed (rt : Runtime) (a : RequestSeed) (s : Ledger) : Except Error Ledger := do
  let t ← s.loadTournament a.tournament
  require (a.organizer = t.organizer) .unauthorizedAuthority
  require (t.status = .registration) .notInRegistration
  require (t.settlementMode ≠ .organizerOnly) .settlementModeMismatch
  require (t.seedRevealed = false) .seedAlreadyRevealed
  let (owner, data) ← orThrow (s.loadForeign a.randomnessAccount) .invalidRandomnessOwner
  require (ownedBySwitchboard owner) .invalidRandomnessOwner
  let _ ← orThrow (rt.parseRandomness data) .malformedRandomness
  pure (s.setAccount a.tournament (.tournament
    { t with vrfRandomnessAccount := a.randomnessAccount, vrfCommitSlot := s.clock.slot }))

structure RevealSeed where
  payer : Pubkey
  tournament : Pubkey
  randomnessAccount : Pubkey

def revealSeed (rt : Runtime) (a : RevealSeed) (s : Ledger) : Except Error Ledger := do
  let t ← s.loadTournament a.tournament
  require (a.randomnessAccount = t.vrfRandomnessAccount) .randomnessAccountMismatch
  require (t.seedRevealed = false) .seedAlreadyRevealed
  let (owner, data) ← orThrow (s.loadForeign a.randomnessAccount) .invalidRandomnessOwner
  require (ownedBySwitchboard owner) .invalidRandomnessOwner
  let getValue ← orThrow (rt.parseRandomness data) .malformedRandomness
  let value ← orThrow (getValue s.clock.slot) .randomnessNotResolved
  pure (s.setAccount a.tournament (.tournament { t with seedHash := value, seedRevealed := true }))

end BracketChain.Registration
