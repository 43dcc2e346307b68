import Mathlib.Algebra.Ring.Nat

namespace BracketChain.Keys

/-- The seeds of a match address after the tournament key, and the bump byte
the caller chose for it. -/
structure Slot where
  bracket : Nat
  round : Nat
  matchIndex : Nat
  bump : Nat
deriving DecidableEq, Repr

/-- Account addresses. `key n` is an address made outside the program, named
by the number its bytes spell. The others are derived from the seeds they
list. Anchor derives all of these but match addresses with the canonical
bump, so only a match address carries its bump. -/
inductive Pubkey
  | key (n : Nat)
  | protocolConfig
  | tournament (organizer : Pubkey) (name : List UInt8)
  | vault (tournament : Pubkey)
  | participant (tournament wallet : Pubkey)
  | matchNode (tournament : Pubkey) (slot : Slot)
deriving DecidableEq, Repr

instance : Inhabited Pubkey := ⟨.key 0⟩

/-- No key signs for the all-zero address, and no caller signs for an address
derived from this program. -/
def Pubkey.canSign : Pubkey → Bool
  | .key n => n != 0
  | _ => false

/-- The tournament an address belongs to. -/
def Pubkey.home : Pubkey → Option Pubkey
  | .key _ | .protocolConfig => none
  | .tournament organizer name => some (.tournament organizer name)
  | .vault t | .participant t _ | .matchNode t _ => some t

def Pubkey.isTournament : Pubkey → Bool
  | .tournament _ _ => true
  | _ => false

theorem ne_default_of_canSign {p : Pubkey} (h : p.canSign = true) : p ≠ default := by
  rintro rfl
  exact absurd h (by decide)

def sasProgramId : Pubkey :=
  .key 0xf5e9ed5371e2c70898ca9fd0e77c0065cab5da02e56678b2713382af37459b7

def switchboardOnDemandDevnet : Pubkey :=
  .key 0x906e1464c5f8b7633cc05a424cddb3aecd6dabb8aec747bc4f3e11301e4063cb

def switchboardOnDemandMainnet : Pubkey :=
  .key 0x673bd46f2e47e04f12bd92fb731968ecd9d9757c274da87476f465c040c6573

/-- The mint of wrapped SOL. Its token accounts hold their tokens as lamports,
and one that opens over lamports counts them as tokens. The ledger of this
model does neither, so what is said of lamports and of supply leaves it out. -/
def nativeMint : Pubkey :=
  .key 0x69b8857feab8184fb687f634618c035dac439dc1aeb3b5598a0f00000000001

def protocolFeeBps : Nat := 350

def bpsDenominator : Nat := 10000

def minParticipants : Nat := 2

def maxParticipants : Nat := 128

def forceClaimWindowSecs : Int := 86400

def maxTournamentNameLen : Nat := 32

def minOracleSamplesFloor : Nat := 1

def maxOracleStaleSlotsCeiling : Nat := 9000

def u16Max : Nat := 65535

def u64Max : Nat := 18446744073709551615

def i64Max : Int := 9223372036854775807

/-- `Pubkey` fields hold 32 bytes, hash fields 32 bytes, lobby ids 16. -/
abbrev Bytes32 := Vector UInt8 32

abbrev Bytes16 := Vector UInt8 16

def zeroBytes : Bytes32 := Vector.replicate 32 0

/-- The number a little-endian byte string spells. -/
def leNat : List UInt8 → Nat
  | [] => 0
  | b :: bs => b.toNat + 256 * leNat bs

def leBytes : Nat → Nat → List UInt8
  | 0, _ => []
  | k + 1, n => UInt8.ofNat n :: leBytes k (n / 256)

/-- The errors of the program, and those its framework and the programs it
calls raise on its behalf. -/
inductive Error
  | unauthorizedAuthority
  | tournamentFull
  | registrationClosed
  | notInRegistration
  | notActive
  | invalidPayoutPreset
  | presetExceedsParticipants
  | matchAlreadyReported
  | nonParticipantWinner
  | tournamentInProgress
  | maxParticipantsExceeded
  | minParticipantsNotMet
  | nameTooLong
  | invalidTokenMint
  | invalidVault
  | invalidTreasury
  | invalidMatchIndex
  | remainingAccountsMismatch
  | arithmeticOverflow
  | slotHashesUnavailable
  | gameNotYetSupported
  | attestationRequired
  | invalidAttestationOwner
  | wrongAttestationCredential
  | wrongAttestationSchema
  | attestationWalletMismatch
  | attestationExpired
  | malformedAttestation
  | settlementModeMismatch
  | notPlayerInMatch
  | notCounterparty
  | noProposal
  | proposalAlreadyExists
  | invalidProposedWinner
  | claimWindowNotElapsed
  | proposalDisputed
  | proposalNotDisputed
  | seedNotRevealed
  | randomnessNotResolved
  | randomnessAccountMismatch
  | invalidRandomnessOwner
  | malformedRandomness
  | seedAlreadyRevealed
  | invalidTournamentAccount
  | migrationNotNeeded
  | matchAlreadyCommitted
  | matchNotCommitted
  | wrongFeedAccount
  | oracleWinnerNotInMatch
  | notAuthorized
  | badProposalSource
  | invalidCustomPayout
  | untrustedMultiPlacementFinal
  | bracketSeedMismatch
  | nonParticipantInBracket
  | invalidOracleConfig
  | accountNotInitialized
  | accountDiscriminatorMismatch
  | accountAlreadyInUse
  | constraintSeeds
  | constraintAddress
  | missingSignature
  | insufficientLamports
  | insufficientFundsForRent
  | unbalancedInstruction
  | insufficientFunds
  | mintMismatch
  | ownerMismatch
  | accountFrozen
  | tokenOverflow
  | panicked
  | notAllowed
deriving DecidableEq, Repr

end BracketChain.Keys
