import BracketChain.Accounts
import BracketChain.Seeding

namespace BracketChain.Start

open Outcome Keys Records Accounts Seeding

structure MatchInitDescriptor where
  bracket : Nat
  round : Nat
  matchIndex : Nat
  bump : Nat
  playerA : Pubkey
  playerB : Pubkey
  bye : Bool
deriving DecidableEq, Repr

def MatchInitDescriptor.slot (d : MatchInitDescriptor) : Slot :=
  ⟨d.bracket, d.round, d.matchIndex, d.bump⟩

def MatchInitDescriptor.status (d : MatchInitDescriptor) : MatchStatus :=
  if d.bye then .completed
  else if d.playerA ≠ default ∧ d.playerB ≠ default then .active
  else .pending

/-- The account written for a descriptor. Its envelope starts empty. -/
def MatchInitDescriptor.node (key : Pubkey) (d : MatchInitDescriptor) : MatchNode where
  tournament := key
  bracket := d.bracket
  round := d.round
  matchIndex := d.matchIndex
  playerA := d.playerA
  playerB := if d.bye then default else d.playerB
  winner := if d.bye then d.playerA else default
  status := d.status
  bye := d.bye
  bump := d.bump
  proposalSource := .none
  proposer := default
  proposedWinner := default
  proposedAt := 0
  claimDeadline := 0
  disputed := false
  disputeReason := 0
  commitment := none
  switchboardFeed := default

/-- `u16::trailing_zeros`. -/
def trailingZeros (n : Nat) : Nat := ((List.range 16).find? (fun i => n.testBit i)).getD 16

def isPowerOfTwo (n : Nat) : Bool := 2 ^ n.log2 == n

/-- `u16::checked_next_power_of_two`. -/
def checkedNextPowerOfTwo (n : Nat) : Option Nat :=
  let p := if n ≤ 1 then 1 else 2 ^ ((n - 1).log2 + 1)
  if p ≤ u16Max then some p else none

def seedDomain : List UInt8 := "bracketchain:seed:slot-hash:v1".toList.map (fun c => UInt8.ofNat c.toNat)

/-- The fallback seed of trust-mode tournaments: up to eight whole entries of
the SlotHashes sysvar, hashed with the tournament's identity. -/
def slotHashSeed (rt : Runtime) (key organizer : Pubkey) (participantCount : Nat) (data : List UInt8) :
    Except Error Bytes32 := do
  require (48 ≤ data.length) .slotHashesUnavailable
  let entries := (List.range (max (min (leNat (data.take 8)) 8) 1)).map
    (fun i => (data.drop (8 + i * 40)).take 40)
  pure (rt.keccak (seedDomain ++ rt.keyBytes key ++ rt.keyBytes organizer ++
    leBytes 2 participantCount ++ (entries.takeWhile (fun e => e.length == 40)).flatten))

/-- Where the seed of the first chunk comes from. -/
def bracketSeed (rt : Runtime) (s : Ledger) (key : Pubkey) (t : Tournament) : Except Error Bytes32 :=
  if t.vrfRandomnessAccount ≠ default then do
    require (t.seedRevealed = true) .seedNotRevealed
    pure t.seedHash
  else do
    require (t.settlementMode = .organizerOnly) .seedNotRevealed
    slotHashSeed rt key t.organizer t.participantCount s.slotHashes

def bracketSizeOf (participantCount : Nat) : Except Error Nat :=
  if isPowerOfTwo participantCount then .ok participantCount
  else orThrow (checkedNextPowerOfTwo participantCount) .arithmeticOverflow

/-- The first chunk fixes the seed and the dimensions of the bracket. -/
def openBracket (rt : Runtime) (s : Ledger) (key : Pubkey) (t : Tournament) : Except Error Tournament :=
  if t.status = .registration then do
    require (minParticipants ≤ t.participantCount) .minParticipantsNotMet
    let seed ← bracketSeed rt s key t
    let size ← bracketSizeOf t.participantCount
    require (1 ≤ size) .arithmeticOverflow
    pure { t with
      seedHash := seed
      bracketSize := size
      totalMatches := size - 1
      status := .pendingBracketInit }
  else .ok t

/-- The drawn permutation and the dimensions it is read with. -/
structure Draw where
  perm : Array Nat
  bracketSize : Nat
  n : Nat

def Draw.round0 (w : Draw) (m : Nat) : Option (Nat × Option Nat) :=
  round0Expected w.perm m w.bracketSize w.n

/-- Tournaments outside trust mode are held to the draw of their seed. -/
def drawOf (t : Tournament) : Option Draw :=
  if t.settlementMode = .organizerOnly then none
  else some ⟨seedPermutation t.seedHash t.participantCount, t.bracketSize, t.participantCount⟩

/-- Take the next account off the unread part of the tail and check that it
is the participant the seed demands. -/
def consumeAndCheck (s : Ledger) (key expectedWallet : Pubkey) (expectedSeedIndex : Nat) :
    List Pubkey → Except Error (List Pubkey)
  | [] => .error .remainingAccountsMismatch
  | p :: rest => do
      let x ← s.readParticipant p .nonParticipantInBracket
      require (x.tournament = key) .nonParticipantInBracket
      require (x.wallet = expectedWallet) .nonParticipantInBracket
      require (x.seedIndex = expectedSeedIndex) .bracketSeedMismatch
      pure rest

/-- A round-1 slot holds the winner of a round-0 bye, or nothing yet. -/
def validateRound1Slot (s : Ledger) (key : Pubkey) (w : Draw) (slotPlayer : Pubkey) (parentMatch : Nat)
    (tail : List Pubkey) : Except Error (List Pubkey) := do
  let (winnerSeed, opponent) ← orThrow (w.round0 parentMatch) .panicked
  if opponent = none then do
    require (slotPlayer ≠ default) .bracketSeedMismatch
    consumeAndCheck s key slotPlayer winnerSeed tail
  else do
    require (slotPlayer = default) .bracketSeedMismatch
    pure tail

def validateRound0 (s : Ledger) (key : Pubkey) (w : Draw) (d : MatchInitDescriptor)
    (tail : List Pubkey) : Except Error (List Pubkey) := do
  let (expectedA, expectedB) ← orThrow (w.round0 d.matchIndex) .panicked
  let tail ← consumeAndCheck s key d.playerA expectedA tail
  match expectedB with
  | some b => do
      require (d.bye = false) .bracketSeedMismatch
      require (d.playerB ≠ default) .bracketSeedMismatch
      consumeAndCheck s key d.playerB b tail
  | none => do
      require (d.bye = true) .bracketSeedMismatch
      require (d.playerB = default) .bracketSeedMismatch
      pure tail

def validateDescriptorAgainstSeed (s : Ledger) (key : Pubkey) (w : Draw) (d : MatchInitDescriptor)
    (tail : List Pubkey) : Except Error (List Pubkey) :=
  if d.round = 0 then validateRound0 s key w d tail
  else do
    require (d.bye = false) .bracketSeedMismatch
    if d.round = 1 then do
      let tail ← validateRound1Slot s key w d.playerA (d.matchIndex * 2) tail
      validateRound1Slot s key w d.playerB (d.matchIndex * 2 + 1) tail
    else do
      require (d.playerA = default) .bracketSeedMismatch
      require (d.playerB = default) .bracketSeedMismatch
      pure tail

/-- Descriptors of trust-mode tournaments are not held to a draw. -/
def validateSeat (s : Ledger) (key : Pubkey) (d : MatchInitDescriptor) (tail : List Pubkey) :
    Option Draw → Except Error (List Pubkey)
  | some w => validateDescriptorAgainstSeed s key w d tail
  | none => .ok tail

def countBye (d : MatchInitDescriptor) (byes : Nat) : Except Error Nat :=
  if d.bye then orThrow (checkedAdd u16Max byes 1) .arithmeticOverflow else .ok byes

/-- What the descriptor loop carries: the ledger, the unread participant
accounts and the byes counted so far. -/
structure Progress where
  ledger : Ledger
  tail : List Pubkey
  byes : Nat

/-- One pass of the descriptor loop. -/
def initMatch (rt : Runtime) (key organizer : Pubkey) (bracketSize : Nat) (draw : Option Draw)
    (st : Progress) (item : MatchInitDescriptor × Pubkey) : Except Error Progress := do
  let (d, matchAccount) := item
  require (d.round < trailingZeros bracketSize) .invalidMatchIndex
  require (d.matchIndex < bracketSize >>> (d.round + 1)) .invalidMatchIndex
  let tail ← validateSeat st.ledger key d st.tail draw
  require (rt.offCurve (.matchNode key d.slot) = true) .invalidMatchIndex
  require (matchAccount = .matchNode key d.slot) .invalidMatchIndex
  let s ← st.ledger.createAccount rt organizer matchAccount matchNodeSpace (.matchNode (d.node key))
  let byes ← countBye d st.byes
  pure ⟨s, tail, byes⟩

structure StartTournament where
  organizer : Pubkey
  tournament : Pubkey
  descriptors : List MatchInitDescriptor
  remainingAccounts : List Pubkey

def tally (t : Tournament) (descriptorCount byes : Nat) (now : Int) : Except Error Tournament := do
  let initialized ← orThrow (checkedAdd u16Max t.matchesInitialized (descriptorCount % (u16Max + 1)))
    .arithmeticOverflow
  let reported ← orThrow (checkedAdd u16Max t.matchesReported byes) .arithmeticOverflow
  let t := { t with matchesInitialized := initialized, matchesReported := reported }
  pure (if initialized = t.totalMatches then { t with status := .active, startedAt := now } else t)

def startTournament (rt : Runtime) (a : StartTournament) (s : Ledger) : Except Error Ledger := do
  let t ← s.loadTournament a.tournament
  require (a.organizer = t.organizer) .unauthorizedAuthority
  require (a.descriptors.length ≤ a.remainingAccounts.length) .remainingAccountsMismatch
  let t ← openBracket rt s a.tournament t
  require (t.status = .pendingBracketInit) .notInRegistration
  let count := a.descriptors.length
  let st ← each (initMatch rt a.tournament a.organizer t.bracketSize (drawOf t))
    ⟨s, a.remainingAccounts.drop count, 0⟩ (a.descriptors.zip (a.remainingAccounts.take count))
  require (t.settlementMode = .organizerOnly ∨ st.tail = []) .remainingAccountsMismatch
  let t ← tally t count st.byes s.clock.unixTimestamp
  pure (st.ledger.setAccount a.tournament (.tournament t))

end BracketChain.Start
