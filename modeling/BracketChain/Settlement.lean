import BracketChain.Payout
import BracketChain.Start

namespace BracketChain.Settlement

open Outcome Keys Records Accounts Payout Start

/-- Pay the placements in order; shares of zero are skipped. -/
def payPlacements (key mint : Pubkey) :
    Ledger → List (Nat × Pubkey × Pubkey) → Except Error Ledger :=
  each fun s (amount, recipient, account) =>
    if amount = 0 then .ok s
    else do
      s.validateTokenAccount account recipient mint
      s.tokenTransfer (.vault key) account key amount

/-- `placements[0]` is the winner and `placements[1]`, if any, the loser of
the final. -/
def checkPlacements (m : MatchNode) (winner : Pubkey) : List Pubkey → Except Error Unit
  | [] => .error .panicked
  | first :: rest => do
      require (first = winner) .nonParticipantWinner
      match rest with
      | [] => .ok ()
      | second :: _ =>
          require (second = if winner = m.playerA then m.playerB else m.playerA) .nonParticipantWinner

def protocolFee (grossPool : Nat) : Nat := grossPool * protocolFeeBps / bpsDenominator % (u64Max + 1)

/-- The fee transfer to the treasury, skipped when the fee is zero. -/
def payFee (s : Ledger) (key mint treasury : Pubkey) (fee : Nat) (account : Option Pubkey) :
    Except Error Ledger :=
  if fee = 0 then .ok s
  else do
    let account ← orThrow account .panicked
    s.validateTokenAccount account treasury mint
    s.tokenTransfer (.vault key) account key fee

/-- Split the vault over the placements and the treasury. -/
def distributePrizes (s : Ledger) (key : Pubkey) (t : Tournament) (m : MatchNode) (treasury : Pubkey)
    (vault : TokenAccount) (remaining : List Pubkey) (winner : Pubkey) (placements : List Pubkey) :
    Except Error Ledger := do
  let count := placementCount t.payoutPreset
  require (placements.length = count) .invalidPayoutPreset
  require (remaining.length = count + 1) .remainingAccountsMismatch
  checkPlacements m winner placements
  let fee := protocolFee vault.amount
  require (fee ≤ vault.amount) .arithmeticOverflow
  let amounts ← splitPlacements (vault.amount - fee) (basisPoints t.payoutPreset).toList count
  let s ← payPlacements key t.tokenMint s (amounts.zip (placements.zip remaining))
  payFee s key t.tokenMint treasury fee remaining[count]?

/-- Put the winner into the parent's slot for this side of the bracket. -/
def MatchNode.advance (next : MatchNode) (matchIndex : Nat) (winner : Pubkey) : MatchNode :=
  let seated := if matchIndex % 2 = 0 then { next with playerA := winner } else { next with playerB := winner }
  if seated.playerA ≠ default ∧ seated.playerB ≠ default then { seated with status := .active } else seated

def advanceWinner (next : Option MatchNode) (key : Pubkey) (m : MatchNode) (winner : Pubkey) :
    Except Error MatchNode := do
  let next ← orThrow next .invalidMatchIndex
  require (next.tournament = key) .invalidMatchIndex
  require (next.round = m.round + 1) .invalidMatchIndex
  require (next.matchIndex = m.matchIndex / 2) .invalidMatchIndex
  pure (MatchNode.advance next m.matchIndex winner)

def MatchNode.complete (m : MatchNode) (winner : Pubkey) : MatchNode :=
  { m with winner := winner, status := .completed }

def isFinal (t : Tournament) (m : MatchNode) : Prop :=
  m.round + 1 = trailingZeros t.bracketSize ∧ m.matchIndex = 0

instance (t : Tournament) (m : MatchNode) : Decidable (isFinal t m) := inferInstanceAs (Decidable (_ ∧ _))

/-- What `finalize_match` leaves in the accounts it borrows. -/
structure Finalized where
  ledger : Ledger
  tournament : Tournament
  matchAccount : MatchNode
  nextMatch : Option MatchNode

/-- What the caller of `finalize_match` supplies besides the accounts. -/
structure Verdict where
  winner : Pubkey
  placements : List Pubkey
  placementsTrusted : Bool

def finalizeMatch (s : Ledger) (key : Pubkey) (t : Tournament) (m : MatchNode) (next : Option MatchNode)
    (vault : TokenAccount) (treasury : Pubkey) (remaining : List Pubkey) (v : Verdict) :
    Except Error Finalized := do
  require (t.status = .active) .notActive
  require (m.status = .active) .matchAlreadyReported
  require (m.hasPlayer v.winner) .nonParticipantWinner
  let reported ← orThrow (checkedAdd u16Max t.matchesReported 1) .arithmeticOverflow
  if isFinal t m then do
    require (v.placementsTrusted = true ∨ placementCount t.payoutPreset ≤ 1) .untrustedMultiPlacementFinal
    require (next.isNone = true) .invalidMatchIndex
    let s' ← distributePrizes s key t m treasury vault remaining v.winner v.placements
    pure ⟨s', { t with
      matchesReported := reported
      status := .completed
      champion := v.winner
      completedAt := s.clock.unixTimestamp }, MatchNode.complete m v.winner, none⟩
  else do
    require (v.placements = []) .invalidPayoutPreset
    let next ← advanceWinner next key m v.winner
    pure ⟨s, { t with matchesReported := reported }, MatchNode.complete m v.winner, some next⟩

/-- `u8::saturating_add(1)`. -/
def saturatingSucc (n : Nat) : Nat := min (n + 1) 255

def Participant.won (p : Participant) : Participant := { p with wins := saturatingSucc p.wins }

def Participant.lost (p : Participant) : Participant := { p with losses := saturatingSucc p.losses }

def creditMatchStats (a b : Participant) (winner : Pubkey) : Participant × Participant :=
  if a.wallet = winner then (Participant.won a, Participant.lost b)
  else (Participant.lost a, Participant.won b)

structure FinalizeAccounts where
  signer : Pubkey
  tournament : Pubkey
  matchAccount : Pubkey
  nextMatch : Option Pubkey
  remainingAccounts : List Pubkey

def loadNext (s : Ledger) : Option Pubkey → Except Error (Option MatchNode)
  | none => .ok none
  | some p => do
      let n ← orThrow (s.matchNode? p) .accountNotInitialized
      pure (some n)

structure Loaded where
  t : Tournament
  m : MatchNode
  next : Option MatchNode
  treasury : Pubkey
  vault : TokenAccount

def loadFinalize (s : Ledger) (a : FinalizeAccounts) : Except Error Loaded := do
  let t ← s.loadTournament a.tournament
  let m ← s.loadMatch a.tournament a.matchAccount
  let next ← loadNext s a.nextMatch
  let cfg ← s.loadConfig
  let vault ← s.loadVault a.tournament t
  pure ⟨t, m, next, cfg.treasury, vault⟩

def writeNext (s : Ledger) : Option Pubkey → Option MatchNode → Ledger
  | some p, some n => s.setAccount p (.matchNode n)
  | _, _ => s

/-- Anchor's exit: write the borrowed accounts back in their order. -/
def writeBack (a : FinalizeAccounts) (f : Finalized) : Ledger :=
  writeNext ((f.ledger.setAccount a.tournament (.tournament f.tournament)).setAccount a.matchAccount
    (.matchNode f.matchAccount)) a.nextMatch f.nextMatch

/-- Finalize and credit the two players, as all instructions but
`report_result` do. -/
def finalizeCredited (a : FinalizeAccounts) (l : Loaded) (v : Verdict) (s : Ledger) : Except Error Ledger := do
  let pa ← s.loadParticipant a.tournament l.m.playerA
  let pb ← s.loadParticipant a.tournament l.m.playerB
  let f ← finalizeMatch s a.tournament l.t l.m l.next l.vault l.treasury a.remainingAccounts v
  let (pa, pb) := creditMatchStats pa pb v.winner
  pure (((writeBack a f).setAccount (.participant a.tournament l.m.playerA) (.participant pa)).setAccount
    (.participant a.tournament l.m.playerB) (.participant pb))

def reportResult (a : FinalizeAccounts) (winner : Pubkey) (placements : List Pubkey) (s : Ledger) :
    Except Error Ledger := do
  let l ← loadFinalize s a
  require (a.signer = l.t.organizer) .unauthorizedAuthority
  require (l.t.settlementMode = .organizerOnly) .settlementModeMismatch
  let f ← finalizeMatch s a.tournament l.t l.m l.next l.vault l.treasury a.remainingAccounts
    ⟨winner, placements, true⟩
  pure (writeBack a f)

def confirmResult (a : FinalizeAccounts) (placements : List Pubkey) (s : Ledger) : Except Error Ledger := do
  let l ← loadFinalize s a
  require (l.m.proposalSource ≠ .none) .noProposal
  require (l.m.disputed = false) .proposalDisputed
  require (l.m.hasPlayer a.signer) .notPlayerInMatch
  require (a.signer ≠ l.m.proposer) .notCounterparty
  finalizeCredited a l ⟨l.m.proposedWinner, placements, false⟩ s

def claimResult (a : FinalizeAccounts) (placements : List Pubkey) (s : Ledger) : Except Error Ledger := do
  let l ← loadFinalize s a
  require (l.m.proposalSource ≠ .none) .noProposal
  require (l.m.disputed = false) .proposalDisputed
  require (l.m.claimDeadline ≤ s.clock.unixTimestamp) .claimWindowNotElapsed
  finalizeCredited a l ⟨l.m.proposedWinner, placements, false⟩ s

def forceClaimDisputed (a : FinalizeAccounts) (placements : List Pubkey) (s : Ledger) : Except Error Ledger := do
  let l ← loadFinalize s a
  require (l.m.proposalSource ≠ .none) .noProposal
  require (l.m.disputed = true) .proposalNotDisputed
  require (l.m.claimDeadline ≤ s.clock.unixTimestamp) .claimWindowNotElapsed
  finalizeCredited a l ⟨l.m.proposedWinner, placements, false⟩ s

def resolveDispute (a : FinalizeAccounts) (winner : Pubkey) (placements : List Pubkey) (s : Ledger) :
    Except Error Ledger := do
  let l ← loadFinalize s a
  require (a.signer = l.t.organizer) .unauthorizedAuthority
  require (l.m.disputed = true) .proposalNotDisputed
  finalizeCredited a l ⟨winner, placements, true⟩ s

def settleFinal (a : FinalizeAccounts) (placements : List Pubkey) (s : Ledger) : Except Error Ledger := do
  let l ← loadFinalize s a
  require (a.signer = l.t.arbitrator) .unauthorizedAuthority
  require (l.m.proposalSource ≠ .none) .noProposal
  require (l.m.disputed = false) .proposalDisputed
  require (l.m.claimDeadline ≤ s.clock.unixTimestamp) .claimWindowNotElapsed
  finalizeCredited a l ⟨l.m.proposedWinner, placements, true⟩ s

end BracketChain.Settlement
