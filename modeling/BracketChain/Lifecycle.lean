import BracketChain.Confinement
import BracketChain.Program

namespace BracketChain.Lifecycle

open Outcome Keys Records Accounts Seeding Start Settlement Registration Envelope Refunds Program View

/-- The participant with this wallet is number `i` of the draw. -/
def Carries (participant : Pubkey → Option Participant) (wallet : Pubkey) (i : Nat) : Prop :=
  ∃ x, participant wallet = some x ∧ x.seedIndex = i

/-- A round-1 slot as the draw wants it. -/
def SlotSeated (participant : Pubkey → Option Participant) (w : Draw) (player : Pubkey) (parent : Nat) : Prop :=
  ∃ winner opponent, w.round0 parent = some (winner, opponent) ∧
    if opponent = none then player ≠ default ∧ Carries participant player winner else player = default

/-- The second seat of a round-0 match, empty in a bye. -/
def OpponentSeated (participant : Pubkey → Option Participant) (d : MatchInitDescriptor) : Option Nat → Prop
  | some b => d.bye = false ∧ d.playerB ≠ default ∧ Carries participant d.playerB b
  | none => d.bye = true ∧ d.playerB = default

/-- A descriptor that agrees with the draw. -/
def Seated (participant : Pubkey → Option Participant) (w : Draw) (d : MatchInitDescriptor) : Prop :=
  if d.round = 0 then
    ∃ a b, w.round0 d.matchIndex = some (a, b) ∧ Carries participant d.playerA a ∧
      OpponentSeated participant d b
  else d.bye = false ∧
    if d.round = 1 then
      SlotSeated participant w d.playerA (d.matchIndex * 2) ∧
        SlotSeated participant w d.playerB (d.matchIndex * 2 + 1)
    else d.playerA = default ∧ d.playerB = default

/-- The record that the chunks of a bracket work with: the first chunk fixes
seed and dimensions. Outside trust mode the seed was revealed before. -/
def Opens (t t' : Tournament) : Prop :=
  (t.status = .registration ∧ minParticipants ≤ t.participantCount ∧ ∃ seed size,
    bracketSizeOf t.participantCount = .ok size ∧
      (t.settlementMode ≠ .organizerOnly → t.seedRevealed = true ∧ seed = t.seedHash) ∧
      t' = { t with seedHash := seed, bracketSize := size, totalMatches := size - 1, status := .pendingBracketInit }) ∨
    (t.status = .pendingBracketInit ∧ t' = t)

def byesOf (ds : List MatchInitDescriptor) : Nat := (ds.filter fun d => d.bye).length

/-- The matches with the descriptors' accounts added. -/
def place (key : Pubkey) (ds : List MatchInitDescriptor) (node : Slot → Option MatchNode) :
    Slot → Option MatchNode :=
  ds.foldl (fun node d => Function.update node d.slot (some (d.node key))) node

/-- What `start_tournament` accepts as a chunk. -/
structure Chunk (rt : Runtime) (key : Pubkey) (v : TournamentView) (t : Tournament)
    (ds : List MatchInitDescriptor) : Prop where
  round_lt : ∀ d ∈ ds, d.round < trailingZeros t.bracketSize
  index_lt : ∀ d ∈ ds, d.matchIndex < t.bracketSize >>> (d.round + 1)
  seated : ∀ w, drawOf t = some w → ∀ d ∈ ds, Seated v.participant w d
  offCurve : ∀ d ∈ ds, rt.offCurve (.matchNode key d.slot) = true
  fresh : ∀ d ∈ ds, v.node d.slot = none
  distinct : (ds.map MatchInitDescriptor.slot).Nodup

/-- The edits of a single match. -/
inductive Edits (t : Tournament) (clock : Clock) (m : MatchNode) : Instruction → MatchNode → Prop
  | propose (a : MatchAccounts) (winner : Pubkey) (mode : t.settlementMode ≠ .organizerOnly)
      (active : m.status = .active) (empty : m.proposalSource = .none) (proposer : m.hasPlayer a.signer)
      (player : m.hasPlayer winner) (bound : clock.unixTimestamp + t.disputeWindowSecs ≤ i64Max) :
      Edits t clock m (.proposeResult a winner) (MatchNode.propose m .player a.signer winner
        clock.unixTimestamp (clock.unixTimestamp + t.disputeWindowSecs))
  | proposeOracle (a : MatchAccounts) (feed winner : Pubkey) (mode : t.settlementMode = .oracle)
      (active : m.status = .active) (empty : m.proposalSource = .none)
      (committed : m.commitment.isSome = true) (bound_feed : feed = m.switchboardFeed)
      (player : m.hasPlayer winner) (bound : clock.unixTimestamp + t.disputeWindowSecs ≤ i64Max) :
      Edits t clock m (.proposeResultOracle a feed) (MatchNode.propose m .oracle a.signer winner
        clock.unixTimestamp (clock.unixTimestamp + t.disputeWindowSecs))
  | dispute (a : MatchAccounts) (reason : Nat) (pending : m.proposalSource ≠ .none)
      (first : m.disputed = false) (allowed : checkDisputer t m a.signer = .ok ())
      (bound : clock.unixTimestamp + forceClaimWindowSecs ≤ i64Max) :
      Edits t clock m (.disputeResult a reason)
        (MatchNode.dispute m reason (clock.unixTimestamp + forceClaimWindowSecs))
  | commit (a : MatchAccounts) (lobby : Bytes16) (hash : Bytes32) (c : MatchCommitment)
      (organizer : a.signer = t.organizer) (mode : t.settlementMode = .oracle)
      (running : t.status = .active) (active : m.status = .active) (first : m.commitment = none) :
      Edits t clock m (.commitMatchLobby a lobby hash) { m with commitment := some c }
  | bind (a : MatchAccounts) (feed : Pubkey) (organizer : a.signer = t.organizer)
      (committed : m.commitment.isSome = true) :
      Edits t clock m (.bindMatchFeed a feed) { m with switchboardFeed := feed }

def Instruction.edit? : Instruction → Option MatchAccounts
  | .proposeResult a _ | .proposeResultOracle a _ | .disputeResult a _ | .commitMatchLobby a _ _
  | .bindMatchFeed a _ => some a
  | _ => none

def Instruction.finalize? : Instruction → Option FinalizeAccounts
  | .reportResult a _ _ | .confirmResult a _ | .claimResult a _ | .forceClaimDisputed a _
  | .resolveDispute a _ _ | .settleFinal a _ => some a
  | _ => none

/-- The envelope behind a finalizing call, undisputed or not. -/
def Proposed (m : MatchNode) (winner : Pubkey) (disputed : Bool) : Prop :=
  m.proposalSource ≠ .none ∧ m.disputed = disputed ∧ winner = m.proposedWinner

/-- When a call may finalize a match for a winner. -/
def Decides (t : Tournament) (m : MatchNode) (clock : Clock) (winner : Pubkey) : Instruction → Prop
  | .reportResult a w _ => a.signer = t.organizer ∧ t.settlementMode = .organizerOnly ∧ winner = w
  | .confirmResult a _ => Proposed m winner false ∧ m.hasPlayer a.signer ∧ a.signer ≠ m.proposer
  | .claimResult _ _ => Proposed m winner false ∧ m.claimDeadline ≤ clock.unixTimestamp
  | .forceClaimDisputed _ _ => Proposed m winner true ∧ m.claimDeadline ≤ clock.unixTimestamp
  | .resolveDispute a w _ => a.signer = t.organizer ∧ m.disputed = true ∧ winner = w
  | .settleFinal a _ =>
      a.signer = t.arbitrator ∧ Proposed m winner false ∧ m.claimDeadline ≤ clock.unixTimestamp
  | _ => False

def Tournament.counted (t : Tournament) : Tournament := { t with matchesReported := t.matchesReported + 1 }

def Tournament.concluded (t : Tournament) (champion : Pubkey) (now : Int) : Tournament :=
  { Tournament.counted t with status := .completed, champion := champion, completedAt := now }

/-- The participants after the two players of a match were credited. -/
def Credited (m : MatchNode) (winner : Pubkey) (p p' : Pubkey → Option Participant) : Prop :=
  ∃ a b, p m.playerA = some a ∧ p m.playerB = some b ∧
    p' = Function.update (Function.update p m.playerA (some (creditMatchStats a b winner).1)) m.playerB
      (some (creditMatchStats a b winner).2)

/-- What every finalizing call has in common. -/
structure Finalizes (key : Pubkey) (clock : Clock) (v : TournamentView) (ix : Instruction)
    (a : FinalizeAccounts) (slot : Slot) (t : Tournament) (m : MatchNode) (winner : Pubkey)
    (p' : Pubkey → Option Participant) : Prop where
  call : Instruction.finalize? ix = some a
  key_eq : a.tournament = key
  address : a.matchAccount = .matchNode key slot
  record : v.record = some t
  running : t.status = .active
  node : v.node slot = some m
  active : m.status = .active
  player : m.hasPlayer winner
  decided : Decides t m clock winner ix
  bound : t.matchesReported + 1 ≤ u16Max
  stats : (t.settlementMode = .organizerOnly ∧ p' = v.participant) ∨ Credited m winner v.participant p'

/-- The call pays refunds, on the record it finds or on the flipped one. -/
def Refunding (t : Tournament) (a : CancelTournament) (t' : Tournament) : Instruction → Prop
  | .cancelTournament b => b = a ∧
      (t.status = .registration ∨ t.status = .pendingBracketInit ∨ t.status = .cancelled) ∧
      flipCancelled a t = .ok t'
  | .partialRefundChunk b => b = a ∧ t.status = .partialCancelled ∧ t' = t
  | _ => False

def CancelTournament.returnsDeposit (a : CancelTournament) (t : Tournament) : Bool :=
  0 < t.organizerDeposit && !t.organizerDepositRefunded && a.organizerTokenAccount.isSome

/-- The payments of a refund call to the wallets `ws`, deposit first. -/
def refunds (t : Tournament) (deposit : Bool) (ws : List Pubkey) : List (Pubkey × Nat) :=
  (if deposit then [(t.organizer, t.organizerDeposit)] else []) ++ ws.map fun w => (w, t.entryFee)

def total (payments : List (Pubkey × Nat)) : Nat := (payments.map Prod.snd).sum

def refundAll (ws : List Pubkey) (p : Pubkey → Option Participant) : Pubkey → Option Participant :=
  fun w => if w ∈ ws then (p w).map Participant.refunded else p w

/-- The wallets that a refund call over `ps` pays: every one of its unpaid
participants, once. -/
structure Owed (key : Pubkey) (participant : Pubkey → Option Participant) (ps : List (Pubkey × Pubkey))
    (ws : List Pubkey) : Prop where
  distinct : ws.Nodup
  unpaid : ∀ w ∈ ws, ∃ x, participant w = some x ∧ x.refundPaid = false
  listed : ∀ w ∈ ws, ∃ ata, (.participant key w, ata) ∈ ps
  all : ∀ pair ∈ ps, ∃ w x, pair.1 = .participant key w ∧ participant w = some x ∧
    (x.refundPaid = false → w ∈ ws)

/-- The view without the children at the addresses `closed`. -/
def TournamentView.without (key : Pubkey) (closed : List Pubkey) (v : TournamentView) : TournamentView :=
  { v with
    participant := fun w => if .participant key w ∈ closed then none else v.participant w
    node := fun slot => if .matchNode key slot ∈ closed then none else v.node slot }

/-- The abstract life of one tournament: what a step of the ledger may do to
its view. -/
inductive Effect (rt : Runtime) (key : Pubkey) (clock : Clock) :
    Action → TournamentView → TournamentView → Prop
  | others {a : Action} {v : TournamentView} (k : Nat) (other : a.tournament ≠ some key) :
      Effect rt key clock a v (v.credit k)
  | create {v : TournamentView} (a : CreateTournament) (key_eq : a.key = key)
      (signer : a.organizer.canSign = true) (unopened : v.record = none)
      (checked : a.check clock.unixTimestamp = .ok ()) :
      Effect rt key clock (.call (.createTournament a)) v { v with
        record := some (a.record clock.unixTimestamp)
        vault := some ⟨a.tokenMint, key, a.organizerDeposit, false⟩ }
  | join {v : TournamentView} (a : JoinTournament) (key_eq : a.tournament = key)
      (signer : a.player.canSign = true) {t : Tournament} {u : TokenAccount} (identity : Bytes32 × Pubkey)
      (record : v.record = some t) (vault : v.vault = some u) (new : v.participant a.player = none)
      (open_ : t.status = .registration) (early : clock.unixTimestamp < t.registrationDeadline)
      (room : t.participantCount < t.maxParticipants) :
      Effect rt key clock (.call (.joinTournament a)) v { v with
        record := some { t with participantCount := t.participantCount + 1 }
        participant := Function.update v.participant a.player
          (some (newParticipant key a.player t.participantCount identity))
        vault := some (TokenAccount.plus u t.entryFee) }
  | requestSeed {v : TournamentView} (a : RequestSeed) (key_eq : a.tournament = key) {t : Tournament}
      (record : v.record = some t) (organizer : a.organizer = t.organizer)
      (open_ : t.status = .registration) (mode : t.settlementMode ≠ .organizerOnly)
      (hidden : t.seedRevealed = false) :
      Effect rt key clock (.call (.requestSeed a)) v { v with
        record := some { t with vrfRandomnessAccount := a.randomnessAccount, vrfCommitSlot := clock.slot } }
  | revealSeed {v : TournamentView} (a : RevealSeed) (key_eq : a.tournament = key) {t : Tournament}
      (value : Bytes32) (record : v.record = some t)
      (committed : a.randomnessAccount = t.vrfRandomnessAccount) (hidden : t.seedRevealed = false) :
      Effect rt key clock (.call (.revealSeed a)) v { v with
        record := some { t with seedHash := value, seedRevealed := true } }
  | start {v : TournamentView} (a : StartTournament) (key_eq : a.tournament = key) {t t₁ t₂ : Tournament}
      (record : v.record = some t) (organizer : a.organizer = t.organizer) (opens : Opens t t₁)
      (chunk : Chunk rt key v t₁ a.descriptors)
      (tallied : tally t₁ a.descriptors.length (byesOf a.descriptors) clock.unixTimestamp = .ok t₂)
      (bound : a.descriptors.length ≤ u16Max) :
      Effect rt key clock (.call (.startTournament a)) v { v with
        record := some t₂
        node := place key a.descriptors v.node }
  | edit {v : TournamentView} (ix : Instruction) (a : MatchAccounts) (slot : Slot) {t : Tournament}
      {m m' : MatchNode} (call : Instruction.edit? ix = some a) (key_eq : a.tournament = key)
      (address : a.matchAccount = .matchNode key slot) (record : v.record = some t)
      (node : v.node slot = some m) (edits : Edits t clock m ix m') :
      Effect rt key clock (.call ix) v { v with node := Function.update v.node slot (some m') }
  | advance {v : TournamentView} (ix : Instruction) (a : FinalizeAccounts) (slot next : Slot) {t : Tournament}
      {m n : MatchNode} {winner : Pubkey} {p' : Pubkey → Option Participant}
      (finalizes : Finalizes key clock v ix a slot t m winner p') (inner : ¬ isFinal t m)
      (next_address : a.nextMatch = some (.matchNode key next)) (parent : v.node next = some n)
      (round : n.round = m.round + 1) (index : n.matchIndex = m.matchIndex / 2) :
      Effect rt key clock (.call ix) v { v with
        record := some (Tournament.counted t)
        participant := p'
        node := Function.update (Function.update v.node slot (some (MatchNode.complete m winner))) next
          (some (MatchNode.advance n m.matchIndex winner)) }
  | conclude {v : TournamentView} (ix : Instruction) (a : FinalizeAccounts) (slot : Slot) {t : Tournament}
      {m : MatchNode} {winner : Pubkey} {p' : Pubkey → Option Participant} (u : TokenAccount)
      (paid : List (Pubkey × Nat)) (finalizes : Finalizes key clock v ix a slot t m winner p')
      (last : isFinal t m) (no_next : a.nextMatch = none) :
      Effect rt key clock (.call ix) v {
        record := some (Tournament.concluded t winner clock.unixTimestamp)
        participant := p'
        node := Function.update v.node slot (some (MatchNode.complete m winner))
        vault := some u
        paid := paid }
  | refund {v : TournamentView} (ix : Instruction) (a : CancelTournament) (key_eq : a.tournament = key)
      {t t' : Tournament} {u : TokenAccount} (ws : List Pubkey) (record : v.record = some t)
      (vault : v.vault = some u) (refunding : Refunding t a t' ix)
      (owed : Owed key v.participant (pairs a.remainingAccounts) ws)
      (funded : total (refunds t (CancelTournament.returnsDeposit a t') ws) ≤ u.amount) :
      Effect rt key clock (.call ix) v { v with
        record := some (if CancelTournament.returnsDeposit a t' then Tournament.depositReturned t' else t')
        participant := refundAll ws v.participant
        vault := some (TokenAccount.minus u (total (refunds t (CancelTournament.returnsDeposit a t') ws)))
        paid := v.paid ++ refunds t (CancelTournament.returnsDeposit a t') ws }
  | partialCancel {v : TournamentView} (a : PartialCancel) (key_eq : a.tournament = key) {t : Tournament}
      (record : v.record = some t) (organizer : a.organizer = t.organizer) (running : t.status = .active) :
      Effect rt key clock (.call (.partialCancelTournament a)) v
        { v with record := some { t with status := .partialCancelled } }
  | closeChildren {v : TournamentView} (a : CloseTournament) (key_eq : a.tournament = key) {t : Tournament}
      (closed : List Pubkey) (record : v.record = some t) (ended : terminal t.status)
      (listed : ∀ p ∈ closed, p ∈ a.remainingAccounts) (kept : a.closeRoot = false) :
      Effect rt key clock (.call (.closeTournament a)) v (TournamentView.without key closed v)
  | closeRoot {v : TournamentView} (a : CloseTournament) (key_eq : a.tournament = key) {t : Tournament}
      {u : TokenAccount} (closed : List Pubkey) (record : v.record = some t) (vault : v.vault = some u)
      (ended : terminal t.status) (listed : ∀ p ∈ closed, p ∈ a.remainingAccounts)
      (root : a.closeRoot = true) (empty : u.amount = 0) :
      Effect rt key clock (.call (.closeTournament a)) v
        { TournamentView.without key closed v with record := none, vault := none }

end BracketChain.Lifecycle
