import BracketChain.Migrations
import BracketChain.Refinement

namespace BracketChain.Upgrade

open Outcome Keys Records Accounts Registration Refunds Program Layout RefundEffects Wire Serial Migrations

section Records

variable (address : List UInt8 → Pubkey)

def Preset.record : Preset → PayoutPreset
  | .winnerTakesAll => .winnerTakesAll
  | .standard => .standard
  | .deep => .deep
  | .custom slots => .custom (slots.map UInt16.toNat)

/-- The records that the stored structs stand for; `address` is the key that
32 bytes are. -/
def tournamentRecord (t : TournamentHead Preset × TournamentTail) : Tournament where
  organizer := address t.1.organizer.toList
  name := t.1.name.1.1
  tokenMint := address t.1.tokenMint.toList
  vault := address t.1.vault.toList
  entryFee := t.1.entryFee.toNat
  organizerDeposit := t.1.organizerDeposit.toNat
  organizerDepositRefunded := t.1.organizerDepositRefunded
  maxParticipants := t.1.maxParticipants.toNat
  bracketSize := t.1.bracketSize.toNat
  participantCount := t.1.participantCount.toNat
  matchesInitialized := t.1.matchesInitialized.toNat
  matchesReported := t.1.matchesReported.toNat
  totalMatches := t.1.totalMatches.toNat
  registrationDeadline := t.1.registrationDeadline.toInt
  createdAt := t.1.createdAt.toInt
  startedAt := t.1.startedAt.toInt
  completedAt := t.1.completedAt.toInt
  status := t.1.status
  payoutPreset := Preset.record t.1.payoutPreset
  seedHash := t.1.seedHash
  champion := address t.1.champion.toList
  game := t.2.game
  settlementMode := t.2.settlementMode
  disputeWindowSecs := t.2.disputeWindowSecs.toNat
  vrfRandomnessAccount := address t.2.vrfRandomnessAccount.toList
  vrfCommitSlot := t.2.vrfCommitSlot.toNat
  seedRevealed := t.2.seedRevealed
  arbitrator := address t.2.arbitrator.toList

def participantRecord (p : ParticipantHead × ParticipantTail) : Participant where
  tournament := address p.1.tournament.toList
  wallet := address p.1.wallet.toList
  seedIndex := p.1.seedIndex.toNat
  refundPaid := p.1.refundPaid
  identityHash := p.2.identityHash
  identityAttestation := address p.2.identityAttestation.toList
  wins := p.2.wins.toNat
  losses := p.2.losses.toNat
  pointsFor := p.2.pointsFor.toNat
  pointsAgainst := p.2.pointsAgainst.toNat

def commitmentRecord (c : CommitmentData) : MatchCommitment where
  lobbyId := c.lobbyId
  playerAGameId := c.playerAGameId
  playerBGameId := c.playerBGameId
  expectedFeedHash := c.expectedFeedHash
  committedAt := c.committedAt.toInt
  committedSlot := c.committedSlot.toNat

def matchNodeRecord (m : MatchNodeData) : MatchNode where
  tournament := address m.tournament.toList
  bracket := m.bracket.toNat
  round := m.round.toNat
  matchIndex := m.matchIndex.toNat
  playerA := address m.playerA.toList
  playerB := address m.playerB.toList
  winner := address m.winner.toList
  status := m.status
  bye := m.bye
  bump := m.bump.toNat
  proposalSource := m.proposalSource
  proposer := address m.proposer.toList
  proposedWinner := address m.proposedWinner.toList
  proposedAt := m.proposedAt.toInt
  claimDeadline := m.claimDeadline.toInt
  disputed := m.disputed
  disputeReason := m.disputeReason.toNat
  commitment := m.commitment.map commitmentRecord
  switchboardFeed := address m.switchboardFeed.toList

def configRecord (c : ConfigHead × ConfigSas × ConfigOracle) : ProtocolConfig where
  authority := address c.1.authority.toList
  treasury := address c.1.treasury.toList
  defaultMint := address c.1.defaultMint.toList
  feeBps := c.1.feeBps.toNat
  sasCredential := address c.2.1.sasCredential.toList
  sasSchemas := c.2.1.sasSchemas.map fun k => address k.toList
  switchboardQueue := address c.2.2.switchboardQueue.toList
  maxStaleSlots := c.2.2.maxStaleSlots.toNat
  minOracleSamples := c.2.2.minOracleSamples.toNat

/-- The record that the data of an account of this program hold, if any. -/
def readAccount (data : List UInt8) : Option Account :=
  if data.take 8 = tournamentDiscriminator then
    (tryDeserialize tournamentDiscriminator tournament data).map fun t => .tournament (tournamentRecord address t)
  else if data.take 8 = participantDiscriminator then
    (tryDeserialize participantDiscriminator participant data).map fun p => .participant (participantRecord address p)
  else if data.take 8 = matchNodeDiscriminator then
    (tryDeserialize matchNodeDiscriminator matchNode data).map fun m => .matchNode (matchNodeRecord address m)
  else
    (tryDeserialize configDiscriminator protocolConfig data).map fun c => .protocolConfig (configRecord address c)

variable {address}

theorem readAccount_config {data : List UInt8} (tag : data.take 8 = configDiscriminator) : readAccount address data =
    (tryDeserialize configDiscriminator protocolConfig data).map fun c => .protocolConfig (configRecord address c) := by
  rw [readAccount, tag, if_neg (by decide), if_neg (by decide), if_neg (by decide)]

theorem readAccount_tournament {data : List UInt8} (tag : data.take 8 = tournamentDiscriminator) :
    readAccount address data =
      (tryDeserialize tournamentDiscriminator tournament data).map fun t => .tournament (tournamentRecord address t) :=
  if_pos tag

end Records

variable {address : List UInt8 → Pubkey}

/-- A ledger, and the accounts that the program owns under the layout of an
earlier version. No current struct comes out of their data, so whoever asks
for a record at their addresses finds none; but the addresses are taken. -/
structure Deployment (address : List UInt8 → Pubkey) where
  ledger : Ledger
  old : List (Pubkey × List UInt8)
  absent : ∀ e ∈ old, (ledger.accounts e.1).isSystem = true
  unread : ∀ e ∈ old, readAccount address e.2 = none

namespace Deployment

/-- A deployment whose accounts all have the current layout. -/
def fresh (s : Ledger) : Deployment address := ⟨s, [], nofun, nofun⟩

/-- A change of the ledger that takes no address of an old account. -/
def keep (d : Deployment address) (r : Except Error Ledger) : Except Error (Deployment address) := do
  let s ← r
  if h : ∀ e ∈ d.old, (s.accounts e.1).isSystem = true then .ok ⟨s, d.old, h, d.unread⟩ else .error .accountAlreadyInUse

theorem mem_without {d : Deployment address} {p : Pubkey} {e : Pubkey × List UInt8}
    (h : e ∈ d.old.filter fun e => e.1 ≠ p) : e ∈ d.old ∧ e.1 ≠ p := by
  simpa using List.mem_filter.1 h

theorem mem_of_lookup {d : Deployment address} {p : Pubkey} {data : List UInt8} (h : d.old.lookup p = some data) :
    (p, data) ∈ d.old := by
  obtain ⟨l₁, l₂, split, _⟩ := List.lookup_eq_some_iff.1 h
  rw [split]
  exact List.mem_append_right _ List.mem_cons_self

/-- Drain an old account: its address is free again. -/
def dropped (d : Deployment address) (p dest : Pubkey) : Deployment address where
  ledger := d.ledger.drainAccount p dest
  old := d.old.filter fun e => e.1 ≠ p
  absent e he := by
    obtain ⟨mem, apart⟩ := mem_without he
    have same : (d.ledger.drainAccount p dest).accounts e.1 = d.ledger.accounts e.1 := Function.update_of_ne apart _ _
    rw [same]
    exact d.absent e mem
  unread e he := d.unread e (mem_without he).1

/-- The ledger with the lamports that a migration has moved. -/
def funded (s : Ledger) (p payer : Pubkey) (ai : AccountInfo) (balance : Nat) : Ledger :=
  { s with lamports := Function.update (Function.update s.lamports payer balance) p ai.lamports }

/-- An account that has grown is a record as soon as a current struct comes
out of its data. -/
def reload (d : Deployment address) (p payer : Pubkey) {data : List UInt8} (taken : d.old.lookup p = some data)
    (ai : AccountInfo) (balance : Nat) : Deployment address :=
  match h : readAccount address ai.data with
  | some a =>
    { ledger := (funded d.ledger p payer ai balance).setAccount p a
      old := d.old.filter fun e => e.1 ≠ p
      absent := by
        intro e he
        obtain ⟨mem, apart⟩ := mem_without he
        rw [Ledger.setAccount_accounts, if_neg apart]
        exact d.absent e mem
      unread := fun e he => d.unread e (mem_without he).1 }
  | none =>
    { ledger := funded d.ledger p payer ai balance
      old := (p, ai.data) :: d.old.filter fun e => e.1 ≠ p
      absent := List.forall_mem_cons.2 ⟨d.absent (p, data) (mem_of_lookup taken), fun e he => d.absent e (mem_without he).1⟩
      unread := List.forall_mem_cons.2 ⟨h, fun e he => d.unread e (mem_without he).1⟩ }

/-- A migration. Accounts of the current layout have its size already. -/
def migrate (d : Deployment address) (p payer : Pubkey)
    (f : Nat → AccountInfo → Except Error (AccountInfo × Nat)) : Except Error (Deployment address) :=
  match taken : d.old.lookup p with
  | none => .error .migrationNotNeeded
  | some data => do
      let (ai, balance) ← f (d.ledger.lamports payer) ⟨programId, d.ledger.lamports p, data⟩
      pure (d.reload p payer taken ai balance)

def migrateProtocolConfig (rt : Runtime) (authority : Pubkey) (d : Deployment address) :
    Except Error (Deployment address) :=
  d.migrate .protocolConfig authority (Migrations.migrateProtocolConfig rt authority)

def migrateV1Tournament (rt : Runtime) (authority tournament : Pubkey) (d : Deployment address) :
    Except Error (Deployment address) := do
  let config ← d.ledger.loadConfig
  d.migrate tournament authority (Migrations.migrateV1Tournament rt config authority)

/-- One pass of the child loop, which asks no account for its layout. -/
def closeChild (key organizer : Pubkey) (d : Deployment address) (child : Pubkey) : Except Error (Deployment address) :=
  match d.old.lookup child with
  | none => d.keep (Refunds.closeChild key organizer d.ledger child)
  | some data =>
      if d.ledger.lamports child = 0 then .ok d
      else do
        require (40 ≤ data.length) .invalidMatchIndex
        require (address (slice data 8 40) = key) .invalidMatchIndex
        require (d.ledger.lamports organizer + d.ledger.lamports child ≤ u64Max) .arithmeticOverflow
        pure (d.dropped child organizer)

def closeTournament (a : CloseTournament) (d : Deployment address) : Except Error (Deployment address) := do
  let t ← d.ledger.loadTournament a.tournament
  require (a.organizer = t.organizer) .unauthorizedAuthority
  require ((d.ledger.accounts a.organizer).isSystem = true) .constraintAddress
  let vault ← d.ledger.loadVault a.tournament t
  require (terminal t.status) .tournamentInProgress
  let swept ← each (closeChild a.tournament a.organizer) d a.remainingAccounts
  if a.closeRoot = true then do
    require (swept.ledger.lamports a.organizer = d.ledger.lamports a.organizer) .unbalancedInstruction
    swept.keep (closeRoot a.tournament a.organizer vault swept.ledger)
  else pure swept

/-- What the runtime asks of an account that pays for a migration. -/
def paid (rt : Runtime) (payer : Pubkey) (d d' : Deployment address) : Except Error (Deployment address) := do
  require (d'.ledger.lamports payer = d.ledger.lamports payer ∨ (d.ledger.accounts payer).isSystem = true) .notAllowed
  require (RentAllows (rt.minimumBalance 0) (d.ledger.lamports payer) (d'.ledger.lamports payer))
    .insufficientFundsForRent
  pure d'

end Deployment

inductive Action
  | program (b : Program.Action)
  | migrateProtocolConfig (authority : Pubkey)
  | migrateV1Tournament (authority tournament : Pubkey)

/-- One step of a deployment. All instructions but `close_tournament` load
their accounts as records. -/
def Action.run (rt : Runtime) : Action → Deployment address → Except Error (Deployment address)
  | program (.call (.closeTournament a)), d => do
      require (a.caller.canSign = true) .missingSignature
      d.closeTournament a
  | program b, d => d.keep (b.run rt d.ledger)
  | migrateProtocolConfig authority, d => do
      require (authority.canSign = true) .missingSignature
      let d' ← d.migrateProtocolConfig rt authority
      d.paid rt authority d'
  | migrateV1Tournament authority tournament, d => do
      require (authority.canSign = true) .missingSignature
      let d' ← d.migrateV1Tournament rt authority tournament
      d.paid rt authority d'

def Step (rt : Runtime) (d : Deployment address) (a : Action) (d' : Deployment address) : Prop := a.run rt d = .ok d'

abbrev History (address : List UInt8 → Pubkey) := List (Deployment address × Action)

variable {rt : Runtime} {d d' : Deployment address} {s : Ledger}

theorem keep_ok {r : Except Error Ledger} (h : d.keep r = .ok d') : r = .ok d'.ledger ∧ d'.old = d.old := by
  simp only [Deployment.keep, bind_ok] at h
  obtain ⟨s, hs, h⟩ := h
  split at h
  · obtain rfl := Except.ok.inj h
    exact ⟨hs, rfl⟩
  · cases h

theorem paid_ok {payer : Pubkey} {d' d'' : Deployment address} : d.paid rt payer d' = .ok d'' ↔
    (d'.ledger.lamports payer = d.ledger.lamports payer ∨ (d.ledger.accounts payer).isSystem = true) ∧
      RentAllows (rt.minimumBalance 0) (d.ledger.lamports payer) (d'.ledger.lamports payer) ∧ d' = d'' := by
  simp only [Deployment.paid, bind_ok, require_ok, pure_ok, exists_const]

theorem keep_succeeds (free : ∀ e ∈ d.old, (s.accounts e.1).isSystem = true) :
    d.keep (.ok s) = .ok ⟨s, d.old, free, d.unread⟩ := by
  simp only [Deployment.keep, bind, Except.bind]
  rw [dif_pos free]

/-- Accounts of a tournament are gone, and all others as before. -/
def Pruned (s s' : Ledger) : Prop :=
  ∀ p, s'.accounts p = s.accounts p ∨ (s'.accounts p = .system ∧ p.home ≠ none)

theorem Pruned.trans {s t u : Ledger} (h : Pruned s t) (h' : Pruned t u) : Pruned s u := by
  intro p
  rcases h' p with same | gone
  · rw [same]
    exact h p
  · exact .inr gone

theorem Pruned.wf {s s' : Ledger} (h : Pruned s s') (wf : Wellformed s) : Wellformed s' := by
  intro p
  rcases h p with same | ⟨gone, _⟩
  · rw [same]
    exact wf p
  · rw [gone]
    trivial

theorem pruned_drain {p dest : Pubkey} (home : p.home ≠ none) : Pruned s (s.drainAccount p dest) := by
  intro q
  by_cases same : q = p
  · subst same
    exact .inr ⟨Function.update_self _ _ _, home⟩
  · exact .inl (Function.update_of_ne same _ _)

/-- What a step does to the records and to the old accounts. -/
inductive Change (rt : Runtime) (d d' : Deployment address) : Action → Prop
  | program (b : Program.Action) (next : Program.Step rt d.ledger b d'.ledger) (old : d'.old = d.old) :
      Change rt d d' (.program b)
  | closed (c : CloseTournament) (pruned : Pruned d.ledger d'.ledger) (old : ∀ e ∈ d'.old, e ∈ d.old) :
      Change rt d d' (.program (.call (.closeTournament c)))
  | woken (a : Action) (e : Pubkey × List UInt8) (n : Nat) (r : Account) (mem : e ∈ d.old)
      (read : readAccount address (e.2 ++ List.replicate n 0) = some r)
      (kind : (∃ t, r = .tournament t) ∨ ∃ c, r = .protocolConfig c)
      (accounts : d'.ledger.accounts = (d.ledger.setAccount e.1 r).accounts) (old : ∀ x ∈ d'.old, x ∈ d.old) :
      Change rt d d' a
  | grown (a : Action) (e : Pubkey × List UInt8) (n : Nat) (mem : e ∈ d.old)
      (accounts : d'.ledger.accounts = d.ledger.accounts)
      (old : ∀ x ∈ d'.old, x ∈ d.old ∨ x = (e.1, e.2 ++ List.replicate n 0)) : Change rt d d' a

section Steps

variable {key organizer child : Pubkey}

theorem closeChild_pruned (wf : Wellformed d.ledger) (hk : key.isTournament = true)
    (h : d.closeChild key organizer child = .ok d') : Pruned d.ledger d'.ledger ∧ ∀ e ∈ d'.old, e ∈ d.old := by
  unfold Deployment.closeChild at h
  split at h
  · obtain ⟨closed, same⟩ := keep_ok h
    refine ⟨?_, fun e he => same ▸ he⟩
    simp only [Refunds.closeChild, ite_ok, bind_ok, require_ok, orThrow_ok, pure_ok] at closed
    rcases closed with ⟨_, closed⟩ | ⟨_, _, _, embedded, hemb, _, rfl, _, _, closed⟩
    · rw [← Except.ok.inj closed]
      exact fun _ => .inl rfl
    · rw [← closed]
      obtain ⟨_, rfl⟩ | ⟨_, rfl⟩ := embedded_child wf hk hemb <;> exact pruned_drain (Option.some_ne_none _)
  · rename_i data taken
    simp only [ite_ok, bind_ok, require_ok, pure_ok] at h
    rcases h with ⟨_, h⟩ | ⟨_, _, _, _, _, _, _, rfl⟩
    · obtain rfl := Except.ok.inj h
      exact ⟨fun _ => .inl rfl, fun _ he => he⟩
    · refine ⟨fun p => .inl ?_, fun e he => (Deployment.mem_without he).1⟩
      by_cases same : p = child
      · subst same
        have vacant := Ledger.isSystem_iff.1 (d.absent _ (Deployment.mem_of_lookup taken))
        exact (Function.update_self _ _ _).trans vacant.symm
      · exact Function.update_of_ne same _ _

theorem closeChildren_pruned {children : List Pubkey} (wf : Wellformed d.ledger) (hk : key.isTournament = true)
    (h : each (Deployment.closeChild key organizer) d children = .ok d') :
    Pruned d.ledger d'.ledger ∧ ∀ e ∈ d'.old, e ∈ d.old := by
  induction children generalizing d with
  | nil =>
      obtain rfl := Except.ok.inj h
      exact ⟨fun _ => .inl rfl, fun _ he => he⟩
  | cons child children ih =>
      obtain ⟨m, hm, rest⟩ := (each_cons_ok _ _ _ _ _).1 h
      obtain ⟨first, old⟩ := closeChild_pruned wf hk hm
      obtain ⟨more, old'⟩ := ih (first.wf wf) rest
      exact ⟨first.trans more, fun e he => old e (old' e he)⟩

theorem close_pruned {c : CloseTournament} (wf : Wellformed d.ledger) (h : d.closeTournament c = .ok d') :
    Pruned d.ledger d'.ledger ∧ ∀ e ∈ d'.old, e ∈ d.old := by
  simp only [Deployment.closeTournament, bind_ok, ite_ok, pure_ok, Ledger.loadTournament_ok] at h
  obtain ⟨t, ⟨ht, address_⟩, _, _, _, _, u, _, _, _, m, children, h⟩ := h
  obtain ⟨pruned, old⟩ := closeChildren_pruned wf (isTournament_of_record wf ht) children
  rcases h with ⟨_, _, _, h⟩ | ⟨_, rfl⟩
  · obtain ⟨closed, same⟩ := keep_ok h
    refine ⟨pruned.trans ?_, fun e he => old e (same ▸ he)⟩
    simp only [closeRoot, bind_ok, pure_ok] at closed
    obtain ⟨_, _, closed⟩ := closed
    have home : c.tournament.home ≠ none := by
      rw [address_]
      exact Option.some_ne_none _
    have vault : (Pubkey.vault c.tournament).home ≠ none := Option.some_ne_none _
    rw [← closed]
    exact (pruned_drain vault).trans (pruned_drain home)
  · exact ⟨pruned, old⟩

theorem read_kind {data : List UInt8} {r : Account} (h : readAccount address data = some r)
    (tag : data.take 8 = tournamentDiscriminator ∨ data.take 8 = configDiscriminator) :
    (∃ t, r = .tournament t) ∨ ∃ c, r = .protocolConfig c := by
  rcases tag with tag | tag
  · rw [readAccount_tournament tag, Option.map_eq_some_iff] at h
    obtain ⟨t, _, rfl⟩ := h
    exact .inl ⟨_, rfl⟩
  · rw [readAccount_config tag, Option.map_eq_some_iff] at h
    obtain ⟨c, _, rfl⟩ := h
    exact .inr ⟨_, rfl⟩

/-- The account that a migration has grown is read again. -/
theorem migrate_change (size : Nat) {a : Action} {p payer : Pubkey}
    {f : Nat → AccountInfo → Except Error (AccountInfo × Nat)}
    (grows : ∀ balance ai r, f balance ai = .ok r → grow rt size balance ai = .ok r ∧
      (ai.data.take 8 = tournamentDiscriminator ∨ ai.data.take 8 = configDiscriminator))
    (h : d.migrate p payer f = .ok d') : Change rt d d' a := by
  unfold Deployment.migrate at h
  split at h
  · cases h
  · rename_i data taken
    simp only [bind_ok, pure_ok] at h
    obtain ⟨⟨ai, balance⟩, migrated, rfl⟩ := h
    obtain ⟨grown, tag⟩ := grows _ _ _ migrated
    obtain ⟨_, _, data'⟩ := grow_ok grown
    have mem := Deployment.mem_of_lookup taken
    unfold Deployment.reload
    split
    · rename_i r read
      rw [data'] at read
      refine .woken a (p, data) _ r mem read (read_kind read ?_) rfl fun e he => (Deployment.mem_without he).1
      have long : 8 ≤ data.length := by
        have eight : min 8 data.length = 8 := by
          rw [← List.length_take]
          rcases tag with tag | tag <;> exact congrArg List.length tag
        omega
      rwa [List.take_append_of_le_length long]
    · refine .grown a (p, data) (size - data.length) mem rfl fun e he => ?_
      rcases List.mem_cons.1 he with rfl | he
      · exact .inr (congrArg (Prod.mk p) data')
      · exact .inl (Deployment.mem_without he).1

theorem step_change {a : Action} (wf : Wellformed d.ledger) (h : Step rt d a d') : Change rt d d' a := by
  unfold Step Action.run at h
  split at h
  · simp only [bind_ok] at h
    obtain ⟨_, _, h⟩ := h
    obtain ⟨pruned, old⟩ := close_pruned wf h
    exact .closed _ pruned old
  · obtain ⟨next, old⟩ := keep_ok h
    exact .program _ next old
  · simp only [bind_ok, paid_ok] at h
    obtain ⟨_, _, d', h, _, _, rfl⟩ := h
    refine migrate_change protocolConfigSpace (fun balance ai r migrated => ⟨migrateConfig_grow migrated, ?_⟩) h
    simp only [Migrations.migrateProtocolConfig, bind_ok, require_ok] at migrated
    obtain ⟨_, _, _, _, _, tag, _⟩ := migrated
    exact .inr tag
  · simp only [Deployment.migrateV1Tournament, bind_ok, paid_ok] at h
    obtain ⟨_, _, d', ⟨config, _, h⟩, _, _, rfl⟩ := h
    refine migrate_change tournamentSpace (fun balance ai r migrated => ⟨migrateV1_grow migrated, ?_⟩) h
    simp only [Migrations.migrateV1Tournament, bind_ok, require_ok] at migrated
    obtain ⟨_, _, _, _, _, _, _, tag, _⟩ := migrated
    exact .inl tag

end Steps

theorem reload_woken {p : Pubkey} {data : List UInt8} {ai : AccountInfo} {r : Account} (payer : Pubkey)
    (taken : d.old.lookup p = some data) (balance : Nat) (read : readAccount address ai.data = some r) :
    (d.reload p payer taken ai balance).ledger = (Deployment.funded d.ledger p payer ai balance).setAccount p r ∧
      (d.reload p payer taken ai balance).old = d.old.filter fun e => e.1 ≠ p := by
  unfold Deployment.reload
  split
  · rename_i r' read'
    obtain rfl := Option.some.inj (read'.symm.trans read)
    exact ⟨rfl, rfl⟩
  · rename_i unread
    cases unread.symm.trans read

theorem reload_lamports (p payer : Pubkey) {data : List UInt8} (taken : d.old.lookup p = some data) (ai : AccountInfo)
    (balance : Nat) : (d.reload p payer taken ai balance).ledger.lamports =
      (Deployment.funded d.ledger p payer ai balance).lamports := by
  unfold Deployment.reload
  split <;> rfl

theorem migrate_ok {p payer : Pubkey} {data : List UInt8} {f : Nat → AccountInfo → Except Error (AccountInfo × Nat)}
    {ai : AccountInfo} {balance : Nat} (taken : d.old.lookup p = some data)
    (migrated : f (d.ledger.lamports payer) ⟨programId, d.ledger.lamports p, data⟩ = .ok (ai, balance)) :
    d.migrate p payer f = .ok (d.reload p payer taken ai balance) := by
  unfold Deployment.migrate
  split
  · rename_i none_
    cases none_.symm.trans taken
  · rename_i data' taken'
    obtain rfl := Option.some.inj (taken'.symm.trans taken)
    rw [migrated]
    rfl

section Fresh

theorem eq_fresh (h : d.old = []) : d = Deployment.fresh d.ledger := by
  obtain ⟨s, old, _, _⟩ := d
  obtain rfl : old = [] := h
  rfl

theorem keep_fresh (s : Ledger) (r : Except Error Ledger) :
    (Deployment.fresh s : Deployment address).keep r = r.map Deployment.fresh := by
  cases r with
  | error e => rfl
  | ok t =>
      have free : ∀ e ∈ (Deployment.fresh s : Deployment address).old, (t.accounts e.1).isSystem = true := nofun
      exact keep_succeeds free

theorem closeChildren_fresh (key organizer : Pubkey) (children : List Pubkey) (s : Ledger) :
    each (Deployment.closeChild key organizer) (Deployment.fresh s : Deployment address) children =
      (each (Refunds.closeChild key organizer) s children).map Deployment.fresh := by
  induction children generalizing s with
  | nil => rfl
  | cons child children ih =>
      have first : Deployment.closeChild key organizer (Deployment.fresh s : Deployment address) child =
          (Refunds.closeChild key organizer s child).map Deployment.fresh := keep_fresh s _
      rw [each, each, first]
      cases Refunds.closeChild key organizer s child with
      | error e => rfl
      | ok t => exact ih t

theorem closeTournament_fresh (a : CloseTournament) (s : Ledger) :
    (Deployment.fresh s : Deployment address).closeTournament a = (Refunds.closeTournament a s).map Deployment.fresh := by
  simp only [Deployment.closeTournament, Refunds.closeTournament, map_bind]
  refine bind_congr fun t => bind_congr fun _ => bind_congr fun _ => bind_congr fun vault => bind_congr fun _ => ?_
  rw [closeChildren_fresh, bind_map]
  refine bind_congr fun swept => ?_
  split
  · rw [map_bind]
    exact bind_congr fun _ => keep_fresh swept _
  · rfl

/-- A closing call opens no account. -/
theorem closeCall_run (rt : Runtime) (a : CloseTournament) (s : Ledger) :
    (Program.Action.call (.closeTournament a)).run rt s = (do
      require (a.caller.canSign = true) .missingSignature
      Refunds.closeTournament a s) := by
  have executed : (Program.Action.call (.closeTournament a)).execute rt s = (do
      require (a.caller.canSign = true) .missingSignature
      Refunds.closeTournament a s) := rfl
  rw [Program.Action.run, executed]
  cases ran : (do
      require (a.caller.canSign = true) Error.missingSignature
      Refunds.closeTournament a s) with
  | error => rfl
  | ok t => simp [Program.Action.charged, Instruction.payer, require, bind, Except.bind, pure, Except.pure]

/-- Without old accounts a deployment steps as its ledger does. -/
theorem fresh_run (rt : Runtime) (b : Program.Action) (s : Ledger) :
    (Action.program b).run rt (Deployment.fresh s : Deployment address) = (b.run rt s).map Deployment.fresh := by
  cases b with
  | outside e => exact keep_fresh s _
  | call ix =>
      cases ix with
      | closeTournament a =>
          rw [closeCall_run, Action.run, map_bind]
          exact bind_congr fun _ => closeTournament_fresh a s
      | _ => exact keep_fresh s _

theorem fresh_lift {start : Ledger} {past : Program.History} (run : Program.Run rt start past s) :
    Runs.Run (Step rt) (Deployment.fresh start : Deployment address)
      (past.map fun e => (Deployment.fresh e.1, .program e.2)) (Deployment.fresh s) := by
  induction run with
  | nil => exact .nil
  | snoc _ next ih =>
      rw [List.map_append]
      refine ih.snoc ?_
      rw [Step, fresh_run, next]
      rfl

end Fresh

end BracketChain.Upgrade
