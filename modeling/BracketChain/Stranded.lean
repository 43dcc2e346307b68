import BracketChain.Upgrade

namespace BracketChain.Stranded

open Outcome Keys Records Accounts Registration Refunds Program Scripts Wire Serial Migrations Upgrade

variable {address : List UInt8 → Pubkey}

/-- A tournament of the first version in its registration, with the players
that had joined. -/
structure PreV1 (d : Deployment address) (key : Pubkey) (head : TournamentHead FixedPreset) (joined : List Pubkey) :
    Prop where
  short : head.name.1.1.length ≤ maxTournamentNameLen
  account : ∃ pad, d.old.lookup key =
    some (tournamentDiscriminator ++ ((tournamentHead fixedPreset).encode head ++ List.replicate pad 0))
  home : key = .tournament (address head.organizer.toList) head.name.1.1
  vault : address head.vault.toList = .vault key
  signer : (address head.organizer.toList).canSign = true
  phase : head.status = .registration
  tokens : ∃ v, d.ledger.token? (.vault key) = some v ∧ v.mint = address head.tokenMint.toList ∧ v.owner = key ∧
    joined.length * head.entryFee.toNat ≤ v.amount
  count : head.participantCount.toNat = joined.length
  distinct : joined.Nodup
  players : ∀ w ∈ joined, ∃ p : ParticipantHead, address p.tournament.toList = key ∧ address p.wallet.toList = w ∧
    p.refundPaid = false ∧ (.participant key w, participantDiscriminator ++ participantHead.encode p) ∈ d.old

def cancel (a : CancelTournament) : Upgrade.Action := .program (.call (.cancelTournament a))

/-- The organizer can cancel, and the refund chunks after that can pay each
player the entry fee. -/
def Payable (rt : Runtime) (d : Deployment address) (key : Pubkey) (head : TournamentHead FixedPreset)
    (joined : List Pubkey) : Prop :=
  ∃ first chunks d', first.caller = address head.organizer.toList ∧ (∀ a ∈ first :: chunks, a.tournament = key) ∧
    each (fun d a => (cancel a).run rt d) d (first :: chunks) = .ok d' ∧
    (∃ t, d'.ledger.tournament? key = some t ∧ t.status = .cancelled) ∧
    ∀ w ∈ joined, ∃ ata, (∃ a ∈ first :: chunks, (.participant key w, ata) ∈ pairs a.remainingAccounts) ∧
      ⟨.vault key, ata, w, head.entryFee.toNat⟩ ∈ d'.ledger.transfers

variable {rt : Runtime} {d d' : Deployment address} {key p : Pubkey} {head : TournamentHead FixedPreset}
  {joined : List Pubkey} {s s' : Ledger} {t : Tournament}

/-- No participant of the first version is a record under the current layout. -/
theorem oldParticipant_unread (x : ParticipantHead) :
    readAccount address (participantDiscriminator ++ participantHead.encode x) = none := by
  have tag : (participantDiscriminator ++ participantHead.encode x).take 8 = participantDiscriminator := List.take_left' rfl
  have length : (participantDiscriminator ++ participantHead.encode x).length = 8 + 68 := by
    rw [List.length_append, participantHead_width]
    rfl
  rw [readAccount, tag, if_neg (by decide), if_pos rfl, tryDeserialize_short participant_width (by decide) (by omega)]
  rfl

section Refused

theorem transfer_vacant {source destination authority : Pubkey} {amount : Nat} (vacant : s.accounts p = .system)
    (h : s.tokenTransfer source destination authority amount = .ok s') : s'.accounts p = .system := by
  obtain ⟨a, b, ha, hb, _, _, _, _, ⟨_, rfl⟩ | ⟨_, _, rfl⟩⟩ := Ledger.tokenTransfer_ok.1 h
  · exact vacant
  · have apart {q : Pubkey} {v : TokenAccount} (hq : s.token? q = some v) : p ≠ q := by
      rintro rfl
      cases vacant.symm.trans (Ledger.token?_eq_some.1 hq)
    rw [Ledger.setAccount_accounts, if_neg (apart hb), Ledger.setAccount_accounts, if_neg (apart ha)]
    exact vacant

theorem refundPair_vacant {pair : Pubkey × Pubkey} (vacant : s.accounts p = .system)
    (h : refundPair key t s pair = .ok s') : s'.accounts p = .system ∧ pair.1 ≠ p := by
  simp only [refundPair, bind_ok, ite_ok, pure_ok, Ledger.readParticipant_ok] at h
  obtain ⟨x, hx, _, _, h⟩ := h
  have apart : p ≠ pair.1 := by
    rintro rfl
    cases vacant.symm.trans (Ledger.participant?_eq_some.1 hx)
  refine ⟨?_, apart.symm⟩
  rcases h with ⟨_, rfl⟩ | ⟨_, _, _, s₁, paid, rfl⟩
  · exact vacant
  · rw [Ledger.setAccount_accounts, if_neg apart]
    exact transfer_vacant vacant paid

theorem refundDeposit_vacant {ata : Option Pubkey} {t' : Tournament} (vacant : s.accounts p = .system)
    (h : refundDeposit key t ata s = .ok (s', t')) : s'.accounts p = .system := by
  simp only [refundDeposit, ite_ok] at h
  rcases h with ⟨_, h⟩ | ⟨_, h⟩
  · split at h
    · cases h
      exact vacant
    · simp only [bind_ok, pure_ok, Prod.mk.injEq] at h
      obtain ⟨_, _, _, _, _, _, s₁, paid, rfl, _⟩ := h
      exact transfer_vacant vacant paid
  · cases h
    exact vacant

/-- A chunk that lists an account without a record fails. -/
theorem chunk_lists {a : CancelTournament} {ata : Pubkey} (vacant : s.accounts p = .system)
    (h : cancelTournament a s = .ok s') : (p, ata) ∉ pairs a.remainingAccounts := by
  simp only [cancelTournament, refundChunk, bind_ok] at h
  obtain ⟨_, _, _, _, _, _, _, _, t, _, _, _, ⟨s₁, t₁⟩, deposit, s₂, pairs_, _⟩ := h
  intro listed
  obtain ⟨m, u, here, paid⟩ := each_visits (I := fun s => s.accounts p = .system)
    (fun _ _ _ vacant h => (refundPair_vacant vacant h).1) (refundDeposit_vacant vacant deposit) pairs_ _ listed
  exact (refundPair_vacant here paid).2 rfl

theorem cancel_keeps {a : CancelTournament} (h : (cancel a).run rt d = .ok d') :
    cancelTournament a d.ledger = .ok d'.ledger ∧ d'.old = d.old := by
  obtain ⟨next, old⟩ := keep_ok h
  obtain ⟨_, _, ran⟩ := call_ran next
  exact ⟨ran, old⟩

/-- An old participant is paid by no chunk. -/
theorem old_not_payable {w : Pubkey} {data : List UInt8} (joins : w ∈ joined) (old : (.participant key w, data) ∈ d.old) :
    ¬ Payable rt d key head joined := by
  rintro ⟨first, chunks, d', _, _, run, _, paid⟩
  obtain ⟨ata, ⟨a, mem, listed⟩, _⟩ := paid w joins
  obtain ⟨q, u, here, step⟩ := each_visits (I := fun d => (.participant key w, data) ∈ d.old)
    (fun _ _ _ here step => (cancel_keeps step).2 ▸ here) old run a mem
  have vacant := Ledger.isSystem_iff.1 (q.absent _ here)
  exact chunk_lists vacant (cancel_keeps step).1 listed

end Refused

section Carried

/-- The record that the migrated account holds. -/
def carriedRecord (address : List UInt8 → Pubkey) (head : TournamentHead FixedPreset) : Tournament :=
  tournamentRecord address (TournamentHead.carried head, blankTail)

theorem migrated_read {authority : Pubkey} (old : PreV1 d key head joined)
    (step : Upgrade.Step rt d (.migrateV1Tournament authority key) d') :
    (∃ l, d'.ledger = Ledger.setAccount { d.ledger with lamports := l } key (.tournament (carriedRecord address head))) ∧
      d'.old = d.old.filter fun e => e.1 ≠ key := by
  obtain ⟨pad, taken⟩ := old.account
  simp only [Upgrade.Step, Upgrade.Action.run, Deployment.migrateV1Tournament, bind_ok, paid_ok] at step
  obtain ⟨_, _, _, ⟨config, _, h⟩, _, _, rfl⟩ := step
  unfold Deployment.migrate at h
  split at h
  · cases h
  · rename_i data taken'
    obtain rfl := Option.some.inj (taken.symm.trans taken')
    simp only [bind_ok, pure_ok] at h
    obtain ⟨⟨ai, balance⟩, migrated, rfl⟩ := h
    have kept := migrateV1_preserves old.short rfl migrated
    have read : readAccount address ai.data = some (.tournament (carriedRecord address head)) := by
      rw [readAccount_tournament (tryDeserialize_eq_some.1 kept.decoded).1, kept.decoded]
      rfl
    obtain ⟨ledger, rest⟩ := reload_woken authority taken' balance read
    exact ⟨⟨_, ledger⟩, rest⟩

/-- Without a list of players, the organizer's call only flips the status. -/
theorem cancel_succeeds {v : TokenAccount} (record : s.tournament? key = some t) (home : key = .tournament t.organizer t.name)
    (tokens : s.token? (.vault key) = some v) (vault : t.vault = .vault key) (open_ : t.status = .registration) :
    cancelTournament ⟨t.organizer, key, none, []⟩ s =
      .ok (s.setAccount key (.tournament { t with status := .cancelled })) := by
  have flips : flipCancelled ⟨t.organizer, key, none, []⟩ t = .ok { t with status := .cancelled } := by
    rw [flipCancelled, if_neg (by simp [open_]), require, if_pos rfl]
    rfl
  have deposit : refundDeposit key { t with status := .cancelled } none s = .ok (s, { t with status := .cancelled }) := by
    unfold refundDeposit
    split <;> rfl
  simp only [cancelTournament, refundChunk, bind_ok, require_ok, pure_ok]
  exact ⟨t, Ledger.loadTournament_ok.2 ⟨record, home⟩, v, Ledger.loadVault_ok.2 ⟨tokens, vault⟩, (), rfl, (), .inl open_,
    _, flips, (), rfl, _, deposit, s, rfl, rfl⟩

theorem empty_payable (old : PreV1 d key head []) {l : Pubkey → Nat}
    (ledger : d'.ledger = Ledger.setAccount { d.ledger with lamports := l } key (.tournament (carriedRecord address head)))
    (free : ∀ e ∈ d'.old, e.1 ≠ key) : Payable rt d' key head [] := by
  let t := carriedRecord address head
  obtain ⟨v, tokens, _⟩ := old.tokens
  have record : d'.ledger.tournament? key = some t := by
    rw [ledger, Ledger.tournament?_eq_some, Ledger.setAccount_accounts, if_pos rfl]
  have vault : d'.ledger.token? (.vault key) = some v := by
    rw [ledger, Ledger.token?, Ledger.setAccount_accounts, if_neg (by simp [old.home])]
    exact tokens
  have open_ : t.status = .registration := old.phase
  have cancels := cancel_succeeds record old.home vault old.vault open_
  have kept : ∀ e ∈ d'.old, ((d'.ledger.setAccount key (.tournament { t with status := .cancelled })).accounts e.1).isSystem =
      true := by
    intro e he
    rw [Ledger.setAccount_accounts, if_neg (free e he)]
    exact d'.absent e he
  have step : (cancel ⟨t.organizer, key, none, []⟩).run rt d' = .ok ⟨_, d'.old, kept, d'.unread⟩ := by
    have next : Program.Step rt d'.ledger (.call (.cancelTournament ⟨t.organizer, key, none, []⟩)) _ :=
      unpaid_step rfl old.signer cancels
    exact (congrArg d'.keep next).trans (keep_succeeds kept)
  refine ⟨_, [], _, rfl, by simp, (each_cons_ok _ _ _ _ _).2 ⟨_, step, rfl⟩, ?_, by simp⟩
  exact ⟨_, Ledger.tournament?_eq_some.2 (by rw [Ledger.setAccount_accounts, if_pos rfl]), rfl⟩

theorem oldTournament_unread_iff (head : TournamentHead FixedPreset) (pad : Nat) :
    readAccount address (tournamentDiscriminator ++ ((tournamentHead fixedPreset).encode head ++ List.replicate pad 0)) =
      none ↔ pad < 79 := by
  have eight : tournamentDiscriminator.length = 8 := rfl
  rw [readAccount_tournament (List.take_left' eight), Option.map_eq_none_iff, ← carried_encode]
  constructor
  · intro unread
    by_contra many
    have read := tryDeserialize_padded (tournamentHead preset) (a := TournamentHead.carried head) eight tail_blank
      (Nat.le_of_not_lt many)
    exact Option.some_ne_none _ (read.symm.trans unread)
  · intro few
    rw [Option.eq_none_iff_forall_ne_some]
    rintro ⟨head', tail⟩ read
    obtain ⟨_, rest, bytes⟩ := tryDeserialize_eq_some.1 read
    rw [List.drop_left' eight, tournament, Codec.pair, List.append_assoc] at bytes
    have length := congrArg List.length ((tournamentHead preset).encode_inj bytes).2
    rw [List.length_append, tournamentTail_width, List.length_replicate] at length
    omega

/-- Such a tournament can be migrated: its data are short, and the authority
only has to have the rent, in a wallet that rests after it. -/
theorem migrates {cfg : ProtocolConfig} (old : PreV1 d key head joined) (config : d.ledger.config? = some cfg)
    (signer : cfg.authority.canSign = true) (wallet : d.ledger.accounts cfg.authority = .system)
    (funds : rt.minimumBalance tournamentSpace ≤ d.ledger.lamports key + d.ledger.lamports cfg.authority)
    (rests : RentAllows (rt.minimumBalance 0) (d.ledger.lamports cfg.authority)
      (d.ledger.lamports cfg.authority - (rt.minimumBalance tournamentSpace - d.ledger.lamports key))) :
    ∃ d', Upgrade.Step rt d (.migrateV1Tournament cfg.authority key) d' := by
  obtain ⟨pad, taken⟩ := old.account
  have few := (oldTournament_unread_iff head pad).1 (d.unread _ (Deployment.mem_of_lookup taken))
  have name := old.short
  let ai : AccountInfo := ⟨programId, d.ledger.lamports key,
    tournamentDiscriminator ++ ((tournamentHead fixedPreset).encode head ++ List.replicate pad 0)⟩
  have fits : ai.data.length < tournamentSpace := by
    have eight : tournamentDiscriminator.length = 8 := rfl
    simp only [ai, List.length_append, List.length_replicate, tournamentHead_length fixedPreset_width, eight,
      tournamentSpace]
    simp only [maxTournamentNameLen] at name
    omega
  obtain ⟨⟨ai', balance⟩, migrated⟩ : ∃ r, Migrations.migrateV1Tournament rt cfg cfg.authority
    (d.ledger.lamports cfg.authority) ai = .ok r := (migrateV1_runs rfl).2 ⟨rfl, rfl, fits, funds⟩
  refine ⟨d.reload key cfg.authority taken ai' balance, ?_⟩
  have apart : cfg.authority ≠ key := by
    rintro same
    rw [same, old.home] at signer
    cases signer
  have left : (d.reload key cfg.authority taken ai' balance).ledger.lamports cfg.authority =
      d.ledger.lamports cfg.authority - (rt.minimumBalance tournamentSpace - d.ledger.lamports key) := by
    rw [reload_lamports, Deployment.funded]
    simp only [Function.update_of_ne apart, Function.update_self, grow_pays (migrateV1_grow migrated), ai]
  simp only [Upgrade.Step, Upgrade.Action.run, Deployment.migrateV1Tournament, bind_ok, require_ok, paid_ok]
  refine ⟨(), signer, _, ⟨cfg, (orThrow_ok _ _ _).2 config, migrate_ok taken migrated⟩, .inr (by rw [wallet]; rfl), ?_, rfl⟩
  rw [left]
  exact rests

theorem joined_not_payable {authority : Pubkey} (old : PreV1 d key head joined)
    (step : Upgrade.Step rt d (.migrateV1Tournament authority key) d') (some_ : joined ≠ []) :
    ¬ Payable rt d' key head joined := by
  obtain ⟨_, rest⟩ := migrated_read old step
  obtain ⟨w, joins⟩ := List.exists_mem_of_ne_nil joined some_
  obtain ⟨p, _, _, _, mem⟩ := old.players w joins
  have kept : (.participant key w, participantDiscriminator ++ participantHead.encode p) ∈ d'.old := by
    rw [rest, List.mem_filter]
    exact ⟨mem, by simp [old.home]⟩
  exact old_not_payable joins kept

/-- After the migration the tournament can pay its players back if and only if
none had joined before. -/
theorem payable_iff (rt : Runtime) {authority : Pubkey} (old : PreV1 d key head joined)
    (step : Upgrade.Step rt d (.migrateV1Tournament authority key) d') : Payable rt d' key head joined ↔ joined = [] := by
  constructor
  · intro payable
    by_contra some_
    exact joined_not_payable old step some_ payable
  · rintro rfl
    obtain ⟨⟨l, ledger⟩, rest⟩ := migrated_read old step
    refine empty_payable old ledger fun e he => ?_
    rw [rest, List.mem_filter] at he
    simpa using he.2

end Carried

section Sample

/-- Keys by their number. 60 stands for the vault and 61 for the tournament. -/
def sampleAddress (bytes : List UInt8) : Pubkey :=
  if leNat bytes = 60 then .vault sampleTournament.key
  else if leNat bytes = 61 then sampleTournament.key
  else .key (leNat bytes)

def sampleJoiner : ParticipantHead :=
  ⟨keyOf 61, keyOf 2, 0, false, 255⟩

def oldHead (ps : List ParticipantHead) : TournamentHead FixedPreset :=
  { sampleHead with participantCount := UInt16.ofNat ps.length }

def wallets (ps : List ParticipantHead) : List Pubkey := ps.map fun p => sampleAddress p.wallet.toList

def oldAccounts (ps : List ParticipantHead) : List (Pubkey × List UInt8) :=
  (sampleTournament.key, tournamentDiscriminator ++
      ((tournamentHead fixedPreset).encode (oldHead ps) ++ List.replicate 31 0)) ::
    ps.map fun p => (.participant sampleTournament.key (sampleAddress p.wallet.toList),
      participantDiscriminator ++ participantHead.encode p)

/-- Old accounts hold the rent of their size. -/
def oldLamports (ps : List ParticipantHead) (p : Pubkey) : Nat :=
  if p = sampleTournament.key then sampleRuntime.minimumBalance 269
  else if p = .vault sampleTournament.key then sampleRuntime.minimumBalance tokenAccountSpace
  else if p ∈ (oldAccounts ps).map Prod.fst then sampleRuntime.minimumBalance 76
  else sampleBorn.lamports p

/-- A deployment that is upgraded during the registration. -/
def sampleUpgrade (ps : List ParticipantHead) : Deployment sampleAddress where
  ledger := Ledger.setAccount { sampleBorn with lamports := oldLamports ps } (.vault sampleTournament.key)
    (.token ⟨.key 100, sampleTournament.key, 50, false⟩)
  old := oldAccounts ps
  absent := by
    refine List.forall_mem_cons.2 ⟨rfl, fun e he => ?_⟩
    obtain ⟨p, _, rfl⟩ := List.mem_map.1 he
    rfl
  unread := by
    refine List.forall_mem_cons.2 ⟨(oldTournament_unread_iff _ _).2 (by decide), fun e he => ?_⟩
    obtain ⟨p, _, rfl⟩ := List.mem_map.1 he
    exact oldParticipant_unread p

theorem sampleUpgrade_preV1 {ps : List ParticipantHead} (h : ps = [] ∨ ps = [sampleJoiner]) :
    PreV1 (sampleUpgrade ps) sampleTournament.key (oldHead ps) (wallets ps) := by
  have few : ps.length ≤ 1 := by rcases h with rfl | rfl <;> decide
  refine {
    short := ?_
    account := ⟨31, List.lookup_cons_self⟩
    home := rfl
    vault := rfl
    signer := rfl
    phase := rfl
    tokens := ⟨_, rfl, rfl, rfl, ?_⟩
    count := by rcases h with rfl | rfl <;> rfl
    distinct := by rcases h with rfl | rfl <;> simp [wallets]
    players := fun w joins => ?_ }
  · exact Nat.le_of_ble_eq_true rfl
  · change (wallets ps).length * 50 ≤ 50
    rw [wallets, List.length_map]
    omega
  · obtain ⟨p, mem, rfl⟩ := List.mem_map.1 joins
    obtain rfl : p = sampleJoiner := by
      rcases h with rfl | rfl
      · cases mem
      · exact List.mem_singleton.1 mem
    exact ⟨sampleJoiner, rfl, rfl, rfl, List.mem_cons_of_mem _ (List.mem_map_of_mem mem)⟩

theorem sampleUpgrade_migrates (ps : List ParticipantHead) (h : ps = [] ∨ ps = [sampleJoiner]) :
    ∃ d', Upgrade.Step sampleRuntime (sampleUpgrade ps) (.migrateV1Tournament (.key 9) sampleTournament.key) d' := by
  have tournament_ : (sampleUpgrade ps).ledger.lamports sampleTournament.key = 2763120 := by rcases h with rfl | rfl <;> rfl
  have authority_ : (sampleUpgrade ps).ledger.lamports (.key 9) = 996749680 := by rcases h with rfl | rfl <;> rfl
  apply migrates (sampleUpgrade_preV1 h) rfl rfl rfl
  · rw [tournament_, authority_]
    decide
  · rw [tournament_, authority_]
    decide

theorem sampleJoiner_stranded : ∃ d' : Deployment sampleAddress,
    PreV1 (sampleUpgrade [sampleJoiner]) sampleTournament.key (oldHead [sampleJoiner]) [.key 2] ∧
    Upgrade.Step sampleRuntime (sampleUpgrade [sampleJoiner]) (.migrateV1Tournament (.key 9) sampleTournament.key) d' ∧
    ¬ Payable sampleRuntime d' sampleTournament.key (oldHead [sampleJoiner]) [.key 2] := by
  have old := sampleUpgrade_preV1 (.inr rfl)
  obtain ⟨d', step⟩ := sampleUpgrade_migrates [sampleJoiner] (.inr rfl)
  exact ⟨d', old, step, joined_not_payable old step (List.cons_ne_nil _ _)⟩

theorem sampleEmpty_payable : ∃ d' : Deployment sampleAddress,
    Upgrade.Step sampleRuntime (sampleUpgrade []) (.migrateV1Tournament (.key 9) sampleTournament.key) d' ∧
    Payable sampleRuntime d' sampleTournament.key (oldHead []) [] := by
  obtain ⟨d', step⟩ := sampleUpgrade_migrates [] (.inl rfl)
  exact ⟨d', step, (payable_iff sampleRuntime (sampleUpgrade_preV1 (.inl rfl)) step).2 rfl⟩

end Sample

end BracketChain.Stranded
