import BracketChain.Scripts
import BracketChain.Serial

namespace BracketChain.Migrations

open Outcome Keys Records Accounts Registration Wire Serial Scripts

def programId : Pubkey := .key 0x9e2d6f6300b4f0e14dcbc64c987f8fa185f5d33099f76f3257bbc9560b713328

/-- An account passed without deserialization. -/
structure AccountInfo where
  owner : Pubkey
  lamports : Nat
  data : List UInt8

/-- Top up the rent for the larger account from the balance of the payer, then
grow it by zeros. -/
def grow (rt : Runtime) (newSize balance : Nat) (ai : AccountInfo) : Except Error (AccountInfo × Nat) := do
  require (ai.data.length < newSize) .migrationNotNeeded
  let delta := rt.minimumBalance newSize - ai.lamports
  require (delta ≤ balance) .insufficientLamports
  pure ({ ai with
    lamports := ai.lamports + delta
    data := ai.data ++ List.replicate (newSize - ai.data.length) 0 }, balance - delta)

def migrateV1Tournament (rt : Runtime) (config : ProtocolConfig) (authority : Pubkey) (balance : Nat)
    (ai : AccountInfo) : Except Error (AccountInfo × Nat) := do
  require (authority = config.authority) .unauthorizedAuthority
  require (ai.owner = programId) .invalidTournamentAccount
  require (8 ≤ ai.data.length) .invalidTournamentAccount
  require (ai.data.take 8 = tournamentDiscriminator) .invalidTournamentAccount
  grow rt tournamentSpace balance ai

def migrateProtocolConfig (rt : Runtime) (authority : Pubkey) (balance : Nat) (ai : AccountInfo) :
    Except Error (AccountInfo × Nat) := do
  require (ai.owner = programId) .unauthorizedAuthority
  require (40 ≤ ai.data.length) .unauthorizedAuthority
  require (ai.data.take 8 = configDiscriminator) .unauthorizedAuthority
  require (slice ai.data 8 40 = rt.keyBytes authority) .unauthorizedAuthority
  grow rt protocolConfigSpace balance ai

/-- The old bytes with zeros behind them, up to the current size. -/
structure Grown (size : Nat) (old new : AccountInfo) : Prop where
  owner : new.owner = old.owner
  length : new.data.length = size
  kept : new.data.take old.data.length = old.data
  tail : new.data.drop old.data.length = List.replicate (size - old.data.length) 0

def blankTail : TournamentTail := ⟨.manual, .organizerOnly, 0, zeroBytes, 0, false, zeroBytes⟩

def blankSas : ConfigSas := ⟨zeroBytes, Vector.replicate 5 zeroBytes⟩

def blankOracle : ConfigOracle := ⟨zeroBytes, 0, 0⟩

/-- A record of the first layout as the current struct has it. -/
def TournamentHead.carried (t : TournamentHead FixedPreset) : TournamentHead Preset :=
  { t with payoutPreset := t.payoutPreset.carried }

section Grow

variable {rt : Runtime} {size balance balance' : Nat} {ai ai' : AccountInfo}

theorem grow_ok (h : grow rt size balance ai = .ok (ai', balance')) : ai.data.length < size ∧ ai'.owner = ai.owner ∧
    ai'.data = ai.data ++ List.replicate (size - ai.data.length) 0 := by
  simp only [grow, bind_ok, require_ok, pure_ok, Prod.mk.injEq] at h
  obtain ⟨_, short, _, _, rfl, _⟩ := h
  exact ⟨short, rfl, rfl⟩

theorem grow_pays (h : grow rt size balance ai = .ok (ai', balance')) :
    balance' = balance - (rt.minimumBalance size - ai.lamports) := by
  simp only [grow, bind_ok, require_ok, pure_ok, Prod.mk.injEq] at h
  obtain ⟨_, _, _, _, _, rfl⟩ := h
  rfl

theorem grow_grown (h : grow rt size balance ai = .ok (ai', balance')) : Grown size ai ai' := by
  obtain ⟨short, owner, data⟩ := grow_ok h
  refine ⟨owner, ?_, ?_, ?_⟩
  · rw [data, List.length_append, List.length_replicate]
    omega
  · rw [data, List.take_left]
  · rw [data, List.drop_left]

/-- An account grows exactly when it is short and its rent can be paid. -/
theorem grow_runs : (∃ r, grow rt size balance ai = .ok r) ↔
    ai.data.length < size ∧ rt.minimumBalance size ≤ ai.lamports + balance := by
  simp only [grow, bind_ok, require_ok, pure_ok]
  constructor
  · rintro ⟨_, _, short, _, paid, _⟩
    exact ⟨short, by omega⟩
  · rintro ⟨short, funds⟩
    have paid : rt.minimumBalance size - ai.lamports ≤ balance := by omega
    exact ⟨_, (), short, (), paid, rfl⟩

/-- An account of the current size does not grow again. -/
theorem grow_refuses (h : size ≤ ai.data.length) : grow rt size balance ai = .error .migrationNotNeeded := by
  rw [grow, require, if_neg (by omega)]
  rfl

end Grow

section Decoding

theorem tail_blank : tournamentTail.Blank blankTail 79 := rfl

theorem key_blank : key.Blank zeroBytes 32 := rfl

theorem sas_blank : configSas.Blank blankSas 192 :=
  Codec.equiv_blank _ _ (Codec.pair_blank _ key_blank (Codec.vector_blank _ key_blank 5))

theorem oracle_blank : configOracle.Blank blankOracle 40 := rfl

theorem carried_encode (t : TournamentHead FixedPreset) :
    (tournamentHead preset).encode (TournamentHead.carried t) = (tournamentHead fixedPreset).encode t := by
  simp only [tournamentHead, Codec.equiv, Codec.pair, TournamentHead.carried, Equiv.coe_fn_symm_mk, preset_carried]

end Decoding

/-- The account has grown, and holds the value under the current struct. -/
structure Preserved {α : Type} (size : Nat) (discriminator : List UInt8) (c : Codec α) (value : α)
    (old new : AccountInfo) : Prop extends Grown size old new where
  decoded : tryDeserialize discriminator c new.data = some value

theorem migrateV1_grow {rt : Runtime} {config : ProtocolConfig} {authority : Pubkey} {balance : Nat}
    {ai : AccountInfo} {r : AccountInfo × Nat} (h : migrateV1Tournament rt config authority balance ai = .ok r) :
    grow rt tournamentSpace balance ai = .ok r := by
  simp only [migrateV1Tournament, bind_ok] at h
  obtain ⟨_, _, _, _, _, _, _, _, h⟩ := h
  exact h

theorem migrateConfig_grow {rt : Runtime} {authority : Pubkey} {balance : Nat} {ai : AccountInfo}
    {r : AccountInfo × Nat} (h : migrateProtocolConfig rt authority balance ai = .ok r) :
    grow rt protocolConfigSpace balance ai = .ok r := by
  simp only [migrateProtocolConfig, bind_ok] at h
  obtain ⟨_, _, _, _, _, _, _, _, h⟩ := h
  exact h

section Acceptance

variable {rt : Runtime} {balance : Nat} {authority : Pubkey} {ai : AccountInfo} {bytes : List UInt8}

theorem migrateV1_runs {config : ProtocolConfig} (data : ai.data = tournamentDiscriminator ++ bytes) :
    (∃ r, migrateV1Tournament rt config authority balance ai = .ok r) ↔ authority = config.authority ∧
      ai.owner = programId ∧ ai.data.length < tournamentSpace ∧
      rt.minimumBalance tournamentSpace ≤ ai.lamports + balance := by
  have eight : tournamentDiscriminator.length = 8 := rfl
  have long : 8 ≤ ai.data.length := by
    rw [data, List.length_append, eight]
    omega
  have tag : ai.data.take 8 = tournamentDiscriminator := data ▸ List.take_left' eight
  rw [← grow_runs]
  simp only [migrateV1Tournament, bind_ok, require_ok]
  constructor
  · rintro ⟨r, _, same, _, owned, _, _, _, _, grown⟩
    exact ⟨same, owned, r, grown⟩
  · rintro ⟨same, owned, r, grown⟩
    exact ⟨r, (), same, (), owned, (), long, (), tag, grown⟩

theorem slice_authority (old : ConfigHead) :
    slice (configDiscriminator ++ (configHead.encode old ++ bytes)) 8 40 = old.authority.toList := by
  have parts : configHead.encode old ++ bytes = old.authority.toList ++
      ((key.pair (key.pair (u16.pair u8))).encode (old.treasury, old.defaultMint, old.feeBps, old.bump) ++ bytes) :=
    List.append_assoc _ _ _
  rw [parts]
  exact (slice_skip rfl 0 32).trans (slice_first Vector.length_toList)

theorem migrateConfig_runs {old : ConfigHead} (data : ai.data = configDiscriminator ++ (configHead.encode old ++ bytes)) :
    (∃ r, migrateProtocolConfig rt authority balance ai = .ok r) ↔ old.authority.toList = rt.keyBytes authority ∧
      ai.owner = programId ∧ ai.data.length < protocolConfigSpace ∧
      rt.minimumBalance protocolConfigSpace ≤ ai.lamports + balance := by
  have eight : configDiscriminator.length = 8 := rfl
  have long : 40 ≤ ai.data.length := by
    rw [data, List.length_append, List.length_append, eight, configHead_width]
    omega
  have tag : ai.data.take 8 = configDiscriminator := data ▸ List.take_left' eight
  have stored : slice ai.data 8 40 = old.authority.toList := data ▸ slice_authority old
  rw [← grow_runs]
  simp only [migrateProtocolConfig, bind_ok, require_ok, stored]
  constructor
  · rintro ⟨r, _, owned, _, _, _, _, _, same, grown⟩
    exact ⟨same, owned, r, grown⟩
  · rintro ⟨same, owned, r, grown⟩
    exact ⟨r, (), owned, (), long, (), tag, (), same, grown⟩

end Acceptance

section Preservation

variable {rt : Runtime} {balance balance' size : Nat} {ai ai' : AccountInfo}

/-- The appended fields are read from the zeros, whichever account they are
left over from. -/
theorem grow_preserves {α β : Type} {discriminator : List UInt8} {c : Codec α} {d : Codec β} {a : α} {b : β} {k : Nat}
    (pad : Nat) (eight : discriminator.length = 8) (blank : d.Blank b k) (room : 8 + (c.encode a).length + k ≤ size)
    (data : ai.data = discriminator ++ (c.encode a ++ List.replicate pad 0))
    (h : grow rt size balance ai = .ok (ai', balance')) : Preserved size discriminator (c.pair d) (a, b) ai ai' := by
  obtain ⟨short, _, grown⟩ := grow_ok h
  refine ⟨grow_grown h, ?_⟩
  rw [data] at short
  simp only [List.length_append, eight, List.length_replicate] at short
  rw [grown, data, List.append_assoc, List.append_assoc, List.replicate_append_replicate]
  refine tryDeserialize_padded c eight blank ?_
  simp only [List.length_append, eight, List.length_replicate]
  omega

theorem grow_again {size : Nat} (grown : Grown size ai ai') (balance : Nat) (r : AccountInfo × Nat) :
    grow rt size balance ai' ≠ .ok r := by
  rw [grow_refuses (Nat.le_of_eq grown.length.symm)]
  exact nofun

theorem migrateV1_preserves {config : ProtocolConfig} {authority : Pubkey} {old : TournamentHead FixedPreset} {pad : Nat}
    (short : old.name.1.1.length ≤ maxTournamentNameLen)
    (data : ai.data = tournamentDiscriminator ++ ((tournamentHead fixedPreset).encode old ++ List.replicate pad 0))
    (migrated : migrateV1Tournament rt config authority balance ai = .ok (ai', balance')) :
    Preserved tournamentSpace tournamentDiscriminator tournament (TournamentHead.carried old, blankTail) ai ai' := by
  have room := tournamentHead_length fixedPreset_width old
  rw [← carried_encode] at data room
  refine grow_preserves pad rfl tail_blank ?_ data (migrateV1_grow migrated)
  rw [room]
  simp only [maxTournamentNameLen] at short
  simp only [tournamentSpace]
  omega

section Configs

variable {authority : Pubkey}

theorem preSas_preserves {old : ConfigHead} (data : ai.data = configDiscriminator ++ configHead.encode old)
    (migrated : migrateProtocolConfig rt authority balance ai = .ok (ai', balance')) :
    Preserved protocolConfigSpace configDiscriminator protocolConfig (old, blankSas, blankOracle) ai ai' := by
  have blank : (configSas.pair configOracle).Blank (blankSas, blankOracle) (192 + 40) :=
    Codec.pair_blank _ sas_blank oracle_blank
  refine grow_preserves 0 rfl blank ?_ ?_ (migrateConfig_grow migrated)
  · rw [configHead_width]
    decide
  · rw [data, List.replicate_zero, List.append_nil]

theorem preOracle_preserves {old : ConfigHead × ConfigSas}
    (data : ai.data = configDiscriminator ++ (configHead.pair configSas).encode old)
    (migrated : migrateProtocolConfig rt authority balance ai = .ok (ai', balance')) :
    Preserved protocolConfigSpace configDiscriminator protocolConfig (old.1, old.2, blankOracle) ai ai' := by
  have kept : Preserved protocolConfigSpace configDiscriminator ((configHead.pair configSas).pair configOracle)
      (old, blankOracle) ai ai' := by
    refine grow_preserves 0 rfl oracle_blank ?_ ?_ (migrateConfig_grow migrated)
    · rw [Codec.pair_width _ configHead_width configSas_width]
      decide
    · rw [data, List.replicate_zero, List.append_nil]
  obtain ⟨tag, rest, decoded⟩ := tryDeserialize_eq_some.1 kept.decoded
  refine ⟨kept.toGrown, tryDeserialize_eq_some.2 ⟨tag, rest, ?_⟩⟩
  rw [← decoded]
  simp only [protocolConfig, Codec.pair, List.append_assoc]

end Configs

end Preservation

/-- Migration runs for the authority that pays the rent, keeps every field of
the old layouts, reads the appended ones as zeros, and does not run twice. -/
theorem migrations_preserve (rt : Runtime) (authority : Pubkey) (balance : Nat) (ai : AccountInfo) :
    (∀ (config : ProtocolConfig) (old : TournamentHead FixedPreset) (pad : Nat),
      old.name.1.1.length ≤ maxTournamentNameLen →
      ai.data = tournamentDiscriminator ++ ((tournamentHead fixedPreset).encode old ++ List.replicate pad 0) →
      ((∃ r, migrateV1Tournament rt config authority balance ai = .ok r) ↔ authority = config.authority ∧
        ai.owner = programId ∧ ai.data.length < tournamentSpace ∧
        rt.minimumBalance tournamentSpace ≤ ai.lamports + balance) ∧
      ∀ ai' balance', migrateV1Tournament rt config authority balance ai = .ok (ai', balance') →
        Preserved tournamentSpace tournamentDiscriminator tournament (TournamentHead.carried old, blankTail) ai ai' ∧
        ∀ config authority balance r, migrateV1Tournament rt config authority balance ai' ≠ .ok r) ∧
    (∀ old : ConfigHead, ai.data = configDiscriminator ++ configHead.encode old →
      ((∃ r, migrateProtocolConfig rt authority balance ai = .ok r) ↔ old.authority.toList = rt.keyBytes authority ∧
        ai.owner = programId ∧ rt.minimumBalance protocolConfigSpace ≤ ai.lamports + balance) ∧
      ∀ ai' balance', migrateProtocolConfig rt authority balance ai = .ok (ai', balance') →
        Preserved protocolConfigSpace configDiscriminator protocolConfig (old, blankSas, blankOracle) ai ai' ∧
        ∀ authority balance r, migrateProtocolConfig rt authority balance ai' ≠ .ok r) ∧
    ∀ old : ConfigHead × ConfigSas, ai.data = configDiscriminator ++ (configHead.pair configSas).encode old →
      ((∃ r, migrateProtocolConfig rt authority balance ai = .ok r) ↔ old.1.authority.toList = rt.keyBytes authority ∧
        ai.owner = programId ∧ rt.minimumBalance protocolConfigSpace ≤ ai.lamports + balance) ∧
      ∀ ai' balance', migrateProtocolConfig rt authority balance ai = .ok (ai', balance') →
        Preserved protocolConfigSpace configDiscriminator protocolConfig (old.1, old.2, blankOracle) ai ai' ∧
        ∀ authority balance r, migrateProtocolConfig rt authority balance ai' ≠ .ok r := by
  have eight : configDiscriminator.length = 8 := rfl
  refine ⟨fun config old pad short data => ⟨migrateV1_runs data, fun ai' balance' migrated => ?_⟩,
    fun old data => ⟨?_, fun ai' balance' migrated => ?_⟩, fun old data => ⟨?_, fun ai' balance' migrated => ?_⟩⟩
  · have kept := migrateV1_preserves short data migrated
    exact ⟨kept, fun _ _ balance r again => grow_again kept.toGrown balance r (migrateV1_grow again)⟩
  · have whole : ai.data = configDiscriminator ++ (configHead.encode old ++ []) := by rw [data, List.append_nil]
    have short : ai.data.length < protocolConfigSpace := by
      rw [data, List.length_append, eight, configHead_width]
      decide
    simp only [migrateConfig_runs whole, short, true_and]
  · have kept := preSas_preserves data migrated
    exact ⟨kept, fun _ balance r again => grow_again kept.toGrown balance r (migrateConfig_grow again)⟩
  · have whole : ai.data = configDiscriminator ++ (configHead.encode old.1 ++ configSas.encode old.2) := data
    have short : ai.data.length < protocolConfigSpace := by
      rw [data, List.length_append, eight, Codec.pair_width _ configHead_width configSas_width]
      decide
    simp only [migrateConfig_runs whole, short, true_and]
  · have kept := preOracle_preserves data migrated
    exact ⟨kept, fun _ balance r again => grow_again kept.toGrown balance r (migrateConfig_grow again)⟩

section Sample

def sampleName : Text := ⟨⟨[65], by decide⟩, ⟨['A'], rfl⟩⟩

/-- The sample tournament as the first version of the program stored it. -/
def sampleHead : TournamentHead FixedPreset where
  organizer := keyOf 1
  name := sampleName
  tokenMint := keyOf 100
  vault := keyOf 60
  entryFee := 50
  organizerDeposit := 0
  organizerDepositRefunded := false
  maxParticipants := 4
  bracketSize := 0
  participantCount := 1
  matchesInitialized := 0
  matchesReported := 0
  totalMatches := 0
  registrationDeadline := 100
  createdAt := 10
  startedAt := 0
  completedAt := 0
  status := .registration
  payoutPreset := .standard
  seedHash := zeroBytes
  champion := zeroBytes
  bump := 255
  vaultBump := 254

/-- The account is padded to the size of the longest name. -/
def sampleOld : AccountInfo :=
  ⟨programId, 2763120, tournamentDiscriminator ++ ((tournamentHead fixedPreset).encode sampleHead ++ List.replicate 31 0)⟩

theorem sampleOld_length : sampleOld.data.length = 8 + 261 := by
  have head := tournamentHead_length fixedPreset_width sampleHead
  simp only [sampleOld, List.length_append, head, List.length_replicate]
  rfl

theorem sampleOld_migrates (config : ProtocolConfig) :
    ∃ r, migrateV1Tournament sampleRuntime config config.authority 10000000 sampleOld = .ok r := by
  refine (migrateV1_runs rfl).2 ⟨rfl, rfl, ?_, by decide⟩
  rw [sampleOld_length]
  decide

theorem sampleOld_preserved : ∃ config authority r,
    migrateV1Tournament sampleRuntime config authority 10000000 sampleOld = .ok r ∧
    Preserved tournamentSpace tournamentDiscriminator tournament (TournamentHead.carried sampleHead, blankTail)
      sampleOld r.1 := by
  let config : ProtocolConfig :=
    ⟨.key 9, .key 8, .key 100, protocolFeeBps, default, Vector.replicate 5 default, default, 0, 0⟩
  obtain ⟨⟨ai', balance'⟩, migrated⟩ := sampleOld_migrates config
  refine ⟨config, config.authority, _, migrated, ?_⟩
  exact (((migrations_preserve sampleRuntime config.authority 10000000 sampleOld).1 config sampleHead 31 (by decide) rfl).2
    ai' balance' migrated).1

end Sample

end BracketChain.Migrations
