import BracketChain.Feeds
import BracketChain.Upgrade

namespace BracketChain.Thresholds

open Outcome Keys Records Accounts Registration Envelope Program Runs Layout View Refinement Matches Frames Scripts
  Consent Feeds Wire Serial Migrations Upgrade

/-- The bounds that `set_oracle_config` checks. -/
def Validated (cfg : ProtocolConfig) : Prop :=
  minOracleSamplesFloor ≤ cfg.minOracleSamples ∧ cfg.maxStaleSlots ≤ maxOracleStaleSlotsCeiling

/-- The queue is set together with checked bounds, and no feed is bound
without a queue. -/
structure Guarded (s : Ledger) : Prop where
  queue : ∀ cfg, s.config? = some cfg → cfg.switchboardQueue ≠ default → Validated cfg
  bound : ∀ p m, s.matchNode? p = some m → m.switchboardFeed ≠ default → ∃ cfg, s.config? = some cfg ∧ Validated cfg

/-- Feeds of Switchboard name their queue, and no feed is at the zero key. -/
structure Genuine (rt : Runtime) (s : Ledger) : Prop where
  queue : ∀ p owner data feed, s.loadForeign p = some (owner, data) → ownedBySwitchboard owner →
    rt.parseFeed data = some feed → feed.queue ≠ default
  zero : rt.parseFeed (foreignData s default) = none

variable {rt : Runtime} {s s' : Ledger} {b : Program.Action}

/-- What a step does to the configuration. -/
inductive Retuned (s s' : Ledger) : Prop
  | same (h : s'.config? = s.config?)
  | created (vacant : s.config? = none) (cfg : ProtocolConfig) (h : s'.config? = some cfg)
      (unset : cfg.switchboardQueue = default)
  | kept (cfg cfg' : ProtocolConfig) (old : s.config? = some cfg) (h : s'.config? = some cfg')
      (queue : cfg'.switchboardQueue = cfg.switchboardQueue) (bounds : Validated cfg → Validated cfg')
  | checked (cfg' : ProtocolConfig) (h : s'.config? = some cfg') (bounds : Validated cfg')

theorem config_set (s : Ledger) (cfg : ProtocolConfig) :
    (s.setAccount .protocolConfig (.protocolConfig cfg)).config? = some cfg :=
  Ledger.config?_eq_some.2 (by rw [Ledger.setAccount_accounts, if_pos rfl])

theorem config_congr (h : s'.accounts .protocolConfig = s.accounts .protocolConfig) : s'.config? = s.config? :=
  congrArg Account.asConfig h

theorem config_untokened (wf : Wellformed s) : s.token? .protocolConfig = none := by
  rw [Option.eq_none_iff_forall_ne_some]
  intro v hv
  obtain ⟨n, h⟩ | ⟨h, _⟩ := token_fits wf hv <;> cases h

theorem step_retuned (wf : Wellformed s) (step : Program.Step rt s b s') : Retuned s s' := by
  cases b with
  | outside e =>
      obtain same | ⟨_, _, _, own, _⟩ := outside_account step (config_untokened wf)
      · exact .same (config_congr same)
      · cases own
  | call ix =>
      obtain ⟨_, _, h⟩ := call_ran step
      by_cases own : ix.tournament = none
      · cases ix with
        | initializeProtocol a =>
            simp only [Instruction.run, initializeProtocol, bind_ok] at h
            obtain ⟨_, _, h⟩ := h
            obtain ⟨vacant, l, rfl⟩ := Ledger.initAccount_ok h
            exact .created (congrArg Account.asConfig vacant) _ (config_set _ _) rfl
        | setSasConfig authority credential schemas =>
            simp only [Instruction.run, setSasConfig, updateConfig, bind_ok, pure_ok, Ledger.loadConfig, orThrow_ok] at h
            obtain ⟨cfg, hcfg, _, _, rfl⟩ := h
            exact .kept cfg _ hcfg (config_set _ _) rfl id
        | setOracleConfig authority queue stale samples =>
            simp only [Instruction.run, setOracleConfig, updateConfig, bind_ok, require_ok, pure_ok, Ledger.loadConfig,
              orThrow_ok] at h
            obtain ⟨_, floor, _, ceiling, cfg, hcfg, _, _, rfl⟩ := h
            exact .checked _ (config_set _ _) ⟨floor, ceiling⟩
        | _ => cases own
      · exact .same (config_congr ((call_framed wf own h).account _ rfl (config_untokened wf)))

/-- Checked bounds are only ever replaced by checked bounds. -/
theorem Retuned.validated (h : Retuned s s') {cfg : ProtocolConfig} (config : s.config? = some cfg)
    (bounds : Validated cfg) : ∃ cfg', s'.config? = some cfg' ∧ Validated cfg' := by
  cases h with
  | same h => exact ⟨cfg, h.trans config, bounds⟩
  | created vacant => cases vacant.symm.trans config
  | kept cfg₀ cfg' old h _ kept =>
      obtain rfl := Option.some.inj (old.symm.trans config)
      exact ⟨cfg', h, kept bounds⟩
  | checked cfg' h bounds => exact ⟨cfg', h, bounds⟩

theorem Retuned.queue (h : Retuned s s') (guarded : Guarded s) {cfg' : ProtocolConfig} (config : s'.config? = some cfg')
    (set : cfg'.switchboardQueue ≠ default) : Validated cfg' := by
  cases h with
  | same h => exact guarded.queue cfg' (h.symm.trans config) set
  | created _ cfg h unset =>
      obtain rfl := Option.some.inj (h.symm.trans config)
      exact absurd unset set
  | kept cfg cfg₁ old h queue kept =>
      obtain rfl := Option.some.inj (h.symm.trans config)
      exact kept (guarded.queue cfg old (queue ▸ set))
  | checked cfg₁ h bounds =>
      obtain rfl := Option.some.inj (h.symm.trans config)
      exact bounds

/-- A feed is bound on the configured queue, which is set. -/
theorem bind_validated {c : MatchAccounts} {feed : Pubkey} (guarded : Guarded s) (genuine : Genuine rt s)
    (step : Program.Step rt s (.call (.bindMatchFeed c feed)) s') : ∃ cfg, s.config? = some cfg ∧ Validated cfg := by
  obtain ⟨m, _, _, cfg, owner, data, f, _, config, foreign_, owned, parsed, queue, _⟩ := bind_holds step
  exact ⟨cfg, config, guarded.queue cfg config (queue ▸ genuine.queue _ _ _ _ foreign_ owned parsed)⟩

theorem Guarded.next (guarded : Guarded s) (retuned : Retuned s s')
    (bound : ∀ p m, s'.matchNode? p = some m → m.switchboardFeed ≠ default →
      s.matchNode? p = some m ∨ ∃ cfg, s.config? = some cfg ∧ Validated cfg) : Guarded s' := by
  refine ⟨fun cfg' config set => retuned.queue guarded config set, fun p m hm real => ?_⟩
  have before : ∃ cfg, s.config? = some cfg ∧ Validated cfg := by
    rcases bound p m hm real with same | before
    · exact guarded.bound p m same real
    · exact before
  obtain ⟨cfg, config, bounds⟩ := before
  exact retuned.validated config bounds

theorem guarded_step (wf : Wellformed s) (genuine : Genuine rt s) (guarded : Guarded s)
    (step : Program.Step rt s b s') : Guarded s' := by
  refine guarded.next (step_retuned wf step) ?_
  intro p m' hm' real
  obtain ⟨key, slot, rfl⟩ : ∃ key slot, p = .matchNode key slot := ⟨_, _, (node_fits (step_confined wf step).wf hm').1⟩
  have change := step_node wf step hm'
  generalize hn : some m' = n at change
  cases change with
  | same => exact .inl rfl
  | placed c d =>
      obtain rfl := Option.some.inj hn
      exact absurd rfl real
  | @edited ix a t m _ call accounts _ address _ node edits =>
      obtain rfl := Option.some.inj hn
      cases edits with
      | propose | proposeOracle | dispute | commit => exact .inr (guarded.bound _ m node real)
      | bind c feed =>
          subst call
          exact .inr (bind_validated guarded genuine step)
  | finalized ix a _ finalizes =>
      obtain rfl := Option.some.inj hn
      exact .inr (guarded.bound _ _ finalizes.node real)
  | seated ix a child _ _ _ _ node =>
      obtain rfl := Option.some.inj hn
      rw [advance_eq] at real
      exact .inr (guarded.bound _ _ node real)
  | closed => cases hn

theorem guarded_congr (h : s'.accounts = s.accounts) (guarded : Guarded s) : Guarded s' := by
  refine guarded.next (.same (config_congr (congrFun h _))) fun p m hm _ => .inl ?_
  rwa [Ledger.matchNode?, h] at hm

theorem Pruned.guarded (h : Pruned s s') (guarded : Guarded s) : Guarded s' := by
  refine guarded.next (.same ?_) fun p m hm _ => .inl ?_
  · rcases h .protocolConfig with same | ⟨_, home⟩
    · exact config_congr same
    · exact absurd rfl home
  · rcases h p with same | ⟨gone, _⟩
    · rwa [Ledger.matchNode?, same] at hm
    · rw [Ledger.matchNode?, gone] at hm
      cases hm

section Upgrades

variable {address : List UInt8 → Pubkey} {d d' start : Deployment address} {a : Upgrade.Action}

/-- The data of a configuration from before the oracle, in either of the two
earlier layouts. -/
def PreOracle (data : List UInt8) : Prop :=
  (∃ old, data = configDiscriminator ++ configHead.encode old) ∨
    ∃ old, data = configDiscriminator ++ (configHead.pair configSas).encode old

/-- However far it grows, an old account lies where its own contents say, and
sets no queue. -/
def Dormant (address : List UInt8 → Pubkey) (e : Pubkey × List UInt8) : Prop :=
  ∀ n r, readAccount address (e.2 ++ List.replicate n 0) = some r →
    Account.fits e.1 r ∧ ∀ cfg, r = .protocolConfig cfg → cfg.switchboardQueue = default

/-- Where runs begin: before the first call, or with the accounts that an
earlier version of the program left. -/
inductive Origin : Deployment address → Prop
  | genesis (s : Ledger) (genesis : Genesis s) : Origin (.fresh s)
  | upgraded (d : Deployment address) (wf : Wellformed d.ledger) (none_ : d.ledger.config? = none)
      (unbound : ∀ p m, d.ledger.matchNode? p = some m → m.switchboardFeed = default)
      (fits : ∀ e ∈ d.old, ∀ n r, readAccount address (e.2 ++ List.replicate n 0) = some r → Account.fits e.1 r)
      (config : ∀ data, (.protocolConfig, data) ∈ d.old → PreOracle data) : Origin d

structure Sound (d : Deployment address) : Prop where
  wf : Wellformed d.ledger
  guarded : Guarded d.ledger
  dormant : ∀ e ∈ d.old, Dormant address e

theorem Dormant.grown {e : Pubkey × List UInt8} (h : Dormant address e) (n : Nat) :
    Dormant address (e.1, e.2 ++ List.replicate n 0) := by
  intro k r read
  rw [List.append_assoc, List.replicate_append_replicate] at read
  exact h (n + k) r read

theorem config_read {data tail : List UInt8} {old : ConfigHead} {r : Account}
    (bytes : data = configDiscriminator ++ (configHead.encode old ++ tail)) (read : readAccount address data = some r) :
    ∃ c rest, r = .protocolConfig (configRecord address (old, c)) ∧
      (configSas.pair configOracle).encode c ++ rest = tail := by
  have eight : configDiscriminator.length = 8 := rfl
  have tag : data.take 8 = configDiscriminator := bytes ▸ List.take_left' eight
  rw [readAccount_config tag, Option.map_eq_some_iff] at read
  obtain ⟨⟨head, c⟩, decoded, rfl⟩ := read
  obtain ⟨_, rest, behind⟩ := tryDeserialize_eq_some.1 decoded
  rw [bytes, List.drop_left' eight, protocolConfig, Codec.pair, List.append_assoc] at behind
  obtain ⟨rfl, tail⟩ := configHead.encode_inj behind
  exact ⟨c, rest, rfl, tail⟩

/-- The oracle fields of a configuration that has none are read as zeros. -/
theorem preOracle_unset (zero : address zeroBytes.toList = default) {data : List UInt8} {n : Nat} {cfg : ProtocolConfig}
    (old : PreOracle data) (read : readAccount address (data ++ List.replicate n 0) = some (.protocolConfig cfg)) :
    cfg.switchboardQueue = default := by
  have blank {c : ConfigSas × ConfigOracle} {rest : List UInt8} {k : Nat} {head : ConfigHead}
      (same : Account.protocolConfig cfg = .protocolConfig (configRecord address (head, c)))
      (zeros : configOracle.encode c.2 ++ rest = List.replicate k 0) : cfg.switchboardQueue = default := by
    obtain rfl := Account.protocolConfig.inj same
    have unset := configOracle.eq_of_zeros configOracle_width oracle_blank zeros
    exact (congrArg (fun o => address o.switchboardQueue.toList) unset).trans zero
  rcases old with ⟨head, rfl⟩ | ⟨⟨head, sas⟩, rfl⟩
  · obtain ⟨c, rest, same, bytes⟩ := config_read (List.append_assoc _ _ _) read
    rw [Codec.pair, List.append_assoc] at bytes
    obtain ⟨_, _, zeros⟩ := List.append_eq_replicate_iff.1 bytes
    exact blank same zeros
  · have data : configDiscriminator ++ (configHead.pair configSas).encode (head, sas) ++ List.replicate n 0 =
        configDiscriminator ++ (configHead.encode head ++ (configSas.encode sas ++ List.replicate n 0)) := by
      simp only [Codec.pair, List.append_assoc]
    obtain ⟨c, rest, same, bytes⟩ := config_read data read
    rw [Codec.pair, List.append_assoc] at bytes
    exact blank same (configSas.encode_inj bytes).2

theorem origin_sound (zero : address zeroBytes.toList = default) (origin : Origin d) : Sound d := by
  cases origin with
  | genesis s genesis =>
      have wf := genesis_wellformed genesis
      refine ⟨wf, ⟨fun cfg config => ?_, fun p m hm => ?_⟩, nofun⟩
      · have vacant := genesis.derived .protocolConfig nofun
        cases (Ledger.config?_eq_some.1 config).symm.trans vacant
      · obtain ⟨at_, _⟩ := node_fits wf hm
        cases (Ledger.matchNode?_eq_some.1 hm).symm.trans (genesis.derived p (by simp [at_]))
  | upgraded _ wf none_ unbound fits config =>
      refine ⟨wf, ⟨fun cfg hcfg => ?_, fun p m hm real => absurd (unbound p m hm) real⟩, fun e mem n r read => ?_⟩
      · cases none_.symm.trans hcfg
      · have place := fits e mem n r read
        refine ⟨place, ?_⟩
        rintro cfg rfl
        obtain ⟨p, data⟩ := e
        obtain rfl : p = .protocolConfig := place.1
        exact preOracle_unset zero (config data mem) read

theorem guarded_woken {p : Pubkey} {r : Account} (vacant : s.accounts p = .system) (fits : Account.fits p r)
    (kind : (∃ t, r = .tournament t) ∨ ∃ cfg, r = .protocolConfig cfg)
    (unset : ∀ cfg, r = .protocolConfig cfg → cfg.switchboardQueue = default) (guarded : Guarded s) :
    Guarded (s.setAccount p r) := by
  refine guarded.next ?_ fun q m hm _ => .inl ?_
  · rcases kind with ⟨t, rfl⟩ | ⟨cfg, rfl⟩
    · refine .same (config_congr ?_)
      rw [Ledger.setAccount_accounts, if_neg (by simp [fits.1])]
    · obtain rfl : p = .protocolConfig := fits.1
      exact .created (congrArg Account.asConfig vacant) cfg (config_set s cfg) (unset cfg rfl)
  · rw [Ledger.matchNode?, Ledger.setAccount_accounts] at hm
    split at hm
    · obtain ⟨t, rfl⟩ | ⟨cfg, rfl⟩ := kind <;> cases hm
    · exact hm

theorem sound_step (genuine : Genuine rt d.ledger) (sound : Sound d) (step : Upgrade.Step rt d a d') : Sound d' := by
  obtain ⟨wf, guarded, dormant⟩ := sound
  cases step_change wf step with
  | program b next old => exact ⟨(step_confined wf next).wf, guarded_step wf genuine guarded next, old ▸ dormant⟩
  | closed c pruned old => exact ⟨pruned.wf wf, Pruned.guarded pruned guarded, fun e he => dormant e (old e he)⟩
  | woken _ e n r mem read kind accounts old =>
      obtain ⟨fits, unset⟩ := dormant e mem n r read
      refine ⟨wellformed_of_accounts (wellformed_set wf fits) accounts, guarded_congr accounts ?_,
        fun x hx => dormant x (old x hx)⟩
      exact guarded_woken (Ledger.isSystem_iff.1 (d.absent e mem)) fits kind unset guarded
  | grown _ e n mem accounts old =>
      refine ⟨wellformed_of_accounts wf accounts, guarded_congr accounts guarded, fun x hx => ?_⟩
      rcases old x hx with hx | rfl
      · exact dormant x hx
      · exact (dormant e mem).grown n

/-- What a successful oracle proposal passes to the feed. -/
def Thresholded (rt : Runtime) (e : Deployment address × Upgrade.Action) : Prop :=
  ∀ c p, e.2 = .program (.call (.proposeResultOracle c p)) → ∃ cfg feed value, e.1.ledger.config? = some cfg ∧
    rt.parseFeed (foreignData e.1.ledger p) = some feed ∧
    feed.getValue e.1.ledger.clock.slot cfg.maxStaleSlots cfg.minOracleSamples false = some value ∧
    1 ≤ cfg.minOracleSamples ∧ cfg.maxStaleSlots ≤ 9000

theorem propose_thresholded {c : MatchAccounts} {p : Pubkey} (guarded : Guarded s) (genuine : Genuine rt s)
    (step : Program.Step rt s (.call (.proposeResultOracle c p)) s') : ∃ cfg feed value, s.config? = some cfg ∧
      rt.parseFeed (foreignData s p) = some feed ∧
      feed.getValue s.clock.slot cfg.maxStaleSlots cfg.minOracleSamples false = some value ∧ Validated cfg := by
  obtain ⟨_, _, ran⟩ := call_ran step
  simp only [Instruction.run, proposeResultOracle, bind_ok, require_ok, orThrow_ok,
    Ledger.loadConfig] at ran
  obtain ⟨t, _, m, hm, cfg, config, _, _, _, _, _, _, _, _, _, rfl, feed, parsed, value, read, _⟩ := ran
  have real : m.switchboardFeed ≠ default := by
    intro zero
    rw [zero, genuine.zero] at parsed
    cases parsed
  obtain ⟨cfg', config', bounds⟩ := guarded.bound _ m (Ledger.loadMatch_ok.1 hm).1 real
  obtain rfl := Option.some.inj (config.symm.trans config')
  exact ⟨cfg, feed, value, config, parsed, read, bounds⟩

/-- Every oracle proposal of every run passes checked bounds to the feed. -/
theorem thresholds_hold {past : History address} (zero : address zeroBytes.toList = default) (origin : Origin start)
    (run : Runs.Run (Upgrade.Step rt) start past d) (genuine : ∀ q, Visits past d q → Genuine rt q.ledger) :
    Always (Thresholded rt) past := by
  have sound : ∀ q, Visits past d q → Sound q := by
    refine run.visited (P := fun e => Genuine rt e.1.ledger) (origin_sound zero origin) ?_ ?_
    · intro _ q b q' _ sound here step
      exact sound_step here sound step
    · rintro ⟨q, b⟩ entry
      exact genuine q (.inr ⟨b, entry⟩)
  rintro ⟨q, b⟩ entry c p call
  obtain rfl : b = .program (.call (.proposeResultOracle c p)) := call
  have here : Visits past d q := .inr ⟨_, entry⟩
  obtain ⟨q', step, _⟩ := run.next_visited entry
  obtain ⟨next, _⟩ := keep_ok step
  exact propose_thresholded (sound q here).guarded (genuine q here) next

end Upgrades

section Sample

/-- Keys by their number. -/
def sampleAddress (bytes : List UInt8) : Pubkey := .key (leNat bytes)

def sampleConfig : ConfigHead where
  authority := keyOf 9
  treasury := keyOf 8
  defaultMint := keyOf 100
  feeBps := 350
  bump := 255

def sampleConfigData : List UInt8 := configDiscriminator ++ configHead.encode sampleConfig

/-- Feeds whose data are the byte 1, all on queue 300. -/
def upgradeRuntime : Runtime :=
  { sampleRuntime with
    keyBytes := fun p => match p with
      | .key n => leBytes 32 n
      | _ => []
    parseFeed := fun data => if data = [1] then some ⟨.key 300, zeroBytes, fun _ _ _ _ => some (0, 0)⟩ else none }

theorem sampleConfig_tag : sampleConfigData.take 8 = configDiscriminator := List.take_left' rfl

theorem sampleConfig_unread : readAccount sampleAddress sampleConfigData = none := by
  have length : sampleConfigData.length = 8 + 99 := by
    rw [sampleConfigData, List.length_append, configHead_width]
    rfl
  rw [readAccount_config sampleConfig_tag, tryDeserialize_short protocolConfig_width (by decide) (by omega)]
  rfl

/-- The old configuration holds the rent of its 107 bytes. -/
def sampleHeld : Ledger :=
  { sampleGenesis with lamports := Function.update sampleGenesis.lamports .protocolConfig 1635600 }

theorem sampleHeld_genesis : Genesis sampleHeld :=
  ⟨sampleGenesis_genesis.derived, sampleGenesis_genesis.outside, rfl⟩

/-- The configuration of the first version is all that the program owns. -/
def sampleUpgrade : Deployment sampleAddress where
  ledger := sampleHeld
  old := [(.protocolConfig, sampleConfigData)]
  absent := by simp [sampleHeld, sampleGenesis, Account.isSystem]
  unread := by simp [sampleConfig_unread]

theorem sampleConfig_read {n : Nat} {r : Account}
    (read : readAccount sampleAddress (sampleConfigData ++ List.replicate n 0) = some r) :
    Account.fits .protocolConfig r := by
  obtain ⟨_, _, rfl, _⟩ := config_read (List.append_assoc _ _ _) read
  exact ⟨rfl, rfl⟩

theorem sampleUpgrade_origin : Origin sampleUpgrade := by
  have wf := genesis_wellformed sampleHeld_genesis
  refine .upgraded _ wf rfl (fun p m hm => ?_) ?_ ?_
  · obtain ⟨at_, _⟩ := node_fits wf hm
    cases (Ledger.matchNode?_eq_some.1 hm).symm.trans (sampleHeld_genesis.derived p (by simp [at_]))
  · simp only [sampleUpgrade, List.forall_mem_singleton]
    exact fun n r read => sampleConfig_read read
  · intro data mem
    obtain rfl : data = sampleConfigData := by simpa [sampleUpgrade] using mem
    exact .inl ⟨sampleConfig, rfl⟩

def sampleInfo : AccountInfo := ⟨programId, 3250320, sampleConfigData ++ List.replicate 232 0⟩

theorem sampleConfig_migrates : Migrations.migrateProtocolConfig upgradeRuntime (.key 9) 1000000000
    ⟨programId, 1635600, sampleConfigData⟩ = .ok (sampleInfo, 998385280) := by
  have length : sampleConfigData.length = 107 := rfl
  have authority : slice sampleConfigData 8 40 = upgradeRuntime.keyBytes (.key 9) := rfl
  have rent : upgradeRuntime.minimumBalance protocolConfigSpace = 3250320 := rfl
  have grown : grow upgradeRuntime protocolConfigSpace 1000000000 ⟨programId, 1635600, sampleConfigData⟩ =
      .ok (sampleInfo, 998385280) := by
    simp only [grow, bind_ok, require_ok, pure_ok, length, rent]
    exact ⟨(), by decide, (), by decide, rfl⟩
  simp only [Migrations.migrateProtocolConfig, bind_ok, require_ok]
  exact ⟨(), trivial, (), by rw [length]; decide, (), sampleConfig_tag, (), authority, grown⟩

theorem sampleInfo_read : readAccount sampleAddress sampleInfo.data =
    some (.protocolConfig (configRecord sampleAddress (sampleConfig, blankSas, blankOracle))) := by
  have blank : (configSas.pair configOracle).Blank (blankSas, blankOracle) (192 + 40) :=
    Codec.pair_blank _ sas_blank oracle_blank
  have data : sampleInfo.data = configDiscriminator ++ (configHead.encode sampleConfig ++ List.replicate 232 0) :=
    List.append_assoc _ _ _
  have tag : sampleInfo.data.take 8 = configDiscriminator := data ▸ List.take_left' rfl
  rw [readAccount_config tag, data, protocolConfig, tryDeserialize_padded configHead rfl blank (by decide)]
  rfl

/-- The ledger once the configuration is migrated. -/
def sampleMigrated : Ledger :=
  (Deployment.funded sampleHeld .protocolConfig (.key 9) sampleInfo 998385280).setAccount .protocolConfig
    (.protocolConfig (configRecord sampleAddress (sampleConfig, blankSas, blankOracle)))

theorem sampleUpgrade_migrates :
    Upgrade.Step upgradeRuntime sampleUpgrade (.migrateProtocolConfig (.key 9)) (.fresh sampleMigrated) := by
  have taken : sampleUpgrade.old.lookup .protocolConfig = some sampleConfigData := rfl
  let d := sampleUpgrade.reload .protocolConfig (.key 9) taken sampleInfo 998385280
  have migrated : sampleUpgrade.migrate .protocolConfig (.key 9)
      (Migrations.migrateProtocolConfig upgradeRuntime (.key 9)) = .ok d := migrate_ok taken sampleConfig_migrates
  obtain ⟨ledger, old⟩ : d.ledger = sampleMigrated ∧ d.old = _ := reload_woken _ taken 998385280 sampleInfo_read
  have none_ : d.old = [] := old
  rw [← ledger, ← eq_fresh none_, Upgrade.Step, Upgrade.Action.run, Deployment.migrateProtocolConfig, migrated]
  simp only [bind_ok, require_ok, paid_ok]
  refine ⟨(), rfl, d, rfl, .inr rfl, ?_, rfl⟩
  rw [reload_lamports]
  decide

/-- Configure, then propose what the feed reports. -/
def upgradedRelay : List Program.Action :=
  .outside (.account 200 (.foreign switchboardOnDemandDevnet [1])) :: relayed.drop 1

theorem upgradeRuntime_genuine {s : Ledger} (zero : foreignData s default = []) : Genuine upgradeRuntime s := by
  refine ⟨fun p owner data feed _ _ parsed => ?_, by rw [zero]; rfl⟩
  simp only [upgradeRuntime, Option.ite_none_right_eq_some] at parsed
  obtain ⟨_, same⟩ := parsed
  obtain rfl := Option.some.inj same
  decide

/-- The run that migrates the configuration and goes on to an oracle proposal. -/
def upgradedPast : History sampleAddress :=
  (sampleUpgrade, .migrateProtocolConfig (.key 9)) ::
    (log upgradeRuntime sampleMigrated upgradedRelay).map fun e => (.fresh e.1, .program e.2)

theorem upgradedPast_run : Runs.Run (Upgrade.Step upgradeRuntime) sampleUpgrade upgradedPast
    (.fresh (after upgradeRuntime sampleMigrated upgradedRelay)) :=
  (Run.one sampleUpgrade_migrates).append (fresh_lift (script_run sampleMigrated upgradedRelay))

theorem upgradedPast_genuine (q : Deployment sampleAddress)
    (here : Visits upgradedPast (.fresh (after upgradeRuntime sampleMigrated upgradedRelay)) q) :
    Genuine upgradeRuntime q.ledger := by
  rcases here with rfl | ⟨a, entry⟩
  · exact upgradeRuntime_genuine rfl
  · rcases List.mem_cons.1 entry with first | entry
    · obtain ⟨rfl, _⟩ := Prod.mk.inj first
      exact upgradeRuntime_genuine rfl
    · obtain ⟨e, logged, same⟩ := List.mem_map.1 entry
      obtain ⟨rfl, _⟩ := Prod.mk.inj same
      have zero : ((log upgradeRuntime sampleMigrated upgradedRelay).all fun e => foreignData e.1 default = []) = true := by
        decide
      exact upgradeRuntime_genuine (of_decide_eq_true (List.all_eq_true.1 zero e logged))

theorem upgraded_thresholded : upgradedPast.getLast?.map Prod.snd = some (.program (.call (.proposeResultOracle
      ⟨.key 5, relayTournament.key, finalMatch relayTournament.key⟩ (.key 200)))) ∧
    Always (Thresholded upgradeRuntime) upgradedPast :=
  ⟨rfl, thresholds_hold rfl sampleUpgrade_origin upgradedPast_run upgradedPast_genuine⟩

end Sample

end BracketChain.Thresholds
