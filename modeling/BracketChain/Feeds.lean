import BracketChain.Consent
import BracketChain.Frames

namespace BracketChain.Feeds

open Outcome Keys Records Accounts Registration Start Settlement Envelope Refunds Program Runs Layout View Lifecycle
  Refinement Matches Frames Scripts Consent

/-- The feed of a match is an account of Switchboard on the configured queue
that runs the job the match was committed to. -/
def FeedHolds (rt : Runtime) (s : Ledger) (m : MatchNode) : Prop :=
  ∃ commitment cfg owner data feed, m.commitment = some commitment ∧ s.config? = some cfg ∧
    s.loadForeign m.switchboardFeed = some (owner, data) ∧ ownedBySwitchboard owner ∧
    rt.parseFeed data = some feed ∧ feed.queue = cfg.switchboardQueue ∧ feed.feedHash = commitment.expectedFeedHash

/-- Every oracle proposal reads a feed that holds. -/
def ReadsBoundFeed (rt : Runtime) (e : Ledger × Action) : Prop :=
  ∀ c feed, e.2 = .call (.proposeResultOracle c feed) →
    ∃ m, e.1.matchNode? c.matchAccount = some m ∧ feed = m.switchboardFeed ∧ FeedHolds rt e.1 m

/-- Queue and job of a feed account of Switchboard. -/
def feedIdentity (rt : Runtime) (a : Account) : Option (Pubkey × Bytes32) := do
  let (owner, data) ← a.asForeign
  if ownedBySwitchboard owner then (rt.parseFeed data).map fun feed => (feed.queue, feed.feedHash) else none

/-- A feed was bound to the match, and its result is still to come. -/
def Awaits (m : MatchNode) : Prop := m.switchboardFeed ≠ default ∧ m.proposalSource = .none

/-- A step that takes the feed of an awaiting match from its queue or its job,
or the configured queue from the feed. -/
inductive Redirects (rt : Runtime) (s : Ledger) (m : MatchNode) : Action → Prop
  | account (n : Nat) (a : Account) (feed : m.switchboardFeed = .key n)
      (changed : feedIdentity rt a ≠ feedIdentity rt (s.accounts (.key n))) :
      Redirects rt s m (.outside (.account n a))
  | queue (authority queue : Pubkey) (stale samples : Nat) {cfg : ProtocolConfig} (config : s.config? = some cfg)
      (changed : queue ≠ cfg.switchboardQueue) :
      Redirects rt s m (.call (.setOracleConfig authority queue stale samples))

/-- A step that leaves the feeds of all awaiting matches as they were bound,
and proposes no result for a match without one. -/
structure Steady (rt : Runtime) (e : Ledger × Action) : Prop where
  kept : ∀ p m, e.1.matchNode? p = some m → Awaits m → ¬ Redirects rt e.1 m e.2
  bound : ∀ c feed m, e.2 = .call (.proposeResultOracle c feed) → e.1.matchNode? c.matchAccount = some m →
    m.switchboardFeed ≠ default

variable {rt : Runtime} {s s' : Ledger} {m : MatchNode} {b : Action}

theorem feedIdentity_eq_some {a : Account} {x : Pubkey × Bytes32} : feedIdentity rt a = some x ↔
    ∃ owner data feed, a.asForeign = some (owner, data) ∧ ownedBySwitchboard owner ∧ rt.parseFeed data = some feed ∧
      (feed.queue, feed.feedHash) = x := by
  unfold feedIdentity
  cases h : a.asForeign with
  | none => simp
  | some f =>
      obtain ⟨owner, data⟩ := f
      by_cases owned : ownedBySwitchboard owner
      · simp [owned]
      · simp [owned]

theorem feedHolds_iff : FeedHolds rt s m ↔ ∃ commitment cfg, m.commitment = some commitment ∧ s.config? = some cfg ∧
    feedIdentity rt (s.accounts m.switchboardFeed) = some (cfg.switchboardQueue, commitment.expectedFeedHash) := by
  constructor
  · rintro ⟨commitment, cfg, owner, data, feed, hc, hcfg, foreign_, owned, parsed, queue, hash⟩
    exact ⟨commitment, cfg, hc, hcfg, feedIdentity_eq_some.2 ⟨owner, data, feed, foreign_, owned, parsed,
      Prod.ext queue hash⟩⟩
  · rintro ⟨commitment, cfg, hc, hcfg, identity⟩
    obtain ⟨owner, data, feed, foreign_, owned, parsed, same⟩ := feedIdentity_eq_some.1 identity
    obtain ⟨queue, hash⟩ := Prod.mk.inj same
    exact ⟨commitment, cfg, owner, data, feed, hc, hcfg, foreign_, owned, parsed, queue, hash⟩

theorem foreign_at {p : Pubkey} {x : Pubkey × Bytes32} (wf : Wellformed s)
    (h : feedIdentity rt (s.accounts p) = some x) : (∃ n, p = .key n) ∧ s.token? p = none := by
  obtain ⟨owner, data, _, foreign_, _⟩ := feedIdentity_eq_some.1 h
  have fits := wf p
  unfold Ledger.token?
  generalize s.accounts p = a at foreign_ fits
  cases a with
  | «foreign» => exact ⟨fits, rfl⟩
  | _ => cases foreign_

/-- A feed that holds keeps holding through every step that does not redirect
it. -/
theorem feedHolds_step (wf : Wellformed s) (h : FeedHolds rt s m) (quiet : ¬ Redirects rt s m b)
    (step : Step rt s b s') : FeedHolds rt s' m := by
  obtain ⟨commitment, cfg, hc, hcfg, identity⟩ := feedHolds_iff.1 h
  obtain ⟨⟨n, feed⟩, plain⟩ := foreign_at wf identity
  have config := Ledger.config?_eq_some.1 hcfg
  have holds (cfg' : ProtocolConfig) (config' : s'.accounts .protocolConfig = .protocolConfig cfg')
      (queue : cfg'.switchboardQueue = cfg.switchboardQueue)
      (account : feedIdentity rt (s'.accounts m.switchboardFeed) = feedIdentity rt (s.accounts m.switchboardFeed)) :
      FeedHolds rt s' m :=
    feedHolds_iff.2 ⟨commitment, cfg', hc, Ledger.config?_eq_some.2 config', by rw [account, identity, queue]⟩
  cases b with
  | outside e =>
      have config' : s'.accounts .protocolConfig = .protocolConfig cfg := by
        obtain same | ⟨_, _, _, own, _⟩ := outside_account step (config_plain hcfg)
        · exact same.trans config
        · cases own
      refine holds cfg config' rfl ?_
      obtain same | ⟨k, a, rfl, own, written⟩ := outside_account step plain
      · rw [same]
      · by_contra changed
        exact quiet (.account k a own fun same => changed (by rw [written, own, same]))
  | call ix =>
      obtain ⟨_, _, h⟩ := call_ran step
      by_cases own : ix.tournament = none
      · obtain ⟨l, cfg', rfl, vacant | ⟨cfg₁, hcfg₁, queue⟩⟩ := config_call own h
        · cases config.symm.trans vacant
        · obtain rfl := Option.some.inj (hcfg.symm.trans hcfg₁)
          refine holds cfg' (by rw [Ledger.setAccount_accounts, if_pos rfl]) ?_ ?_
          · rcases queue with same | ⟨authority, stale, samples, rfl⟩
            · exact same
            · by_contra changed
              exact quiet (.queue authority _ stale samples hcfg changed)
          · rw [Ledger.setAccount_accounts, if_neg (by simp [feed])]
      · have framed := call_framed wf own h
        refine holds cfg ((framed.account _ rfl (config_plain hcfg)).trans config) rfl ?_
        rw [framed.account _ (by rw [feed]; rfl) plain]

/-- Bound matches are committed, and their feeds hold until the result is
proposed. -/
def Bound (rt : Runtime) (s : Ledger) : Prop :=
  ∀ p m, s.matchNode? p = some m → m.switchboardFeed ≠ default →
    m.commitment.isSome = true ∧ (m.proposalSource = .none → FeedHolds rt s m)

/-- The feed as `bind_match_feed` checks it. -/
theorem bind_holds {c : MatchAccounts} {feed : Pubkey} (step : Step rt s (.call (.bindMatchFeed c feed)) s') :
    ∃ m, s.matchNode? c.matchAccount = some m ∧ FeedHolds rt s { m with switchboardFeed := feed } := by
  obtain ⟨_, _, ran⟩ := call_ran step
  simp only [Instruction.run, bindMatchFeed, bind_ok, require_ok, orThrow_ok, pure_ok,
    Ledger.loadConfig] at ran
  obtain ⟨t, _, _, _, m, hm, cfg, hcfg, commitment, hc, ⟨owner, data⟩, foreign_, _, owned, f, parsed, _,
    queue, _, hash, _⟩ := ran
  exact ⟨m, (Ledger.loadMatch_ok.1 hm).1, commitment, cfg, owner, data, f, hc, hcfg, foreign_, owned, parsed, queue, hash⟩

theorem feedHolds_congr {n : MatchNode} (feed : n.switchboardFeed = m.switchboardFeed)
    (commitment : n.commitment = m.commitment) : FeedHolds rt s n ↔ FeedHolds rt s m := by
  rw [FeedHolds, FeedHolds, feed, commitment]

theorem bound_step (wf : Wellformed s) (bound : Bound rt s) (steady : Steady rt (s, b)) (step : Step rt s b s') :
    Bound rt s' := by
  intro p m' hm' real
  obtain ⟨key, slot, rfl⟩ : ∃ key slot, p = .matchNode key slot := ⟨_, _, (node_fits (step_confined wf step).wf hm').1⟩
  -- a match that keeps its feed and commitment keeps what was known of them
  have keeps {m : MatchNode} (hm : s.matchNode? (.matchNode key slot) = some m)
      (feed : m'.switchboardFeed = m.switchboardFeed) (commitment : m'.commitment = m.commitment)
      (source : m'.proposalSource = .none → m.proposalSource = .none) :
      m'.commitment.isSome = true ∧ (m'.proposalSource = .none → FeedHolds rt s' m') := by
    obtain ⟨committed, holds⟩ := bound _ m hm (feed ▸ real)
    refine ⟨commitment ▸ committed, fun empty => ?_⟩
    have quiet := steady.kept _ m hm ⟨feed ▸ real, source empty⟩
    exact (feedHolds_congr feed commitment).2 (feedHolds_step wf (holds (source empty)) quiet step)
  have change := step_node wf step hm'
  generalize hn : some m' = n at change
  cases change with
  | same => exact keeps hn.symm rfl rfl id
  | placed c d =>
      obtain rfl := Option.some.inj hn
      exact absurd rfl real
  | @edited ix a t m _ call accounts _ address _ node edits =>
      obtain rfl := Option.some.inj hn
      cases edits with
      | propose | proposeOracle => exact keeps node rfl rfl fun empty => by cases empty
      | dispute => exact keeps node rfl rfl id
      | commit _ _ _ _ _ _ _ _ first =>
          have committed := (bound _ m node real).1
          simp [first] at committed
      | bind c feed =>
          subst call
          obtain ⟨m₁, hm₁, holds⟩ := bind_holds step
          obtain rfl := Option.some.inj accounts
          rw [address] at hm₁
          obtain rfl := Option.some.inj (hm₁.symm.trans node)
          obtain ⟨commitment, _, _, _, _, hc, _⟩ := id holds
          refine ⟨by simp [show m₁.commitment = some commitment from hc], fun _ => ?_⟩
          exact feedHolds_step wf holds (by rintro ⟨⟩) step
  | finalized ix a _ finalizes =>
      obtain rfl := Option.some.inj hn
      exact keeps finalizes.node rfl rfl id
  | seated ix a child _ _ _ _ node =>
      obtain rfl := Option.some.inj hn
      refine keeps node ?_ ?_ ?_ <;> rw [advance_eq]
      exact id
  | closed => cases hn

theorem proposal_reads {c : MatchAccounts} {feed : Pubkey} (step : Step rt s (.call (.proposeResultOracle c feed)) s') :
    ∃ m, s.matchNode? c.matchAccount = some m ∧ m.proposalSource = .none ∧ feed = m.switchboardFeed := by
  obtain ⟨_, _, ran⟩ := call_ran step
  simp only [Instruction.run, proposeResultOracle, bind_ok, require_ok] at ran
  obtain ⟨t, _, m, hm, _, _, _, _, _, _, _, empty, _, _, _, same, _⟩ := ran
  exact ⟨m, (Ledger.loadMatch_ok.1 hm).1, empty, same⟩

theorem run_bound {start : Ledger} {past : History} (genesis : Genesis start) (run : Run rt start past s)
    (steady : Always (Steady rt) past) : Bound rt s := by
  refine run.visited (I := Bound rt) ?_ ?_ steady s (.inl rfl)
  · intro p m hm
    obtain ⟨at_, _⟩ := node_fits (genesis_wellformed genesis) hm
    rw [Ledger.matchNode?, genesis.derived p (by simp [at_])] at hm
    cases hm
  · intro before q c u reach bound quiet step
    exact bound_step (run_wellformed (genesis_wellformed genesis) reach) bound quiet step

/-- In every run of steady steps, each oracle proposal reads a feed that holds
at that moment. -/
theorem feeds_hold {start : Ledger} {past : History} (genesis : Genesis start) (run : Run rt start past s)
    (steady : Always (Steady rt) past) : Always (ReadsBoundFeed rt) past := by
  rintro ⟨q, b⟩ entry c feed call
  obtain rfl : b = .call (.proposeResultOracle c feed) := call
  obtain ⟨before, after, rfl⟩ := List.append_of_mem entry
  obtain ⟨reach, u, step, _⟩ := run.split rfl
  obtain ⟨m, hm, empty, same⟩ := proposal_reads step
  have bound := run_bound genesis reach fun e he => steady e (List.mem_append_left _ he)
  exact ⟨m, hm, same, (bound _ m hm ((steady _ entry).bound c feed m rfl hm)).2 empty⟩

/-- A check of the steps that could disturb a feed. -/
def steadyStep (rt : Runtime) (e : Ledger × Action) : Bool :=
  match e.2 with
  | .outside (.account n a) => feedIdentity rt a == feedIdentity rt (e.1.accounts (.key n))
  | .call (.setOracleConfig _ queue _ _) => e.1.config?.all fun cfg => queue == cfg.switchboardQueue
  | .call (.proposeResultOracle c _) => (e.1.matchNode? c.matchAccount).all fun m => m.switchboardFeed != default
  | _ => true

theorem steady_of_check {e : Ledger × Action} (h : steadyStep rt e = true) : Steady rt e := by
  obtain ⟨q, b⟩ := e
  refine ⟨?_, ?_⟩
  · rintro p m _ _ (⟨n, a, _, changed⟩ | ⟨_, queue, _, _, config, changed⟩)
    · exact changed (by simpa [steadyStep] using h)
    · exact changed (by simpa [steadyStep, config] using h)
  · rintro c feed m rfl hm
    simpa [steadyStep, hm] using h

/-- Without matches there is no feed to disturb. -/
theorem steady_of_empty {e : Ledger × Action} (wf : Wellformed e.1)
    (empty : ∀ key slot, e.1.accounts (.matchNode key slot) = .system) : Steady rt e := by
  have unopened {p : Pubkey} {m : MatchNode} (hm : e.1.matchNode? p = some m) : False := by
    have system := empty m.tournament m.slot
    rw [← (node_fits wf hm).1, Ledger.matchNode?_eq_some.1 hm] at system
    cases system
  refine ⟨?_, ?_⟩
  · intro p m hm
    exact (unopened hm).elim
  · intro c feed m _ hm
    exact (unopened hm).elim

theorem relayed_steady : Always (Steady relayRuntime) (log relayRuntime sampleGenesis relayed) := by
  have early (bs : List Action) : Wellformed (after relayRuntime sampleGenesis bs) :=
    reachable_wellformed (script_reachable sampleGenesis_genesis bs)
  have split : log relayRuntime sampleGenesis relayed = (sampleGenesis, sampleInit) ::
      (after relayRuntime sampleGenesis [sampleInit], .call (.setOracleConfig (.key 9) (.key 300) 0 1)) ::
        log relayRuntime (after relayRuntime sampleGenesis (relayed.take 2)) (relayed.drop 2) := rfl
  rw [split]
  intro e entry
  rcases List.mem_cons.1 entry with rfl | entry
  · exact steady_of_empty (early []) fun _ _ => rfl
  · rcases List.mem_cons.1 entry with rfl | entry
    · exact steady_of_empty (early [sampleInit]) fun _ _ => rfl
    · exact steady_of_check (List.all_eq_true.1 (by decide) e entry)

theorem relayed_holds : ∃ past s m, Run relayRuntime sampleGenesis past s ∧
    s.matchNode? (finalMatch relayTournament.key) = some m ∧ m.proposalSource = .oracle ∧
    Always (ReadsBoundFeed relayRuntime) past :=
  ⟨_, _, _, script_run _ _, rfl, rfl, feeds_hold sampleGenesis_genesis (script_run _ relayed) relayed_steady⟩

section Redirected

/-- The feed of the match, and one for another queue and another job. -/
def boundFeed : Feed := ⟨.key 300, zeroBytes, fun _ _ _ _ => some (0, 0)⟩

def otherFeed : Feed := ⟨.key 301, Vector.replicate 32 1, fun _ _ _ _ => some (1, 0)⟩

def feedRuntime : Runtime :=
  { sampleRuntime with parseFeed := fun data => if data = [] then some boundFeed else some otherFeed }

/-- Once the feed is bound, the account passes to another program, which
reports the other player. -/
def redirected : List Action :=
  relayed.dropLast ++ [.outside (.account 200 (.foreign (.key 7) [1])),
    .call (.proposeResultOracle ⟨.key 5, relayTournament.key, finalMatch relayTournament.key⟩ (.key 200))]

/-- What account 200 holds when the result is proposed. -/
theorem redirected_foreign :
    (after feedRuntime sampleGenesis redirected.dropLast).loadForeign (.key 200) = some (.key 7, [1]) := rfl

theorem redirected_not_held : ∃ past s m, Run feedRuntime sampleGenesis past s ∧
    s.matchNode? (finalMatch relayTournament.key) = some m ∧ m.proposalSource = .oracle ∧
    m.proposedWinner = .key 2 ∧ ¬ Always (ReadsBoundFeed feedRuntime) past := by
  refine ⟨_, _, _, script_run _ redirected, rfl, rfl, rfl, ?_⟩
  intro holds
  have entry : (after feedRuntime sampleGenesis redirected.dropLast, Action.call (.proposeResultOracle
      ⟨.key 5, relayTournament.key, finalMatch relayTournament.key⟩ (.key 200))) ∈
      log feedRuntime sampleGenesis redirected := List.mem_of_getElem? (i := 12) rfl
  obtain ⟨m, _, same, _, _, owner, data, _, _, _, foreign_, owned, _⟩ := holds _ entry _ _ rfl
  have account := same ▸ redirected_foreign
  obtain ⟨rfl, _⟩ := Prod.mk.inj (Option.some.inj (account.symm.trans foreign_))
  exact absurd owned (by decide)

end Redirected

end BracketChain.Feeds
