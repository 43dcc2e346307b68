import BracketChain.Matches
import BracketChain.Scripts

namespace BracketChain.Consent

open Outcome Keys Records Accounts Registration Start Settlement Envelope Refunds Program Runs Layout View Lifecycle
  Refinement Lives Matches Scripts

/-- The instruction of an entry finalizes the match `m`, which carries a
proposal, before the deadline of that proposal. -/
structure Early (e : Ledger × Action) (ix : Instruction) (a : FinalizeAccounts) (t : Tournament) (m : MatchNode) :
    Prop where
  call : e.2 = .call ix
  accounts : Instruction.finalize? ix = some a
  record : e.1.tournament? a.tournament = some t
  node : e.1.matchNode? a.matchAccount = some m
  mode : t.settlementMode ≠ .organizerOnly
  pending : m.proposalSource ≠ .none
  early : e.1.clock.unixTimestamp < m.claimDeadline

/-- The player consents: it made the proposal or signs the confirmation. -/
def Consents (m : MatchNode) (p : Pubkey) (ix : Instruction) : Prop :=
  p = m.proposer ∨ ∃ a placements, ix = .confirmResult a placements ∧ a.signer = p

def resolves : Instruction → Prop
  | .resolveDispute _ _ _ => True
  | _ => False

/-- An entry of a history that finalizes a match early without a dispute has
the consent of each player that the proposal does not name. -/
def Consensual (e : Ledger × Action) : Prop :=
  ∀ ix a t m, Early e ix a t m → ¬ resolves ix →
    ∀ p, m.hasPlayer p → p ≠ m.proposedWinner → Consents m p ix

/-- The player named by a relayer's proposal confirms it before its deadline. -/
def SelfConfirms (e : Ledger × Action) : Prop :=
  ∃ a placements t m, Early e (.confirmResult a placements) a t m ∧ a.signer = m.proposedWinner ∧
    ¬ m.hasPlayer m.proposer ∧ m.playerA ≠ m.playerB

variable {rt : Runtime} {start s s' : Ledger} {past : History}

theorem early_decides {b : Action} {ix : Instruction} {a : FinalizeAccounts} {t : Tournament} {m : MatchNode}
    (wf : Wellformed s) (step : Step rt s b s') (early : Early (s, b) ix a t m) (unresolved : ¬ resolves ix) :
    ∃ placements, ix = .confirmResult a placements ∧ m.hasPlayer m.proposedWinner ∧ m.hasPlayer a.signer ∧
      a.signer ≠ m.proposer := by
  obtain rfl : b = .call ix := early.call
  obtain ⟨slot, t', m', winner, p', finalizes, _⟩ := finalize_of_step wf early.accounts step
  obtain rfl : t = t' := Option.some.inj (early.record.symm.trans finalizes.record)
  have node : s.matchNode? a.matchAccount = some m' := finalizes.address ▸ finalizes.node
  obtain rfl : m = m' := Option.some.inj (early.node.symm.trans node)
  have pending (h : m.claimDeadline ≤ s.clock.unixTimestamp) : False := absurd early.early (Int.not_lt.2 h)
  have decided := finalizes.decided
  cases ix with
  | confirmResult b placements =>
      obtain rfl := Option.some.inj early.accounts
      obtain ⟨⟨_, _, rfl⟩, player, other⟩ := decided
      exact ⟨placements, rfl, finalizes.player, player, other⟩
  | reportResult => exact absurd decided.2.1 early.mode
  | claimResult | forceClaimDisputed => exact (pending decided.2).elim
  | settleFinal => exact (pending decided.2.2).elim
  | resolveDispute => exact absurd trivial unresolved
  | _ => cases decided

theorem consensual_iff {b : Action} (wf : Wellformed s) (step : Step rt s b s') :
    Consensual (s, b) ↔ ¬ SelfConfirms (s, b) := by
  constructor
  · rintro consensual ⟨a, placements, t, m, early, self, outside, distinct⟩
    -- the other player neither made the proposal nor signs
    obtain ⟨p, hp, hne⟩ : ∃ p, m.hasPlayer p ∧ p ≠ m.proposedWinner := by
      by_cases h : m.playerA = m.proposedWinner
      · exact ⟨m.playerB, .inr rfl, fun hb => distinct (h.trans hb.symm)⟩
      · exact ⟨m.playerA, .inl rfl, h⟩
    rcases consensual _ a t m early id p hp hne with rfl | ⟨_, _, h, hs⟩
    · exact outside hp
    · obtain ⟨rfl, _⟩ := Instruction.confirmResult.inj h
      exact hne (hs.symm.trans self)
  · intro honest ix a t m early unresolved p hp hne
    obtain ⟨placements, rfl, named, signer, other⟩ := early_decides wf step early unresolved
    by_cases hs : a.signer = p
    · exact .inr ⟨a, placements, rfl, hs⟩
    · left
      -- the signer is the other player, so it is the named winner
      have self : a.signer = m.proposedWinner ∧ m.playerA ≠ m.playerB := by
        rcases hp with rfl | rfl <;> rcases named with h | h <;> rcases signer with h' | h' <;> simp_all
      by_contra author
      refine honest ⟨a, placements, t, m, early, self.1, fun h => ?_, self.2⟩
      rcases hp with rfl | rfl <;> rcases signer with h' | h' <;> rcases h with h | h <;> simp_all

/-- In every run, early finalizations have the loser's consent exactly when no
player confirms a relayer's proposal in its own favour. -/
theorem consent_iff (genesis : Genesis start) (run : Run rt start past s) :
    Always Consensual past ↔ Always (fun e => ¬ SelfConfirms e) past := by
  refine forall₂_congr fun e he => ?_
  obtain ⟨before, after, rfl⟩ := List.append_of_mem he
  obtain ⟨reach, t, step, _⟩ := run.split rfl
  exact consensual_iff (run_wellformed (genesis_wellformed genesis) reach) step

def confirmsOwn (e : Ledger × Action) : Bool :=
  match e.2 with
  | .call (.confirmResult a _) => (e.1.matchNode? a.matchAccount).map MatchNode.proposedWinner == some a.signer
  | _ => false

theorem confirmsOwn_of_selfConfirms {e : Ledger × Action} (h : SelfConfirms e) : confirmsOwn e = true := by
  obtain ⟨a, placements, t, m, early, self, _⟩ := h
  simp [confirmsOwn, early.call, early.node, self]

theorem always_honest (h : (past.all fun e => !confirmsOwn e) = true) :
    Always (fun e => ¬ SelfConfirms e) past := by
  intro e he self
  have own := confirmsOwn_of_selfConfirms self
  simpa [own] using List.all_eq_true.1 h e he

theorem concede_consensual :
    (log sampleRuntime sampleGenesis (proposedFinal ++ [concede sampleTournament.key])).length = 10 ∧
    Always Consensual (log sampleRuntime sampleGenesis (proposedFinal ++ [concede sampleTournament.key])) :=
  ⟨rfl, (consent_iff sampleGenesis_genesis (script_run _ _)).2 (always_honest (by decide))⟩

section Relayed

def relayRuntime : Runtime :=
  { sampleRuntime with parseFeed := fun _ => some ⟨.key 300, zeroBytes, fun _ _ _ _ => some (0, 0)⟩ }

def relayTournament : CreateTournament := { sampleTournament with settlementMode := .oracle }

/-- A relayer proposes the first player, as the feed reports. -/
def relayed : List Action :=
  [sampleInit, .call (.setOracleConfig (.key 9) (.key 300) 0 1), .call (.createTournament relayTournament)] ++
    twoRevealed relayTournament.key ++
    [openFinal relayTournament.key, openTreasury,
      .call (.commitMatchLobby ⟨.key 1, relayTournament.key, finalMatch relayTournament.key⟩
        (Vector.replicate 16 0) zeroBytes),
      .call (.bindMatchFeed ⟨.key 1, relayTournament.key, finalMatch relayTournament.key⟩ (.key 200)),
      .call (.proposeResultOracle ⟨.key 5, relayTournament.key, finalMatch relayTournament.key⟩ (.key 200))]

/-- The player it names confirms in the same second and takes the prize. -/
def selfConfirm : Action := .call (.confirmResult (finalFor (.key 3) relayTournament.key) [.key 3])

theorem selfConfirm_not_consensual : ∃ past s s' t, Run relayRuntime sampleGenesis past s ∧
    Step relayRuntime s selfConfirm s' ∧ ¬ Consensual (s, selfConfirm) ∧
    s'.tournament? relayTournament.key = some t ∧ t.champion = .key 3 := by
  refine ⟨_, _, after relayRuntime (after relayRuntime sampleGenesis relayed) [selfConfirm], _,
    script_run sampleGenesis relayed, rfl, fun consensual => ?_, rfl, rfl⟩
  have early : Early (after relayRuntime sampleGenesis relayed, selfConfirm) (.confirmResult
      (finalFor (.key 3) relayTournament.key) [.key 3]) _ _ _ :=
    ⟨rfl, rfl, rfl, rfl, by decide, by decide, by decide⟩
  rcases consensual _ _ _ _ early id (.key 2) (.inr rfl) (by decide) with h | ⟨a, placements, h, hs⟩
  · exact absurd h (by decide)
  · obtain ⟨rfl, _⟩ := Instruction.confirmResult.inj h
    exact absurd hs (by decide)

end Relayed

end BracketChain.Consent
