import BracketChain.Entitlement
import BracketChain.Matches

namespace BracketChain.Orphans

open Outcome Keys Records Accounts Registration Settlement Envelope Refunds Program Runs Layout View Lifecycle
  RefundEffects Refinement Lives Bookkeeping Matches Solvency Scripts

variable {rt : Runtime} {a : CreateTournament} {born start s : Ledger} {past : History} {key : Pubkey}

/-- What earlier tournaments left open at the address can claim nothing and
play nowhere: refunded participants and round-0 matches that are not active. -/
structure Harmless (key : Pubkey) (s : Ledger) : Prop where
  participant : ∀ w x, s.participant? (.participant key w) = some x → x.refundPaid = true
  inactive : ∀ slot m, s.matchNode? (.matchNode key slot) = some m → m.status ≠ .active
  leaf : ∀ slot m, s.matchNode? (.matchNode key slot) = some m → m.round = 0

/-- The call proposes on the match, finalizes it, or advances a winner into it. -/
def Plays (p : Pubkey) (ix : Instruction) : Prop :=
  (∃ c winner, ix = .proposeResult c winner ∧ c.matchAccount = p) ∨
    (∃ c feed, ix = .proposeResultOracle c feed ∧ c.matchAccount = p) ∨
      ∃ c, Instruction.finalize? ix = some c ∧ (c.matchAccount = p ∨ c.nextMatch = some p)

/-- A match left over from before, in a state of the life. -/
structure Left (key : Pubkey) (born : Ledger) (v : TournamentView) (t : Tournament) (slot : Slot) : Prop where
  kept : ¬ terminal t.status → (v.node slot).isSome = true
  same : ∀ m₀ m, (viewOf born key).node slot = some m₀ → v.node slot = some m → SameResult m₀ m

theorem left_step {b : Action} {v v' : TournamentView} {clock : Clock} {t t' : Tournament} {slot : Slot}
    {m₀ : MatchNode} (effect : Effect rt key clock b v v') (ht : v.record = some t) (ht' : v'.record = some t')
    (h₀ : (viewOf born key).node slot = some m₀) (inactive : m₀.status ≠ .active) (leaf : slot.round = 0)
    (left : Left key born v t slot) (slots : ∀ m, v.node slot = some m → m.slot = slot) :
    Left key born v' t' slot := by
  have change := effect_node effect slot
  have lasting (ended : terminal t.status) : terminal t'.status :=
    (effect_status effect ht ht').terminal ended ▸ ended
  generalize hn : v'.node slot = n at change
  cases change with
  | same => exact ⟨fun h => hn ▸ left.kept fun h' => h (lasting h'), fun m₁ m h₁ h => left.same m₁ m h₁ (hn ▸ h)⟩
  | placed c d _ _ record opens chunk mem slot_eq =>
      obtain rfl := Option.some.inj (ht.symm.trans record)
      have unended : ¬ terminal t.status := by
        rcases (opens_status opens).1 with h | h <;> simp [terminal, h]
      have taken := left.kept unended
      rw [← slot_eq, chunk.fresh d mem] at taken
      cases taken
  | @edited ix c _ m m' _ _ _ _ record node edits =>
      refine ⟨fun _ => by rw [hn]; rfl, fun m₁ m₂ h₁ h₂ => ?_⟩
      obtain rfl : m' = m₂ := Option.some.inj (hn.symm.trans h₂)
      have before := left.same m₁ m h₁ node
      obtain rfl : m₀ = m₁ := Option.some.inj (h₀.symm.trans h₁)
      exact before.trans (edits_sameResult edits (before.status ▸ inactive))
  | finalized ix c _ finalizes =>
      have before := left.same m₀ _ h₀ finalizes.node
      exact absurd (before.status.symm.trans finalizes.active) inactive
  | @seated ix c child _ m n _ _ _ _ _ _ node round =>
      have hs : n.round = slot.round := congrArg Slot.round (slots n node)
      omega
  | closed c _ _ record ended =>
      obtain rfl := Option.some.inj (ht.symm.trans record)
      exact ⟨fun h => absurd (lasting ended) h, fun _ _ _ h => by rw [hn] at h; cases h⟩

theorem plays_on {ix : Instruction} {s' : Ledger} {slot : Slot} (wf : Wellformed s)
    (step : Step rt s (.call ix) s') (plays : Plays (.matchNode key slot) ix) :
    ∃ m, (viewOf s key).node slot = some m ∧ (m.status = .active ∨ 0 < m.round) := by
  obtain ⟨c, winner, rfl, hp⟩ | ⟨c, feed, rfl, hp⟩ | ⟨c, call, hp⟩ := plays
  · obtain ⟨t, at_, m, m', address, _, node, _, edits⟩ := edit_of_step wf (c := c) rfl step
    obtain ⟨rfl, rfl⟩ : c.tournament = key ∧ at_ = slot := by simpa [hp, eq_comm] using address
    cases edits with
    | propose _ _ _ active => exact ⟨m, node, .inl active⟩
  · obtain ⟨t, at_, m, m', address, _, node, _, edits⟩ := edit_of_step wf (c := c) rfl step
    obtain ⟨rfl, rfl⟩ : c.tournament = key ∧ at_ = slot := by simpa [hp, eq_comm] using address
    cases edits with
    | proposeOracle _ _ _ _ active => exact ⟨m, node, .inl active⟩
  · obtain ⟨at_, t, m, winner, p', finalizes, parent⟩ := finalize_of_step wf call step
    rcases hp with hp | hp
    · obtain ⟨rfl, rfl⟩ : c.tournament = key ∧ at_ = slot := by simpa [hp, eq_comm] using finalizes.address
      exact ⟨m, finalizes.node, .inl finalizes.active⟩
    · obtain ⟨next, n, hnext, node, round, _⟩ := parent _ hp
      obtain ⟨rfl, rfl⟩ : c.tournament = key ∧ next = slot := by simpa [eq_comm] using hnext
      exact ⟨n, node, .inr (by omega)⟩

theorem leftovers_left (life : Life rt a born start past s) (harmless : Harmless a.key born) :
    (∀ slot m₀, (viewOf born a.key).node slot = some m₀ → ∀ t, (viewOf s a.key).record = some t →
      Left a.key born (viewOf s a.key) t slot) ∧
    ∀ e ∈ past, ∀ ix slot, e.2 = .call ix → ((viewOf born a.key).node slot).isSome = true →
      ¬ Plays (.matchNode a.key slot) ix := by
  have leaf {slot : Slot} {m₀ : MatchNode} (h₀ : (viewOf born a.key).node slot = some m₀) : slot.round = 0 := by
    have hs := (node_slot (reachable_wellformed life.reachable) h₀).1
    rw [← hs]
    exact harmless.leaf slot m₀ h₀
  refine life.invariant (P := fun past s =>
    (∀ slot m₀, (viewOf born a.key).node slot = some m₀ → ∀ t, (viewOf s a.key).record = some t →
      Left a.key born (viewOf s a.key) t slot) ∧
    ∀ e ∈ past, ∀ ix slot, e.2 = .call ix → ((viewOf born a.key).node slot).isSome = true →
      ¬ Plays (.matchNode a.key slot) ix) ?_ ?_
  · refine ⟨fun slot m₀ h₀ t _ => ⟨fun _ => by rw [life.start_node, h₀]; rfl, fun m₁ m h₁ h => ?_⟩, by simp⟩
    rw [life.start_node] at h
    exact Option.some.inj (h₁.symm.trans h) ▸ .refl m₁
  · rintro past s b s' earlier ⟨left, unplayed⟩ step effect later
    obtain ⟨t, ht⟩ := earlier.record
    refine ⟨fun slot m₀ h₀ t' ht' => ?_, fun e he ix slot hix hsome plays => ?_⟩
    · exact left_step effect ht ht' h₀ (harmless.inactive slot m₀ h₀) (leaf h₀) (left slot m₀ h₀ t ht)
        fun m hm => (node_slot earlier.wf hm).1
    · rcases List.mem_append.1 he with he | he
      · exact unplayed e he ix slot hix hsome plays
      · obtain rfl := List.mem_singleton.1 he
        obtain rfl : b = .call ix := hix
        obtain ⟨m₀, h₀⟩ := Option.isSome_iff_exists.1 hsome
        obtain ⟨m, hm, active | above⟩ := plays_on earlier.wf step plays
        · have same := (left slot m₀ h₀ t ht).same m₀ m h₀ hm
          exact harmless.inactive slot m₀ h₀ (same.status.symm.trans active)
        · have hs : m.round = slot.round := congrArg Slot.round (node_slot earlier.wf hm).1
          rw [leaf h₀] at hs
          omega

/-- Harmless leftovers of earlier tournaments at the address stay harmless:
refunds are paid to wallets that joined this tournament, within what they
paid, and no leftover match is played on. -/
theorem orphans_harmless (life : Life rt a born start past s) (harmless : Harmless a.key born) :
    (∀ t, s.tournament? a.key = some t → t.status ≠ .completed → ∃ refunded sent,
      Accounted a.key born past s t refunded sent ∧
        total (refunds t t.organizerDepositRefunded refunded) ≤
          t.entryFee * (joins a.key past).length + t.organizerDeposit) ∧
    (∀ e ∈ past, ∀ ix slot, e.2 = .call ix → (born.matchNode? (.matchNode a.key slot)).isSome = true →
      ¬ Plays (.matchNode a.key slot) ix) ∧
    ∀ slot m₀ m, born.matchNode? (.matchNode a.key slot) = some m₀ →
      s.matchNode? (.matchNode a.key slot) = some m → SameResult m₀ m := by
  obtain ⟨left, unplayed⟩ := leftovers_left life harmless
  refine ⟨fun t ht unsettled => ?_, unplayed, fun slot m₀ m h₀ h => ?_⟩
  · obtain ⟨refunded, sent, t', kept⟩ := life_books life harmless.participant
    obtain rfl : t = t' := Option.some.inj (ht.symm.trans kept.record)
    refine ⟨refunded, sent, accounted kept unsettled, ?_⟩
    have fits := Nat.mul_le_mul_left t.entryFee
      (List.Subperm.length_le (kept.books.refunded_nodup.subperm kept.books.refunded_joined))
    rw [total_refunds]
    split <;> omega
  · obtain ⟨t, ht⟩ := life.record
    exact (left slot m₀ h₀ t ht).same m₀ m h₀ h

theorem sampleBorn_harmless : Harmless sampleTournament.key sampleBorn :=
  ⟨fun w x hx => by simp [sampleBorn_fresh.participant w] at hx,
    fun slot m hm => by simp [sampleBorn_fresh.node slot] at hm,
    fun slot m hm => by simp [sampleBorn_fresh.node slot] at hm⟩

theorem halfRefunded_harmless : ∃ past s t refunded sent,
    Accounted sampleTournament.key sampleBorn past s t refunded sent ∧
      total (refunds t t.organizerDepositRefunded refunded) ≤ 107 := by
  obtain ⟨h, _⟩ := orphans_harmless halfRefunded_life sampleBorn_harmless
  obtain ⟨refunded, sent, accounted, bound⟩ := h _ rfl (by decide)
  exact ⟨_, _, _, refunded, sent, accounted, bound⟩

/-- A free tournament under the sample's name, cancelled and closed with its
player's account still open. -/
def orphaned : Ledger := after sampleRuntime sampleBorn
  [.call (.createTournament { sampleTournament with entryFee := 0, organizerDeposit := 0 }),
    joinAs 2 sampleTournament.key,
    .call (.cancelTournament ⟨.key 1, sampleTournament.key, none, []⟩),
    .call (.closeTournament ⟨.key 5, sampleTournament.key, .key 1, true, []⟩)]

/-- The next tournament under that name pays the old player with the entry
fee of a new one. -/
def orphanPaid : List Action :=
  [joinAs 3 sampleTournament.key,
    .call (.cancelTournament ⟨.key 1, sampleTournament.key, none,
      [.participant sampleTournament.key (.key 2), .key 11]⟩)]

theorem orphaned_reachable : Reachable sampleRuntime orphaned :=
  reachable_run sampleBorn_reachable (script_run _ _)

theorem orphanPaid_life : Life sampleRuntime sampleTournament orphaned
    (created sampleRuntime sampleTournament orphaned)
    (log sampleRuntime (created sampleRuntime sampleTournament orphaned) orphanPaid)
    (after sampleRuntime (created sampleRuntime sampleTournament orphaned) orphanPaid) :=
  script_life orphaned_reachable rfl (by decide) (by decide)

/-- A wallet that never joined it is refunded out of the new vault. -/
theorem orphanPaid_not_accounted : ∃ start past s t,
    Life sampleRuntime sampleTournament orphaned start past s ∧ s.tournament? sampleTournament.key = some t ∧
    t.status ≠ .completed ∧ .key 2 ∉ joins sampleTournament.key past ∧
    (.key 2, 50) ∉ paymentsOf sampleTournament.key orphaned.transfers ∧
    (.key 2, 50) ∈ paymentsOf sampleTournament.key s.transfers ∧
    ¬ ∃ refunded sent, Accounted sampleTournament.key orphaned past s t refunded sent := by
  refine ⟨_, _, _, _, orphanPaid_life, rfl, by decide, by decide, by decide, by decide, ?_⟩
  rintro ⟨refunded, sent, accounted⟩
  have paid : ((.key 2, 50) : Pubkey × Nat) ∈ paymentsOf sampleTournament.key orphaned.transfers ++ [] ++
      refunded.map fun w => (w, 50) := accounted.payments.mem_iff.1 (by decide)
  rw [List.append_nil, List.mem_append, List.mem_map] at paid
  obtain paid | ⟨w, hw, he⟩ := paid
  · exact absurd paid (by decide)
  · obtain rfl : w = .key 2 := congrArg Prod.fst he
    exact absurd (accounted.joined hw) (by decide)

end BracketChain.Orphans
