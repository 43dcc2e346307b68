import BracketChain.Drain
import BracketChain.Frames
import BracketChain.InPlay

namespace BracketChain.Backstop

open Outcome Keys Records Accounts Registration Payout Start Settlement Refunds Program Runs Layout View Lifecycle
  FinalizeEffects Refinement Frames Lives Matches Seats Elimination Building FixedDraw Drain InPlay Scripts

/-- A token account of a wallet, which is not frozen. -/
def Holds (s : Ledger) (mint wallet p : Pubkey) : Prop :=
  ∃ v, s.token? p = some v ∧ v.mint = mint ∧ v.owner = wallet ∧ v.frozen = false

/-- The token program keeps the supply of a mint in a `u64`, so that two
accounts hold no more between them. -/
def SupplyFits (s : Ledger) (mint : Pubkey) : Prop :=
  ∀ p q v u, p ≠ q → s.token? p = some v → s.token? q = some u → v.mint = mint → u.mint = mint →
    v.amount + u.amount ≤ u64Max

variable {rt : Runtime} {s s' : Ledger} {key mint wallet p q : Pubkey} {amount : Nat} {u v : TokenAccount}

section Payments

/-- The token accounts after `amount` has gone from the vault to `p`. -/
def Credits (key p : Pubkey) (amount : Nat) (s s' : Ledger) : Prop :=
  ∀ q, s'.token? q = if q = p then (s.token? p).map fun v => TokenAccount.plus v amount
    else if q = .vault key then (s.token? q).map fun u => TokenAccount.minus u amount else s.token? q

theorem credits_zero (key p : Pubkey) (s : Ledger) : Credits key p 0 s s := by
  intro q
  have plus : (fun v => TokenAccount.plus v 0) = id := rfl
  have minus : (fun v => TokenAccount.minus v 0) = id := rfl
  rw [plus, minus, Option.map_id_apply, Option.map_id_apply]
  split
  · subst q
    rfl
  · split <;> rfl

theorem transfer_succeeds (hu : s.token? (.vault key) = some u) (owner : u.owner = key ∧ u.frozen = false)
    (hv : s.token? p = some v) (same : v.mint = u.mint) (thawed : v.frozen = false) (enough : amount ≤ u.amount)
    (room : p ≠ .vault key → v.amount + amount ≤ u64Max) :
    ∃ s', s.tokenTransfer (.vault key) p key amount = .ok s' ∧ (p ≠ .vault key → Credits key p amount s s') := by
  by_cases apart : p = .vault key
  · subst apart
    refine ⟨_, Ledger.tokenTransfer_ok.2 ⟨u, v, hu, hv, ⟨owner.2, thawed⟩, enough, same.symm, owner.1,
      .inl ⟨rfl, rfl⟩⟩, ?_⟩
    exact fun away => absurd rfl away
  · refine ⟨_, Ledger.tokenTransfer_ok.2 ⟨u, v, hu, hv, ⟨owner.2, thawed⟩, enough, same.symm, owner.1,
      .inr ⟨Ne.symm apart, room apart, rfl⟩⟩, fun _ q => ?_⟩
    rw [set_token, set_token, hv]
    split
    · rfl
    · split
      · subst q
        rw [hu]
        rfl
      · rfl

theorem payPlacement_succeeds (hu : s.token? (.vault key) = some u) (mint_eq : u.mint = mint)
    (owner : u.owner = key ∧ u.frozen = false) (hv : s.token? p = some v)
    (holds : v.mint = mint ∧ v.owner = wallet ∧ v.frozen = false) (apart : p ≠ .vault key) (enough : amount ≤ u.amount)
    (room : v.amount + amount ≤ u64Max) :
    ∃ s', payPlacements key mint s [(amount, wallet, p)] = .ok s' ∧ Credits key p amount s s' := by
  obtain ⟨hm, ho, thawed⟩ := holds
  by_cases zero : amount = 0
  · subst zero
    exact ⟨s, by simp [payPlacements, each, bind, Except.bind], credits_zero key p s⟩
  · obtain ⟨s', hs', credits⟩ := transfer_succeeds hu owner hv (hm.trans mint_eq.symm) thawed enough fun _ => room
    refine ⟨s', (each_cons_ok _ _ _ _ _).2 ⟨s', ?_, rfl⟩, credits apart⟩
    simp only [if_neg zero, bind_ok]
    exact ⟨(), Ledger.validateTokenAccount_ok.2 ⟨v, hv, hm, ho⟩, hs'⟩

theorem payFee_succeeds (hu : s.token? (.vault key) = some u) (mint_eq : u.mint = mint)
    (owner : u.owner = key ∧ u.frozen = false) (hv : s.token? p = some v)
    (holds : v.mint = mint ∧ v.owner = wallet ∧ v.frozen = false) (enough : amount ≤ u.amount)
    (room : p ≠ .vault key → v.amount + amount ≤ u64Max) :
    ∃ s', payFee s key mint wallet amount (some p) = .ok s' := by
  obtain ⟨hm, ho, thawed⟩ := holds
  by_cases zero : amount = 0
  · exact ⟨s, by rw [payFee, if_pos zero]⟩
  · obtain ⟨s', hs', _⟩ := transfer_succeeds hu owner hv (hm.trans mint_eq.symm) thawed enough room
    refine ⟨s', ?_⟩
    simp only [payFee, if_neg zero, bind_ok, orThrow_ok, Ledger.validateTokenAccount_ok]
    exact ⟨p, rfl, (), ⟨v, hv, hm, ho⟩, hs'⟩

theorem protocolFee_le (pool : Nat) : protocolFee pool ≤ pool := by
  unfold protocolFee
  refine (Nat.mod_le _ _).trans (Nat.div_le_of_le_mul ?_)
  rw [Nat.mul_comm]
  exact Nat.mul_le_mul_right pool (by decide)

/-- With one funded place the champion takes all that the fee leaves. -/
theorem splitPlacements_one (net b : Nat) (table : List Nat) : splitPlacements net (b :: table) 1 = .ok [net] := by
  simp [splitPlacements, each, bind, Except.bind, require, pure, Except.pure]

/-- The only prize and the fee can be paid whenever their accounts are right. -/
theorem distribute_succeeds {t : Tournament} {m : MatchNode} {winner treasury pw pt : Pubkey}
    (one : placementCount t.payoutPreset = 1) (hu : s.token? (.vault key) = some u) (mint_eq : u.mint = t.tokenMint)
    (owner : u.owner = key ∧ u.frozen = false) (prize : Holds s t.tokenMint winner pw)
    (fee : Holds s t.tokenMint treasury pt) (away : pw ≠ .vault key) (supply : SupplyFits s t.tokenMint) :
    ∃ s', distributePrizes s key t m treasury u [pw, pt] winner [winner] = .ok s' := by
  obtain ⟨v, hv, hm, ho, thawed⟩ := prize
  obtain ⟨w, hw, hm', ho'⟩ := fee
  have within := protocolFee_le u.amount
  have fits (p : Pubkey) (x : TokenAccount) (hx : s.token? p = some x) (hm : x.mint = t.tokenMint)
      (apart : p ≠ .vault key) : x.amount + u.amount ≤ u64Max := supply p _ x u apart hx hu hm mint_eq
  have room := fits pw v hv hm away
  obtain ⟨s₁, h₁, credits⟩ := payPlacement_succeeds hu mint_eq owner hv
    ⟨hm, ho, thawed⟩ away (Nat.sub_le _ _) (by omega)
  have vault₁ : s₁.token? (.vault key) = some (TokenAccount.minus u (u.amount - protocolFee u.amount)) := by
    rw [credits, if_neg (Ne.symm away), if_pos rfl, hu]
    rfl
  -- the account of the treasury may be the champion's, or the vault
  obtain ⟨w₁, hw₁, mint₁, owner₁, room₁⟩ : ∃ w₁, s₁.token? pt = some w₁ ∧ w₁.mint = t.tokenMint ∧
      (w₁.owner = treasury ∧ w₁.frozen = false) ∧ (pt ≠ .vault key → w₁.amount + protocolFee u.amount ≤ u64Max) := by
    rw [credits]
    split
    · subst pt
      obtain rfl := Option.some.inj (hv.symm.trans hw)
      refine ⟨TokenAccount.plus v (u.amount - protocolFee u.amount), congrArg (Option.map _) hv, hm', ho', fun _ => ?_⟩
      simp only [TokenAccount.plus]
      omega
    · split
      · subst pt
        exact ⟨TokenAccount.minus w (u.amount - protocolFee u.amount), congrArg (Option.map _) hw, hm', ho',
          fun apart => absurd rfl apart⟩
      · refine ⟨w, hw, hm', ho', fun apart => ?_⟩
        have := fits pt w hw hm' apart
        omega
  obtain ⟨s₂, h₂⟩ := payFee_succeeds vault₁ mint_eq owner hw₁ ⟨mint₁, owner₁⟩
    (by simp only [TokenAccount.minus]; omega) room₁
  obtain ⟨b, table, htable⟩ : ∃ b table, (basisPoints t.payoutPreset).toList = b :: table :=
    List.exists_cons_of_length_pos (by simp)
  refine ⟨s₂, ?_⟩
  simp only [distributePrizes, one, htable, splitPlacements_one, bind_ok, require_ok]
  exact ⟨(), rfl, (), rfl, (), by simp [checkPlacements, bind, Except.bind, require], (), within, _, rfl, s₁, h₁, h₂⟩

end Payments

section Calls

/-- The call that finalizes a match against silence: of the counterparty, or
of the organizer once there is a dispute. -/
def backstop (m : MatchNode) (a : FinalizeAccounts) (placements : List Pubkey) : Instruction :=
  if m.disputed = true then .forceClaimDisputed a placements else .claimResult a placements

variable {t : Tournament} {m n : MatchNode} {a : FinalizeAccounts} {l : Loaded} {placements : List Pubkey}
  {treasury winner pw pt : Pubkey}

theorem backstop_finalize (m : MatchNode) (a : FinalizeAccounts) (placements : List Pubkey) :
    Instruction.finalize? (backstop m a placements) = some a := by
  unfold backstop
  split <;> rfl

/-- The backstop runs as soon as its match can be finalized. -/
theorem backstop_runs (signer : a.signer.canSign = true) (loads : loadFinalize s a = .ok l)
    (proposed : l.m.proposalSource ≠ .none) (due : l.m.claimDeadline ≤ s.clock.unixTimestamp)
    (h : finalizeCredited a l ⟨l.m.proposedWinner, placements, false⟩ s = .ok s') :
    Step rt s (.call (backstop l.m a placements)) s' := by
  cases hd : l.m.disputed with
  | true =>
      have call : backstop l.m a placements = .forceClaimDisputed a placements := if_pos hd
      rw [call]
      refine unpaid_step rfl signer ?_
      simp only [Instruction.run, forceClaimDisputed, bind_ok, require_ok]
      exact ⟨l, loads, (), proposed, (), hd, (), due, h⟩
  | false =>
      have call : backstop l.m a placements = .claimResult a placements := if_neg (by simp [hd])
      rw [call]
      refine unpaid_step rfl signer ?_
      simp only [Instruction.run, claimResult, bind_ok, require_ok]
      exact ⟨l, loads, (), proposed, (), hd, (), due, h⟩

/-- A call on a final with several funded places never gets through. -/
theorem backstop_refused (final : isFinal t m) (many : 1 < placementCount t.payoutPreset)
    (ht : s.tournament? a.tournament = some t) (hm : s.matchNode? a.matchAccount = some m) :
    ¬ Step rt s (.call (backstop m a placements)) s' := by
  have refused {l : Loaded} (hl : loadFinalize s a = .ok l) :
      finalizeCredited a l ⟨l.m.proposedWinner, placements, false⟩ s ≠ .ok s' := by
    intro h
    have loads := loadFinalize_ok hl
    obtain rfl : t = l.t := Option.some.inj (ht.symm.trans loads.record)
    obtain rfl : m = l.m := Option.some.inj (hm.symm.trans loads.matchAccount)
    simp only [finalizeCredited, finalizeMatch, bind_ok, require_ok, if_pos final] at h
    obtain ⟨_, _, _, _, _, ⟨_, _, _, _, _, _, _, _, _, trusted, _⟩, _⟩ := h
    rcases trusted with trusted | few
    · cases trusted
    · exact absurd few (Nat.not_le.2 many)
  intro step
  cases hd : m.disputed with
  | true =>
      rw [show backstop m a placements = .forceClaimDisputed a placements from if_pos hd] at step
      obtain ⟨_, _, ran⟩ := call_ran step
      simp only [Instruction.run, forceClaimDisputed, bind_ok] at ran
      obtain ⟨l, hl, _, _, _, _, _, _, h⟩ := ran
      exact refused hl h
  | false =>
      rw [show backstop m a placements = .claimResult a placements from if_neg (by simp [hd])] at step
      obtain ⟨_, _, ran⟩ := call_ran step
      simp only [Instruction.run, claimResult, bind_ok] at ran
      obtain ⟨l, hl, _, _, _, _, _, _, h⟩ := ran
      exact refused hl h

variable (running : t.status = .active) (playing : m.status = .active) (player : m.hasPlayer winner)
  (bound : t.matchesReported + 1 ≤ u16Max)
include running playing player bound

theorem finalize_final (final : isFinal t m) (one : placementCount t.payoutPreset = 1)
    (paid : distributePrizes s key t m treasury u [pw, pt] winner [winner] = .ok s') :
    ∃ f, finalizeMatch s key t m none u treasury [pw, pt] ⟨winner, [winner], false⟩ = .ok f := by
  simp only [finalizeMatch, bind_ok, require_ok, orThrow_ok, checkedAdd_eq_some, if_pos final, pure_ok]
  exact ⟨_, (), running, (), playing, (), player, _, ⟨bound, rfl⟩, (), .inr (Nat.le_of_eq one), (), rfl, s', paid, rfl⟩

theorem finalize_inner (inner : ¬ isFinal t m) (home : n.tournament = key) (round : n.round = m.round + 1)
    (index : n.matchIndex = m.matchIndex / 2) (remaining : List Pubkey) :
    ∃ f, finalizeMatch s key t m (some n) u treasury remaining ⟨winner, [], false⟩ = .ok f := by
  simp only [finalizeMatch, advanceWinner, bind_ok, require_ok, orThrow_ok, checkedAdd_eq_some, if_neg inner, pure_ok]
  exact ⟨_, (), running, (), playing, (), player, _, ⟨bound, rfl⟩, (), trivial, _,
    ⟨n, rfl, (), home, (), round, (), index, rfl⟩, rfl⟩

end Calls

section Lasting

variable {a : CreateTournament} {born start : Ledger} {past : History} {t : Tournament}

/-- A tournament was created under a configuration, which is still there. -/
theorem life_config (life : Life rt a born start past s) : ∃ cfg, s.config? = some cfg := by
  have before : ∃ cfg, born.config? = some cfg := by
    obtain ⟨_, _, created⟩ := call_ran life.created
    simp only [Instruction.run, createTournament, bind_ok, Ledger.loadConfig, orThrow_ok] at created
    obtain ⟨cfg, hcfg, _⟩ := created
    exact ⟨cfg, hcfg⟩
  obtain ⟨cfg, hcfg⟩ := before
  have wf := reachable_wellformed life.reachable
  have wf' := (step_confined wf life.created).wf
  refine life.run.invariant (P := fun _ s => ∃ cfg, s.config? = some cfg) (step_config wf hcfg life.created) ?_
  rintro past s b s' earlier ⟨cfg, hcfg⟩ step
  exact step_config (run_wellformed wf' earlier) hcfg step

theorem effect_vault {clock : Clock} {b : Action} {v v' : TournamentView} {t' : Tournament}
    (effect : Effect rt key clock b v v') (ht : v.record = some t) (ht' : v'.record = some t')
    (live : ¬ terminal t'.status) (hu : v.vault = some u) : ∃ u', v'.vault = some u' ∧ u'.mint = u.mint := by
  cases effect with
  | others k => exact ⟨TokenAccount.plus u k, congrArg (Option.map _) hu, rfl⟩
  | create _ _ _ unopened => simp [ht] at unopened
  | join _ _ _ _ _ vault =>
      obtain rfl := Option.some.inj (hu.symm.trans vault)
      exact ⟨_, rfl, rfl⟩
  | requestSeed | revealSeed | start | edit | advance | partialCancel | closeChildren => exact ⟨u, hu, rfl⟩
  | conclude =>
      obtain rfl := Option.some.inj ht'
      exact absurd (by simp [terminal, Tournament.concluded]) live
  | refund _ _ _ _ _ _ refunding =>
      obtain rfl := Option.some.inj ht'
      obtain ⟨status, rfl, _, ended⟩ := refunding_status refunding
      split at live <;> exact absurd ended live
  | closeRoot => cases ht'

/-- Until a tournament ends its vault holds tokens of its mint. -/
theorem life_vault (life : Life rt a born start past s) (ht : s.tournament? a.key = some t)
    (live : ¬ terminal t.status) : ∃ u, s.token? (.vault a.key) = some u ∧ u.mint = t.tokenMint ∧
      u.owner = a.key ∧ u.frozen = false := by
  have mints : ∃ u, (viewOf s a.key).vault = some u ∧ u.mint = a.tokenMint := by
    refine life.invariant (P := fun _ s => ∀ t, s.tournament? a.key = some t → ¬ terminal t.status →
      ∃ u, (viewOf s a.key).vault = some u ∧ u.mint = a.tokenMint) ?_ ?_ t ht live
    · intro _ _ _
      rw [life.start_view.2.2]
      exact ⟨_, rfl, rfl⟩
    · intro past s b s' earlier ih step effect later t' ht' live
      obtain ⟨t, ht⟩ := earlier.record
      have before : ¬ terminal t.status := fun ended =>
        live ((effect_status effect ht ht').terminal ended ▸ ended)
      obtain ⟨u, hu, hm⟩ := ih t ht before
      obtain ⟨u', hu', hm'⟩ := effect_vault effect ht ht' live hu
      exact ⟨u', hu', hm'.trans hm⟩
  obtain ⟨u, hu, hm⟩ := mints
  have same : t.tokenMint = a.tokenMint := (life.course.terms life.start_record ht).tokenMint
  exact ⟨u, hu, hm.trans same.symm, vault_owner life.wf hu, vault_thawed life.wf hu⟩

/-- Every preset that a tournament is created with funds the champion. -/
theorem placementCount_pos {preset : PayoutPreset} (h : validateCustom preset = .ok ()) : 0 < placementCount preset := by
  cases preset with
  | winnerTakesAll | standard | deep => decide
  | custom slots =>
      simp only [validateCustom, bind_ok, require_ok] at h
      obtain ⟨_, first, _⟩ := h
      refine List.length_pos_of_mem (a := slots[0]) (List.mem_filter.2 ⟨?_, by simpa using first⟩)
      simp [basisPoints]

theorem life_places (life : Life rt a born start past s) (ht : s.tournament? a.key = some t) :
    0 < placementCount t.payoutPreset := by
  have checked := life.start_view.2.1
  simp only [CreateTournament.check, bind_ok] at checked
  obtain ⟨_, _, _, _, _, _, _, _, _, custom, _⟩ := checked
  rw [(life.course.terms life.start_record ht).payoutPreset]
  exact placementCount_pos custom

end Lasting

/-- The matches of the tournament are those of the descriptors that it has
accepted, all at canonical addresses. -/
structure BuiltCanonically (rt : Runtime) (key : Pubkey) (past : History) (s : Ledger) : Prop where
  canonical : ∀ d ∈ accepted key past, Canonical rt key d
  own : ∀ slot, (s.matchNode? (.matchNode key slot)).isSome = true → ∃ d ∈ accepted key past, d.slot = slot

def parentSlot (rt : Runtime) (key : Pubkey) (m : MatchNode) : Slot :=
  canonicalSlot rt key (m.round + 1) (m.matchIndex / 2)

/-- The accounts that go with the backstop: the parent of the match, or in the
final the accounts to pay. -/
def backstopAccounts (rt : Runtime) (key : Pubkey) (t : Tournament) (m : MatchNode) (signer : Pubkey)
    (payees : List Pubkey) : FinalizeAccounts :=
  ⟨signer, key, .matchNode key m.slot, if isFinal t m then none else some (.matchNode key (parentSlot rt key m)), payees⟩

def backstopPlacements (t : Tournament) (m : MatchNode) : List Pubkey :=
  if isFinal t m then [m.proposedWinner] else []

/-- The match is over for its proposed winner, who is the champion now or has
a seat in the next round. -/
structure SettledFor (rt : Runtime) (key : Pubkey) (t : Tournament) (m : MatchNode) (s' : Ledger) : Prop where
  node : s'.matchNode? (.matchNode key m.slot) = some (MatchNode.complete m m.proposedWinner)
  champion : isFinal t m → ∃ t', s'.tournament? key = some t' ∧ t'.status = .completed ∧ t'.champion = m.proposedWinner
  parent : ¬ isFinal t m → ∃ n, s'.matchNode? (.matchNode key (parentSlot rt key m)) = some n ∧
    seatOf n m.matchIndex = m.proposedWinner

section Theorem

variable {t : Tournament} {m n : MatchNode} {signer : Pubkey} {payees : List Pubkey}

theorem seatOf_advance (n : MatchNode) (i : Nat) (w : Pubkey) : seatOf (MatchNode.advance n i w) i = w := by
  rw [advance_eq, seatOf]
  by_cases h : i % 2 = 0 <;> simp [h]

theorem backstop_decides {a : FinalizeAccounts} {placements : List Pubkey} {winner : Pubkey}
    (h : Decides t m s.clock winner (backstop m a placements)) : winner = m.proposedWinner := by
  unfold backstop at h
  split at h <;> exact h.1.2.2

theorem backstop_settles (wf : Wellformed s) (ht : s.tournament? key = some t)
    (hm : s.matchNode? (.matchNode key m.slot) = some m)
    (step : Step rt s (.call (backstop m (backstopAccounts rt key t m signer payees) (backstopPlacements t m))) s') :
    SettledFor rt key t m s' := by
  have effect := step_effect wf (isTournament_of_record wf ht) step
  have call := backstop_finalize m (backstopAccounts rt key t m signer payees) (backstopPlacements t m)
  generalize hix : backstop m (backstopAccounts rt key t m signer payees) (backstopPlacements t m) = ix at effect call
  generalize hv : viewOf s key = v at effect
  generalize hv' : viewOf s' key = v' at effect
  have record : v.record = some t := hv ▸ ht
  have node : v.node m.slot = some m := hv ▸ hm
  have node' (slot : Slot) : s'.matchNode? (.matchNode key slot) = v'.node slot := by rw [← hv']; rfl
  have record' : s'.tournament? key = v'.record := by rw [← hv']; rfl
  cases effect with
  | others _ other => exact absurd (finalize_tournament call) other
  | edit _ _ _ call' => exact absurd call (by simp [finalize?_of_edit call'])
  | refund _ _ _ _ _ _ refunding => exact absurd call (by simp [(refunding_calls refunding).2])
  | @advance _ _ c slot next t₁ m₁ n winner p' finalizes inner address parent round index =>
      obtain rfl := Option.some.inj (call.symm.trans finalizes.call)
      obtain rfl : m.slot = slot := by simpa [backstopAccounts] using finalizes.address
      obtain rfl := Option.some.inj (node.symm.trans finalizes.node)
      obtain rfl := Option.some.inj (record.symm.trans finalizes.record)
      obtain rfl := backstop_decides (hix ▸ finalizes.decided)
      obtain rfl : parentSlot rt key m = next := by simpa [backstopAccounts, inner] using address
      have apart : m.slot ≠ parentSlot rt key m := by
        intro same
        have := congrArg Slot.round same
        simp [parentSlot, canonicalSlot, MatchNode.slot] at this
      refine ⟨?_, fun final => absurd final inner, fun _ => ⟨_, ?_, seatOf_advance n m.matchIndex m.proposedWinner⟩⟩
      · exact (node' _).trans ((Function.update_of_ne apart _ _).trans (Function.update_self ..))
      · exact (node' _).trans (Function.update_self ..)
  | @conclude _ _ c slot t₁ m₁ winner p' u paid finalizes final =>
      obtain rfl := Option.some.inj (call.symm.trans finalizes.call)
      obtain rfl : m.slot = slot := by simpa [backstopAccounts] using finalizes.address
      obtain rfl := Option.some.inj (node.symm.trans finalizes.node)
      obtain rfl := Option.some.inj (record.symm.trans finalizes.record)
      obtain rfl := backstop_decides (hix ▸ finalizes.decided)
      exact ⟨(node' _).trans (Function.update_self ..), fun _ => ⟨_, record', rfl, rfl⟩,
        fun inner => absurd final inner⟩
  | _ => cases call

variable {a : CreateTournament} {born start : Ledger} {past : History} {slot : Slot}

theorem BuiltCanonically.empty (built : BuiltCanonically rt a.key past s) (life : Life rt a born start past s)
    (unclosed : Unclosed a.key past) (slot : Slot) : (viewOf start a.key).node slot = none := by
  obtain ⟨_, _, h⟩ := course_built life.course life.start_record rfl unclosed
  by_contra taken
  obtain ⟨d, hd, rfl⟩ := built.own slot ((h.taken slot).2 (.inl (Option.ne_none_iff_isSome.1 taken)))
  exact taken (h.fresh d hd)

/-- At an address without leftover matches, canonical descriptors are enough. -/
theorem builtCanonically_of_empty (life : Life rt a born start past s) (unclosed : Unclosed a.key past)
    (empty : ∀ slot, born.matchNode? (.matchNode a.key slot) = none)
    (canonical : ∀ d ∈ accepted a.key past, Canonical rt a.key d) : BuiltCanonically rt a.key past s := by
  refine ⟨canonical, fun slot taken => ?_⟩
  obtain ⟨_, _, h⟩ := course_built life.course life.start_record rfl unclosed
  rcases (h.taken slot).1 taken with before | placed
  · rw [life.start_node] at before
    rw [show (viewOf born a.key).node slot = none from empty slot] at before
    cases before
  · exact placed

/-- What the backstop loads when it is called on a match in play. -/
theorem backstop_loads {c : FinalizeAccounts} {next : Option MatchNode} {cfg : ProtocolConfig} (wf : Wellformed s)
    (ht : s.tournament? key = some t) (hm : s.matchNode? (.matchNode key m.slot) = some m) (home : m.tournament = key)
    (hcfg : s.config? = some cfg) (hu : s.token? (.vault key) = some u) (key_eq : c.tournament = key)
    (address : c.matchAccount = .matchNode key m.slot) (hnext : loadNext s c.nextMatch = .ok next) :
    loadFinalize s c = .ok ⟨t, m, next, cfg.treasury, u⟩ := by
  obtain ⟨seeds, vault, _⟩ := record_fits wf ht
  simp only [loadFinalize, bind_ok, pure_ok, Ledger.loadTournament_ok, Ledger.loadMatch_ok, Ledger.loadVault_ok,
    Ledger.loadConfig, orThrow_ok, key_eq, address]
  exact ⟨t, ⟨ht, seeds⟩, m, ⟨hm, rfl, home⟩, next, hnext, cfg, hcfg, u, ⟨hu, vault⟩, rfl⟩

/-- A backstop whose finalization goes through is a step that settles the match. -/
theorem backstop_steps {cfg : ProtocolConfig} {next : Option MatchNode} {f : Finalized} (wf : Wellformed s)
    (ht : s.tournament? key = some t) (hm : s.matchNode? (.matchNode key m.slot) = some m) (home : m.tournament = key)
    (hcfg : s.config? = some cfg) (hu : s.token? (.vault key) = some u) (proposed : m.proposalSource ≠ .none)
    (due : m.claimDeadline ≤ s.clock.unixTimestamp) (signs : signer.canSign = true)
    (players : ∀ x, m.hasPlayer x → (s.participant? (.participant key x)).isSome = true)
    (hnext : loadNext s (backstopAccounts rt key t m signer payees).nextMatch = .ok next)
    (hf : finalizeMatch s key t m next u cfg.treasury payees ⟨m.proposedWinner, backstopPlacements t m, false⟩ = .ok f) :
    ∃ s', Step rt s (.call (backstop m (backstopAccounts rt key t m signer payees) (backstopPlacements t m))) s' ∧
      SettledFor rt key t m s' := by
  have loads := backstop_loads wf ht hm home hcfg hu rfl rfl hnext
  obtain ⟨pa, ha⟩ := Option.isSome_iff_exists.1 (players _ (.inl rfl))
  obtain ⟨pb, hb⟩ := Option.isSome_iff_exists.1 (players _ (.inr rfl))
  have credited : ∃ s', finalizeCredited (backstopAccounts rt key t m signer payees)
      ⟨t, m, next, cfg.treasury, u⟩ ⟨m.proposedWinner, backstopPlacements t m, false⟩ s = .ok s' := by
    simp only [finalizeCredited, bind_ok, pure_ok, Ledger.loadParticipant_ok]
    exact ⟨_, pa, ha, pb, hb, f, hf, rfl⟩
  obtain ⟨s', hs'⟩ := credited
  have step : Step rt s _ s' := backstop_runs signs loads proposed due hs'
  exact ⟨s', step, backstop_settles wf ht hm step⟩

/-- A player signs for itself, so that its token account is no vault. -/
theorem payee_away {x : Participant} (wf : Wellformed s) (hx : s.participant? (.participant key wallet) = some x)
    (holds : Holds s mint wallet p) : p ≠ .vault key := by
  obtain ⟨v, hv, _, owner, _⟩ := holds
  obtain ⟨address, _, signs⟩ := participant_fits wf hx
  obtain ⟨_, same⟩ := Pubkey.participant.inj address
  obtain ⟨n, rfl⟩ := token_of_signer wf hv (by rw [owner, same, signs])
  simp

/-- In every run of a seeded tournament with canonical addresses, once the
deadline of a proposal has passed in an active match, anyone can finalize it
for the proposed winner, unless it is the final and several places are funded. -/
theorem backstop_enabled (life : Life rt a born start past s) (mode : a.settlementMode ≠ .organizerOnly)
    (built : BuiltCanonically rt a.key past s) (ht : s.tournament? a.key = some t) (active : t.status = .active)
    (hm : s.matchNode? (.matchNode a.key slot) = some m) (playing : m.status = .active)
    (proposed : m.proposalSource ≠ .none) (due : m.claimDeadline ≤ s.clock.unixTimestamp) :
    (isFinal t m ∧ 1 < placementCount t.payoutPreset → ∀ c placements s', c.tournament = a.key →
      c.matchAccount = .matchNode a.key slot → ¬ Step rt s (.call (backstop m c placements)) s') ∧
    (¬ (isFinal t m ∧ 1 < placementCount t.payoutPreset) → ∃ cfg, s.config? = some cfg ∧ ∀ signer payees,
      signer.canSign = true → (isFinal t m → SupplyFits s t.tokenMint ∧ ∃ pw pt, payees = [pw, pt] ∧
        Holds s t.tokenMint m.proposedWinner pw ∧ Holds s t.tokenMint cfg.treasury pt) →
      ∃ s', Step rt s (.call (backstop m (backstopAccounts rt a.key t m signer payees) (backstopPlacements t m))) s' ∧
        SettledFor rt a.key t m s') := by
  have live : ¬ terminal t.status := by simp [active, terminal]
  have unclosed := unclosed_of_live life.course ht live
  obtain ⟨waiting, sincere⟩ := life_waiting life mode (built.empty life unclosed) unclosed built.canonical ht
  obtain ⟨k, w⟩ := waiting active
  obtain ⟨at_, home⟩ := node_slot life.wf hm
  refine ⟨?_, fun settled => ?_⟩
  · rintro ⟨final, many⟩ c placements s' key_eq address
    exact backstop_refused final many (key_eq ▸ ht) (address ▸ hm)
  · obtain ⟨cfg, hcfg⟩ := life_config life
    refine ⟨cfg, hcfg, fun signer payees signs money => ?_⟩
    obtain ⟨u, hu, mint_eq, owner⟩ := life_vault life ht live
    have player := (sincere slot m hm proposed).1
    have bound := w.reported_small
    have players x (hx : m.hasPlayer x) : (s.participant? (.participant a.key x)).isSome = true :=
      (w.player hm playing hx).2
    have hm' : s.matchNode? (.matchNode a.key m.slot) = some m := at_ ▸ hm
    by_cases final : isFinal t m
    · obtain ⟨supply, pw, pt, rfl, prize, fee⟩ := money final
      have one : placementCount t.payoutPreset = 1 := by
        have := life_places life ht
        by_contra other
        exact settled ⟨final, by omega⟩
      obtain ⟨x, hx⟩ := Option.isSome_iff_exists.1 (w.player hm playing player).2
      obtain ⟨s₁, paid⟩ := distribute_succeeds (m := m) one hu mint_eq owner prize fee
        (payee_away life.wf hx prize) supply
      obtain ⟨f, finalized⟩ := finalize_final active playing player bound final one paid
      have placed : backstopPlacements t m = [m.proposedWinner] := if_pos final
      rw [← placed] at finalized
      refine backstop_steps life.wf ht hm' home hcfg hu proposed due signs players ?_ finalized
      rw [backstopAccounts, if_pos final]
      rfl
    · obtain ⟨n, hn⟩ := w.parent hm at_ final
      obtain ⟨place, home'⟩ := node_slot life.wf hn
      obtain ⟨f, finalized⟩ := finalize_inner active playing player bound final home' (congrArg Slot.round place)
        (congrArg Slot.matchIndex place) payees
      have placed : backstopPlacements t m = [] := if_neg final
      rw [← placed] at finalized
      refine backstop_steps life.wf ht hm' home hcfg hu proposed due signs players ?_ finalized
      rw [backstopAccounts, if_neg final]
      simp only [loadNext, bind_ok, orThrow_ok, pure_ok, Option.some.injEq, exists_eq_right]
      exact hn

end Theorem

section Overdue

/-- Four players, one of whom proposes itself and waits for its opponent until
the deadline has passed. -/
def overdue : List Action :=
  fourRevealed sampleTournament.key ++ [startWith sampleTournament.key [semi0, semi1, lastOf4],
    .call (.proposeResult ⟨.key 3, sampleTournament.key, .matchNode sampleTournament.key semi1.slot⟩ (.key 3)),
    .outside (.clock ⟨100, 9⟩)]

theorem overdue_life : SampleLife overdue := script_life sampleBorn_reachable rfl (by decide) (by decide)

theorem overdue_built : BuiltCanonically sampleRuntime sampleTournament.key
    (log sampleRuntime (created sampleRuntime sampleTournament sampleBorn) overdue)
    (after sampleRuntime (created sampleRuntime sampleTournament sampleBorn) overdue) := by
  refine builtCanonically_of_empty overdue_life ?_ sampleBorn_fresh.node (by decide)
  intro e he c hc
  have mem := mem_log he
  rw [hc] at mem
  simp [overdue, fourRevealed, joinAs, startWith] at mem

theorem overdue_match : ∃ t m,
    (after sampleRuntime (created sampleRuntime sampleTournament sampleBorn) overdue).tournament?
      sampleTournament.key = some t ∧
    (after sampleRuntime (created sampleRuntime sampleTournament sampleBorn) overdue).matchNode?
      (.matchNode sampleTournament.key semi1.slot) = some m ∧ t.status = .active ∧ m.status = .active ∧
    m.proposalSource = .player ∧ m.claimDeadline = 70 ∧ m.proposedWinner = .key 3 ∧ ¬ isFinal t m :=
  ⟨_, _, rfl, rfl, rfl, rfl, rfl, rfl, rfl, by decide⟩

theorem overdue_settled : ∃ s t m s', m.proposedWinner = .key 3 ∧
    Step sampleRuntime s (.call (backstop m (backstopAccounts sampleRuntime sampleTournament.key t m (.key 77) [])
      (backstopPlacements t m))) s' ∧ SettledFor sampleRuntime sampleTournament.key t m s' := by
  obtain ⟨t, m, ht, hm, active, playing, source, deadline, winner, inner⟩ := overdue_match
  have enabled := (backstop_enabled overdue_life (by decide) overdue_built ht active hm playing (by rw [source]; decide)
    (by rw [deadline]; decide)).2 fun final => inner final.1
  obtain ⟨cfg, _, enabled⟩ := enabled
  obtain ⟨s', step, settled⟩ := enabled (.key 77) [] rfl fun final => absurd final inner
  exact ⟨_, t, m, s', winner, step, settled⟩

end Overdue

end BracketChain.Backstop
