import BracketChain.Backstop
import BracketChain.Playable
import BracketChain.Payable

namespace BracketChain.Completion

open Outcome Keys Records Accounts Payout Registration Start Settlement Envelope Refunds Program Runs Layout View Lifecycle
  Bookkeeping Enrolment MatchEffects FinalizeEffects Refinement Frames Lives Matches Seats Elimination Building FixedDraw
  Standings InPlay BracketChain.Tree Backstop Primitives Conservation Playable Payable Scripts

variable {rt : Runtime} {s s' : Ledger} {key : Pubkey} {slot : Slot} {t t' : Tournament} {m n : MatchNode}

/-- Several places are paid out of this match. -/
def Podium (t : Tournament) (m : MatchNode) : Prop := isFinal t m ∧ 1 < placementCount t.payoutPreset

instance (t : Tournament) (m : MatchNode) : Decidable (Podium t m) := inferInstanceAs (Decidable (_ ∧ _))

/-- The call that finalizes a match for its proposed winner once the deadline
is past. Only a final with several places is for the organizer. -/
def settle (t : Tournament) (m : MatchNode) (a : FinalizeAccounts) (placements : List Pubkey) : Instruction :=
  if Podium t m then
    if m.disputed = true then .resolveDispute a m.proposedWinner placements else .settleFinal a placements
  else backstop m a placements

/-- Who signs that call. -/
def settler (t : Tournament) (m : MatchNode) (anyone : Pubkey) : Pubkey := if Podium t m then t.organizer else anyone

def verdict (t : Tournament) (m : MatchNode) (placements : List Pubkey) : Verdict :=
  ⟨m.proposedWinner, placements, decide (Podium t m)⟩

section Calls

variable {a : FinalizeAccounts} {l : Loaded} {placements : List Pubkey} {anyone winner : Pubkey}

theorem settle_finalize (t : Tournament) (m : MatchNode) (a : FinalizeAccounts) (placements : List Pubkey) :
    Instruction.finalize? (settle t m a placements) = some a := by
  unfold settle
  split
  · split <;> rfl
  · exact backstop_finalize m a placements

theorem settle_decides {clock : Clock} (h : Decides t m clock winner (settle t m a placements)) :
    winner = m.proposedWinner := by
  unfold settle backstop at h
  split at h
  · split at h
    · exact h.2.2
    · exact h.2.1.2.2
  · split at h <;> exact h.1.2.2

/-- The call runs as soon as its match can be finalized. -/
theorem settle_runs (signer : a.signer = settler l.t l.m anyone) (signs : anyone.canSign = true)
    (organizer : l.t.organizer.canSign = true) (arbitrator : l.t.arbitrator = l.t.organizer)
    (loads : loadFinalize s a = .ok l) (proposed : l.m.proposalSource ≠ .none)
    (due : l.m.claimDeadline ≤ s.clock.unixTimestamp)
    (h : finalizeCredited a l (verdict l.t l.m placements) s = .ok s') :
    Step rt s (.call (settle l.t l.m a placements)) s' := by
  by_cases podium : Podium l.t l.m
  · have signed : a.signer = l.t.organizer := by rw [signer, settler, if_pos podium]
    rw [settle, if_pos podium]
    rw [verdict, decide_eq_true podium] at h
    cases hd : l.m.disputed with
    | true =>
        rw [if_pos rfl]
        refine unpaid_step rfl (show a.signer.canSign = true by rwa [signed]) ?_
        simp only [Instruction.run, resolveDispute, bind_ok, require_ok]
        exact ⟨l, loads, (), signed, (), hd, h⟩
    | false =>
        rw [if_neg Bool.false_ne_true]
        refine unpaid_step rfl (show a.signer.canSign = true by rwa [signed]) ?_
        simp only [Instruction.run, settleFinal, bind_ok, require_ok]
        exact ⟨l, loads, (), signed.trans arbitrator.symm, (), proposed, (), hd, (), due, h⟩
  · have signed : a.signer.canSign = true := by rwa [signer, settler, if_neg podium]
    rw [settle, if_neg podium]
    rw [verdict, decide_eq_false podium] at h
    exact backstop_runs signed loads proposed due h

end Calls

/-- Nothing but the seats and the result of a match may differ, and a result
is not taken back. -/
structure Untouched (m m' : MatchNode) : Prop where
  source : m'.proposalSource = m.proposalSource
  winner : m'.proposedWinner = m.proposedWinner
  deadline : m'.claimDeadline = m.claimDeadline
  open_ : m.status ≠ .completed → m'.status ≠ .completed

theorem Untouched.refl (m : MatchNode) : Untouched m m := ⟨rfl, rfl, rfl, id⟩

theorem Untouched.trans {m' m'' : MatchNode} (h : Untouched m m') (h' : Untouched m' m'') : Untouched m m'' :=
  ⟨h'.source.trans h.source, h'.winner.trans h.winner, h'.deadline.trans h.deadline, fun open_ => h'.open_ (h.open_ open_)⟩

theorem untouched_advance (m : MatchNode) (i : Nat) (w : Pubkey) : Untouched m (MatchNode.advance m i w) := by
  refine ⟨?_, ?_, ?_, advance_incomplete i w⟩ <;> rw [advance_eq]

/-- All matches but one are as they were, apart from seats. -/
def Spares (key : Pubkey) (slot : Slot) (s s' : Ledger) : Prop :=
  ∀ q, q ≠ slot → Option.Rel Untouched (s.matchNode? (.matchNode key q)) (s'.matchNode? (.matchNode key q))

/-- The call has finalized its match. -/
structure Played (key : Pubkey) (slot : Slot) (t : Tournament) (m : MatchNode) (s s' : Ledger) (t' : Tournament) : Prop where
  record : s'.tournament? key = some t'
  node : s'.matchNode? (.matchNode key slot) = some (MatchNode.complete m m.proposedWinner)
  spares : Spares key slot s s'
  reported : t'.matchesReported = t.matchesReported + 1
  total : t'.totalMatches = t.totalMatches
  status : t'.status = if isFinal t m then .completed else .active

theorem rel_refl {α : Type} {R : α → α → Prop} (refl : ∀ x, R x x) (o : Option α) : Option.Rel R o o := by
  cases o with
  | none => exact .none
  | some x => exact .some (refl x)

theorem rel_trans {α : Type} {R : α → α → Prop} (trans : ∀ x y z, R x y → R y z → R x z) {o o' o'' : Option α}
    (h : Option.Rel R o o') (h' : Option.Rel R o' o'') : Option.Rel R o o'' := by
  cases h with
  | none => exact h'
  | some first =>
      cases h' with
      | some second => exact .some (trans _ _ _ first second)

theorem Spares.trans {s'' : Ledger} (h : Spares key slot s s') (h' : Spares key slot s' s'') : Spares key slot s s'' :=
  fun q hq => rel_trans (fun _ _ _ first second => first.trans second) (h q hq) (h' q hq)

/-- Matches at the same place are final together. -/
theorem isFinal_slot (t : Tournament) (same : m.slot = n.slot) : isFinal t m ↔ isFinal t n := by
  have round : m.round = n.round := congrArg Slot.round same
  have index : m.matchIndex = n.matchIndex := congrArg Slot.matchIndex same
  rw [isFinal, isFinal, round, index]

theorem settle_played {a : FinalizeAccounts} {placements : List Pubkey} (wf : Wellformed s)
    (ht : s.tournament? key = some t) (hm : s.matchNode? (.matchNode key slot) = some m)
    (key_eq : a.tournament = key) (address : a.matchAccount = .matchNode key slot)
    (step : Step rt s (.call (settle t m a placements)) s') : ∃ t', Played key slot t m s s' t' := by
  have effect := step_effect wf (isTournament_of_record wf ht) step
  have call := settle_finalize t m a placements
  generalize hix : settle t m a placements = ix at effect call
  generalize hv : viewOf s key = v at effect
  generalize hv' : viewOf s' key = v' at effect
  have record : v.record = some t := hv ▸ ht
  have node : v.node slot = some m := hv ▸ hm
  have spared (h : ∀ q, q ≠ slot → Option.Rel Untouched (v.node q) (v'.node q)) : Spares key slot s s' := by
    intro q hq
    have := h q hq
    rwa [← hv, ← hv'] at this
  have node' (slot : Slot) : s'.matchNode? (.matchNode key slot) = v'.node slot := by rw [← hv']; rfl
  have record' : s'.tournament? key = v'.record := by rw [← hv']; rfl
  cases effect with
  | others _ other => exact absurd (key_eq ▸ finalize_tournament call) other
  | edit _ _ _ call' => exact absurd call (by simp [finalize?_of_edit call'])
  | refund _ _ _ _ _ _ refunding => exact absurd call (by simp [(refunding_calls refunding).2])
  | @advance _ _ c slot₁ next t₁ m₁ n winner p' finalizes inner next_address parent round index =>
      obtain rfl := Option.some.inj (call.symm.trans finalizes.call)
      obtain rfl : slot = slot₁ := by simpa [address] using finalizes.address
      obtain rfl := Option.some.inj (node.symm.trans finalizes.node)
      obtain rfl := Option.some.inj (record.symm.trans finalizes.record)
      obtain rfl := settle_decides (hix ▸ finalizes.decided)
      have apart : slot ≠ next := by
        rintro rfl
        rw [Option.some.inj (parent.symm.trans node)] at round
        omega
      refine ⟨Tournament.counted t, record', ?_, spared fun q hq => ?_, rfl, rfl, ?_⟩
      · exact (node' slot).trans ((Function.update_of_ne apart _ _).trans (Function.update_self ..))
      · by_cases above : q = next
        · subst above
          simp only [Function.update_self, parent]
          exact .some (untouched_advance n m.matchIndex m.proposedWinner)
        · simp only [Function.update_of_ne above, Function.update_of_ne hq]
          exact rel_refl Untouched.refl _
      · rw [if_neg inner]
        exact finalizes.running
  | @conclude _ _ c slot₁ t₁ m₁ winner p' u paid finalizes final =>
      obtain rfl := Option.some.inj (call.symm.trans finalizes.call)
      obtain rfl : slot = slot₁ := by simpa [address] using finalizes.address
      obtain rfl := Option.some.inj (node.symm.trans finalizes.node)
      obtain rfl := Option.some.inj (record.symm.trans finalizes.record)
      obtain rfl := settle_decides (hix ▸ finalizes.decided)
      refine ⟨Tournament.concluded t m.proposedWinner s.clock.unixTimestamp, record', ?_, spared fun q hq => ?_, rfl, rfl,
        (if_pos final).symm⟩
      · exact (node' slot).trans (Function.update_self ..)
      · simp only [Function.update_of_ne hq]
        exact rel_refl Untouched.refl _
  | _ => cases call

section Quiet

/-- No token account has changed, nor the configuration, and nobody has joined. -/
structure Quiet (key : Pubkey) (s s' : Ledger) : Prop where
  tokens : ∀ p, s'.token? p = s.token? p
  config : s'.config? = s.config?
  entrants : ∀ w, (s'.participant? (.participant key w)).isSome = true → (s.participant? (.participant key w)).isSome = true

/-- Everybody who may be paid has a token account, and the tokens of the mint
fit in a `u64`. -/
structure Funded (key mint : Pubkey) (s : Ledger) : Prop where
  supply : Supplied s mint
  wallets : ∀ w, (s.participant? (.participant key w)).isSome = true → ∃ p, Holds s mint w p
  treasury : ∀ cfg, s.config? = some cfg → ∃ p, Holds s mint cfg.treasury p

theorem Quiet.trans {s'' : Ledger} (h : Quiet key s s') (h' : Quiet key s' s'') : Quiet key s s'' :=
  ⟨fun p => (h'.tokens p).trans (h.tokens p), h'.config.trans h.config, fun w hw => h.entrants w (h'.entrants w hw)⟩

theorem Funded.quiet {mint : Pubkey} (h : Funded key mint s) (quiet : Quiet key s s') : Funded key mint s' := by
  have holds {wallet p : Pubkey} (h : Holds s mint wallet p) : Holds s' mint wallet p := by
    rwa [Holds, quiet.tokens p]
  refine ⟨fun S => ?_, fun w hw => ?_, fun cfg hcfg => ?_⟩
  · have same : ∀ p ∈ S, tokensOf mint s' p = tokensOf mint s p := fun p _ => by rw [tokensOf, tokensOf, quiet.tokens p]
    rw [Finset.sum_congr rfl same]
    exact h.supply S
  · obtain ⟨p, hp⟩ := h.wallets w (quiet.entrants w hw)
    exact ⟨p, holds hp⟩
  · obtain ⟨p, hp⟩ := h.treasury cfg (quiet.config ▸ hcfg)
    exact ⟨p, holds hp⟩

/-- While matches are played nobody joins. -/
theorem effect_entrants {clock : Clock} {b : Action} {v v' : TournamentView} (effect : Effect rt key clock b v v')
    (ht : v.record = some t) (active : t.status = .active) {w : Pubkey} (open_ : (v'.participant w).isSome = true) :
    (v.participant w).isSome = true := by
  have same {t₁ : Tournament} (h₁ : v.record = some t₁) : t = t₁ := Option.some.inj (ht.symm.trans h₁)
  have credited {p' : Pubkey → Option Participant} {m : MatchNode} {winner : Pubkey}
      (stats : (t.settlementMode = .organizerOnly ∧ p' = v.participant) ∨ Credited m winner v.participant p')
      (open_ : (p' w).isSome = true) : (v.participant w).isSome = true := by
    rcases stats with ⟨_, rfl⟩ | ⟨x, y, hx, hy, rfl⟩
    · exact open_
    · simp only [Function.update_apply] at open_
      split at open_
      · simp [‹w = _›, hy]
      · split at open_
        · simp [‹w = m.playerA›, hx]
        · exact open_
  cases effect with
  | others | requestSeed | revealSeed | start | edit | partialCancel => exact open_
  | create _ _ _ unopened => simp [ht] at unopened
  | join _ _ _ _ record _ _ opened =>
      obtain rfl := same record
      simp [opened] at active
  | advance _ _ _ _ finalizes | conclude _ _ _ _ _ finalizes =>
      obtain rfl := same finalizes.record
      exact credited finalizes.stats open_
  | refund =>
      simp only [refundAll] at open_
      split at open_ <;> simpa using open_
  | closeChildren | closeRoot =>
      simp only [TournamentView.without] at open_
      split at open_
      · cases open_
      · exact open_

theorem asks_tokens (h : Asks {} s s') (p : Pubkey) : s'.token? p = s.token? p := by
  induction h with
  | refl => rfl
  | tail _ last ih =>
      rw [← ih]
      cases last with
      | write q a before after =>
          rw [setAccount_token]
          split
          · subst p
            rw [before, after]
          · rfl
      | opens _ _ power | fund _ _ _ power | spend _ _ _ _ power | pay _ _ _ power | close _ _ _ power => cases power

/-- A call of a tournament in play that asks for nothing is quiet. -/
theorem call_quiet {ix : Instruction} (wf : Wellformed s) (ht : s.tournament? key = some t) (active : t.status = .active)
    (own : ix.tournament ≠ none) (step : Step rt s (.call ix) s') (asks : Asks {} s s') : Quiet key s s' := by
  have effect := step_effect wf (isTournament_of_record wf ht) step
  refine ⟨asks_tokens asks, ?_, fun w open_ => effect_entrants effect ht active open_⟩
  obtain ⟨_, _, h⟩ := call_ran step
  have plain : s.token? .protocolConfig = none := by
    apply Option.eq_none_iff_forall_ne_some.2
    intro v hv
    obtain ⟨_, h⟩ | ⟨h, _⟩ := token_fits wf hv <;> cases h
  rw [Ledger.config?, (call_framed wf own h).account .protocolConfig rfl plain, Ledger.config?]

theorem settle_quiet {c : FinalizeAccounts} {placements : List Pubkey} (wf : Wellformed s)
    (ht : s.tournament? key = some t) (active : t.status = .active) (hm : s.matchNode? (.matchNode key slot) = some m)
    (inner : ¬ isFinal t m) (key_eq : c.tournament = key) (address : c.matchAccount = .matchNode key slot)
    (step : Step rt s (.call (settle t m c placements)) s') : Quiet key s s' := by
  have call := settle_finalize t m c placements
  have own : (settle t m c placements).tournament = some c.tournament := finalize_tournament call
  refine call_quiet wf ht active (by simp [own]) step ?_
  obtain ⟨_, _, h⟩ := call_ran step
  refine finalize_asks wf call (fun t₁ m₁ ht₁ hm₁ final => ?_) h
  rw [key_eq, ht] at ht₁
  rw [address, hm] at hm₁
  obtain rfl := Option.some.inj ht₁
  obtain rfl := Option.some.inj hm₁
  exact absurd final inner

end Quiet

section Enabled

variable {u : TokenAccount} {treasury anyone : Pubkey} {remaining placements : List Pubkey}

/-- A final is finalized as soon as its prizes can be paid. -/
theorem finalize_last (running : t.status = .active) (playing : m.status = .active) (player : m.hasPlayer m.proposedWinner)
    (bound : t.matchesReported + 1 ≤ u16Max) (final : isFinal t m)
    (paid : distributePrizes s key t m treasury u remaining m.proposedWinner placements = .ok s') :
    ∃ f, finalizeMatch s key t m none u treasury remaining (verdict t m placements) = .ok f := by
  have trusted : (verdict t m placements).placementsTrusted = true ∨ placementCount t.payoutPreset ≤ 1 := by
    rw [verdict, decide_eq_true_eq, Podium]
    have := Nat.lt_or_ge 1 (placementCount t.payoutPreset)
    tauto
  simp only [finalizeMatch, bind_ok, require_ok, orThrow_ok, checkedAdd_eq_some, if_pos final, pure_ok]
  exact ⟨_, (), running, (), playing, (), player, _, ⟨bound, rfl⟩, (), trusted, (), rfl, s', paid, rfl⟩

/-- A finalization that goes through is a step. -/
theorem settle_steps {c : FinalizeAccounts} {cfg : ProtocolConfig} {next : Option MatchNode} {f : Finalized}
    (wf : Wellformed s) (ht : s.tournament? key = some t) (hm : s.matchNode? (.matchNode key m.slot) = some m)
    (home : m.tournament = key) (hcfg : s.config? = some cfg) (hu : s.token? (.vault key) = some u)
    (proposed : m.proposalSource ≠ .none) (due : m.claimDeadline ≤ s.clock.unixTimestamp) (signs : anyone.canSign = true)
    (organizer : t.organizer.canSign = true) (arbitrator : t.arbitrator = t.organizer)
    (players : ∀ x, m.hasPlayer x → (s.participant? (.participant key x)).isSome = true)
    (signer : c.signer = settler t m anyone) (key_eq : c.tournament = key) (address : c.matchAccount = .matchNode key m.slot)
    (hnext : loadNext s c.nextMatch = .ok next)
    (hf : finalizeMatch s key t m next u cfg.treasury c.remainingAccounts (verdict t m placements) = .ok f) :
    ∃ s', Step rt s (.call (settle t m c placements)) s' := by
  subst key_eq
  have loads := backstop_loads wf ht hm home hcfg hu rfl address hnext
  obtain ⟨pa, ha⟩ := Option.isSome_iff_exists.1 (players _ (.inl rfl))
  obtain ⟨pb, hb⟩ := Option.isSome_iff_exists.1 (players _ (.inr rfl))
  have credited : ∃ s', finalizeCredited c ⟨t, m, next, cfg.treasury, u⟩ (verdict t m placements) s = .ok s' := by
    simp only [finalizeCredited, bind_ok, pure_ok, Ledger.loadParticipant_ok]
    exact ⟨_, pa, ha, pb, hb, f, hf, rfl⟩
  obtain ⟨s', hs'⟩ := credited
  exact ⟨s', settle_runs (l := ⟨t, m, next, cfg.treasury, u⟩) signer signs organizer arbitrator loads proposed due hs'⟩

end Enabled

section Life

variable {a : CreateTournament} {born start s : Ledger} {past : History}

theorem life_custom (life : Life rt a born start past s) (ht : s.tournament? a.key = some t) :
    validateCustom t.payoutPreset = .ok () := by
  have checked := life.start_view.2.1
  simp only [CreateTournament.check, bind_ok] at checked
  obtain ⟨_, _, _, _, _, _, _, _, _, custom, _⟩ := checked
  rw [(life.course.terms life.start_record ht).payoutPreset]
  exact custom

theorem life_organizer (life : Life rt a born start past s) (ht : s.tournament? a.key = some t) :
    t.organizer.canSign = true ∧ t.arbitrator = t.organizer := by
  have terms := life.course.terms life.start_record ht
  rw [terms.arbitrator, terms.organizer]
  exact ⟨life.start_view.1, rfl⟩

variable (life : Life rt a born start past s) (fresh : Fresh a.key born) (mode : a.settlementMode ≠ .organizerOnly)
  (unclosed : Unclosed a.key past) (canonical : ∀ d ∈ accepted a.key past, Canonical rt a.key d)
include life fresh mode unclosed canonical

/-- A match in play can be settled once the deadline of its proposal is past. -/
theorem settle_enabled {anyone : Pubkey} (ht : s.tournament? a.key = some t) (active : t.status = .active)
    (hm : s.matchNode? (.matchNode a.key slot) = some m) (playing : m.status = .active)
    (proposed : m.proposalSource ≠ .none) (due : m.claimDeadline ≤ s.clock.unixTimestamp) (signs : anyone.canSign = true)
    (funded : Funded a.key t.tokenMint s) : ∃ c placements s', c.tournament = a.key ∧
      c.matchAccount = .matchNode a.key slot ∧ c.signer = settler t m anyone ∧
      Step rt s (.call (settle t m c placements)) s' := by
  have live : ¬ terminal t.status := by simp [active, terminal]
  obtain ⟨waiting, sincere⟩ := life_waiting life mode (life.start_empty fresh) unclosed canonical ht
  obtain ⟨k, w⟩ := waiting active
  obtain ⟨at_, home⟩ := node_slot life.wf hm
  obtain ⟨cfg, hcfg⟩ := life_config life
  obtain ⟨u, hu, mint_eq, owner⟩ := life_vault life ht live
  obtain ⟨organizer, arbitrator⟩ := life_organizer life ht
  have player := (sincere slot m hm proposed).1
  have bound := w.reported_small
  have players x (hx : m.hasPlayer x) : (s.participant? (.participant a.key x)).isSome = true :=
    (w.player hm playing hx).2
  have hm' : s.matchNode? (.matchNode a.key m.slot) = some m := at_ ▸ hm
  by_cases final : isFinal t m
  · let loser := if m.proposedWinner = m.playerA then m.playerB else m.playerA
    have loses : m.hasPlayer loser := by
      unfold loser
      split
      · exact .inr rfl
      · exact .inl rfl
    have wallet {x : Pubkey} (hx : m.hasPlayer x) : ∃ p, Holds s t.tokenMint x p ∧ p ≠ .vault a.key := by
      obtain ⟨p, hp⟩ := funded.wallets x (players x hx)
      obtain ⟨y, hy⟩ := Option.isSome_iff_exists.1 (players x hx)
      exact ⟨p, hp, payee_away life.wf hy hp⟩
    obtain ⟨pw, prize⟩ := wallet player
    obtain ⟨pl, second⟩ := wallet loses
    obtain ⟨pt, fee⟩ := funded.treasury cfg hcfg
    obtain ⟨payees, s₁, paid⟩ := podium_succeeds (life_custom life ht) hu mint_eq owner (life_places life ht) rfl prize second
      fee funded.supply
    obtain ⟨f, hf⟩ := finalize_last active playing player bound final paid
    let c : FinalizeAccounts := ⟨settler t m anyone, a.key, .matchNode a.key m.slot, none, payees ++ [pt]⟩
    obtain ⟨s', step⟩ := settle_steps (c := c) life.wf ht hm' home hcfg hu proposed due signs organizer arbitrator players rfl
      rfl rfl rfl hf
    exact ⟨c, _, s', rfl, congrArg _ at_, rfl, step⟩
  · obtain ⟨n, hn⟩ := w.parent hm at_ final
    obtain ⟨place, home'⟩ := node_slot life.wf hn
    have plain : verdict t m [] = ⟨m.proposedWinner, [], false⟩ := by
      rw [verdict, decide_eq_false fun podium => final podium.1]
    obtain ⟨f, hf⟩ := finalize_inner active playing player bound final home' (congrArg Slot.round place)
      (congrArg Slot.matchIndex place) []
    rw [← plain] at hf
    let c : FinalizeAccounts :=
      ⟨settler t m anyone, a.key, .matchNode a.key m.slot, some (.matchNode a.key (parentSlot rt a.key m)), []⟩
    have hnext : loadNext s c.nextMatch = .ok (some n) := by
      simp only [c, loadNext, bind_ok, orThrow_ok, pure_ok, Option.some.injEq, exists_eq_right]
      exact hn
    obtain ⟨s', step⟩ := settle_steps (c := c) life.wf ht hm' home hcfg hu proposed due signs organizer arbitrator players rfl
      rfl rfl hnext hf
    exact ⟨c, _, s', rfl, congrArg _ at_, rfl, step⟩

end Life

/-- What is asked of those who bring a tournament to its end: players propose
themselves, `anyone` claims what is proposed once time has passed, and the
organizer adjudicates a final with several places. -/
inductive Aids (key anyone : Pubkey) (s : Ledger) : Action → Prop
  | wait (now : Int) (later : s.clock.unixTimestamp ≤ now) :
      Aids key anyone s (.outside (.clock { s.clock with unixTimestamp := now }))
  | propose (slot : Slot) (m : MatchNode) (winner : Pubkey) (node : s.matchNode? (.matchNode key slot) = some m)
      (player : m.hasPlayer winner) : Aids key anyone s (.call (.proposeResult ⟨winner, key, .matchNode key slot⟩ winner))
  | settle (slot : Slot) (t : Tournament) (m : MatchNode) (c : FinalizeAccounts) (placements : List Pubkey)
      (record : s.tournament? key = some t) (node : s.matchNode? (.matchNode key slot) = some m)
      (key_eq : c.tournament = key) (address : c.matchAccount = .matchNode key slot)
      (signer : c.signer = settler t m anyone) : Aids key anyone s (.call (settle t m c placements))

section Aided

variable {anyone : Pubkey} {b : Action} (aids : Aids key anyone s b)
include aids

theorem aids_accepted : acceptedBy key b = [] := by
  cases aids with
  | wait | propose => rfl
  | settle slot t m c placements => exact acceptedBy_finalize (settle_finalize t m c placements)

theorem aids_unclosed (c : CloseTournament) : b ≠ .call (.closeTournament c) := by
  rintro rfl
  generalize hb : Action.call (.closeTournament c) = b at aids
  cases aids with
  | wait | propose => cases hb
  | settle slot t m a placements =>
      have call := settle_finalize t m a placements
      rw [← Action.call.inj hb] at call
      cases call

theorem aids_open (wf : Wellformed s) (ht : s.tournament? key = some t) (step : Step rt s b s') :
    (s'.tournament? key).isSome = true := by
  have effect := step_effect wf (isTournament_of_record wf ht) step
  have record : (viewOf s key).record = some t := ht
  change (viewOf s' key).record.isSome = true
  generalize viewOf s key = v at effect record
  generalize viewOf s' key = v' at effect
  cases effect with
  | closeRoot c => exact absurd rfl (aids_unclosed aids c)
  | others | edit | closeChildren => simp [TournamentView.credit, TournamentView.without, record]
  | _ => rfl

end Aided

section Alive

variable {a : CreateTournament} {born start s s' : Ledger} {past more : History} {anyone : Pubkey}

/-- A life in which no account has been closed and all matches are at their
canonical addresses. -/
structure Alive (rt : Runtime) (a : CreateTournament) (born start : Ledger) (past : History) (s : Ledger) : Prop where
  life : Life rt a born start past s
  unclosed : Unclosed a.key past
  canonical : ∀ d ∈ accepted a.key past, Canonical rt a.key d

theorem Alive.snoc {b : Action} (alive : Alive rt a born start past s) (aids : Aids a.key anyone s b)
    (step : Step rt s b s') : Alive rt a born start (past ++ [(s, b)]) s' := by
  obtain ⟨t, ht⟩ := alive.life.record
  refine ⟨alive.life.snoc step (aids_open aids alive.life.wf ht step), ?_, ?_⟩
  · exact always_snoc.2 ⟨alive.unclosed, fun c call => absurd call (aids_unclosed aids c)⟩
  · rw [accepted_snoc, aids_accepted aids, List.append_nil]
    exact alive.canonical

theorem Alive.append (alive : Alive rt a born start past s) (run : Run rt s more s')
    (aids : Always (fun e => Aids a.key anyone e.1 e.2) more) : Alive rt a born start (past ++ more) s' := by
  induction run with
  | nil => simpa using alive
  | @snoc more q b s' run next ih =>
      obtain ⟨before, last⟩ := always_snoc.1 aids
      rw [← List.append_assoc]
      exact (ih before).snoc last next

/-- The winner that `pick` stands for, unless there is a proposal already. -/
def outcome (pick : Bool) (m m' : MatchNode) : Pubkey :=
  if m.proposalSource = .none then if pick then m'.playerA else m'.playerB else m.proposedWinner

/-- An active match with a proposal, before it is settled. -/
structure Pending (rt : Runtime) (key anyone : Pubkey) (pick : Bool) (slot : Slot) (t : Tournament)
    (m : MatchNode) (T : Int) (more : History) (s s' : Ledger) : Prop where
  run : Run rt s more s'
  aids : Always (fun e => Aids key anyone e.1 e.2) more
  record : s'.tournament? key = some t
  node : ∃ m', s'.matchNode? (.matchNode key slot) = some m' ∧ m'.status = .active ∧ m'.proposalSource ≠ .none ∧
    m'.proposedWinner = outcome pick m m' ∧ m'.claimDeadline ≤ T ∧ m'.playerA = m.playerA ∧ m'.playerB = m.playerB
  spares : Spares key slot s s'
  quiet : Quiet key s s'

/-- A match as its player proposes itself. -/
def claimed (t : Tournament) (m : MatchNode) (winner : Pubkey) (now : Int) : MatchNode :=
  MatchNode.propose m .player winner winner now (now + t.disputeWindowSecs)

theorem propose_step {winner : Pubkey} (wf : Wellformed s) (ht : s.tournament? key = some t)
    (hm : s.matchNode? (.matchNode key slot) = some m) (mode : t.settlementMode ≠ .organizerOnly)
    (playing : m.status = .active) (empty : m.proposalSource = .none) (player : m.hasPlayer winner)
    (signs : winner.canSign = true) (room : s.clock.unixTimestamp + t.disputeWindowSecs ≤ i64Max) :
    Step rt s (.call (.proposeResult ⟨winner, key, .matchNode key slot⟩ winner))
      (s.setAccount (.matchNode key slot) (.matchNode (claimed t m winner s.clock.unixTimestamp))) := by
  obtain ⟨at_, home⟩ := node_slot wf hm
  obtain ⟨seeds, _⟩ := record_fits wf ht
  refine unpaid_step rfl signs ?_
  simp only [Instruction.run, proposeResult, bind_ok, require_ok, pure_ok, Ledger.loadTournament_ok, Ledger.loadMatch_ok,
    deadlineAfter_ok]
  exact ⟨t, ⟨ht, seeds⟩, m, ⟨hm, by rw [at_], home⟩, (), mode, (), playing, (), empty, (), player, (), player, _, ⟨room, rfl⟩,
    rfl⟩

/-- Where there is no proposal, a player proposes itself. -/
theorem match_proposed (alive : Alive rt a born start past s) (mode : a.settlementMode ≠ .organizerOnly)
    (fresh : Fresh a.key born) (anyone : Pubkey) (pick : Bool) (ht : s.tournament? a.key = some t)
    (active : t.status = .active) (hm : s.matchNode? (.matchNode a.key slot) = some m) (playing : m.status = .active) {T : Int}
    (now : s.clock.unixTimestamp + t.disputeWindowSecs ≤ T) (deadline : m.claimDeadline ≤ T) (room : T ≤ i64Max) :
    ∃ more s', Pending rt a.key anyone pick slot t m T more s s' ∧ s'.clock = s.clock := by
  by_cases empty : m.proposalSource = .none
  · let w := if pick then m.playerA else m.playerB
    have player : m.hasPlayer w := by cases pick <;> simp [w, MatchNode.hasPlayer]
    obtain ⟨waiting, _⟩ := life_waiting alive.life mode (alive.life.start_empty fresh) alive.unclosed alive.canonical ht
    obtain ⟨k, waits⟩ := waiting active
    obtain ⟨x, hx⟩ := Option.isSome_iff_exists.1 (waits.player hm playing player).2
    have wf := alive.life.wf
    have hk := isTournament_of_record wf ht
    have signs : w.canSign = true := by
      obtain ⟨address, _, signs⟩ := participant_fits wf hx
      obtain ⟨_, same⟩ := Pubkey.participant.inj address
      rwa [same]
    have mode' : t.settlementMode ≠ .organizerOnly := by
      rw [(alive.life.course.terms alive.life.start_record ht).settlementMode]
      exact mode
    let m' := claimed t m w s.clock.unixTimestamp
    let s' := s.setAccount (.matchNode a.key slot) (.matchNode m')
    have step : Step rt s (.call (.proposeResult ⟨w, a.key, .matchNode a.key slot⟩ w)) s' :=
      propose_step wf ht hm mode' playing empty player signs (by omega)
    have asks : Asks {} s s' := .single (.write _ _ (node_plain hm) rfl)
    have seen : viewOf s' a.key = { viewOf s a.key with node := Function.update (viewOf s a.key).node slot (some m') } :=
      viewOf_set_node hk slot _
    have node (q : Slot) : s'.matchNode? (.matchNode a.key q) = Function.update (viewOf s a.key).node slot (some m') q :=
      congrFun (congrArg TournamentView.node seen) q
    refine ⟨[(s, _)], s', ⟨Run.one step, ?_, ?_,
      ⟨m', ?_, playing, by simp [m', claimed, MatchNode.propose], ?_, now, rfl, rfl⟩, ?_, ?_⟩,
      rfl⟩
    · intro e he
      rw [List.mem_singleton.1 he]
      exact .propose slot m w hm player
    · exact (congrArg TournamentView.record seen).trans ht
    · rw [node, Function.update_self]
    · rw [outcome, if_pos empty]
      rfl
    · intro q hq
      rw [node, Function.update_of_ne hq]
      exact rel_refl Untouched.refl _
    · exact call_quiet wf ht active (by simp [Instruction.tournament]) step asks
  · refine ⟨[], s, ⟨.nil, by simp [Always], ht, ⟨m, hm, playing, empty, by rw [outcome, if_neg empty], deadline, rfl, rfl⟩,
      ?_, ?_⟩, rfl⟩
    · exact fun q _ => rel_refl Untouched.refl _
    · exact ⟨fun _ => rfl, rfl, fun _ => id⟩

/-- A match that has been played to its end. -/
structure Turn (rt : Runtime) (key anyone : Pubkey) (pick : Bool) (slot : Slot) (t : Tournament)
    (m : MatchNode) (T : Int) (more : History) (s s' : Ledger) (t' : Tournament) : Prop where
  run : Run rt s more s'
  aids : Always (fun e => Aids key anyone e.1 e.2) more
  record : s'.tournament? key = some t'
  node : ∃ m', s'.matchNode? (.matchNode key slot) = some m' ∧ m'.status = .completed ∧ m'.winner = outcome pick m m' ∧
    m'.claimDeadline ≤ T ∧ m'.playerA = m.playerA ∧ m'.playerB = m.playerB
  spares : Spares key slot s s'
  reported : t'.matchesReported = t.matchesReported + 1
  total : t'.totalMatches = t.totalMatches
  status : t'.status = if isFinal t m then .completed else .active
  quiet : ¬ isFinal t m → Quiet key s s'
  clock : s'.clock.unixTimestamp ≤ T

/-- Every match in play can be played to its end, whoever is to win it. -/
theorem match_played (alive : Alive rt a born start past s) (mode : a.settlementMode ≠ .organizerOnly)
    (fresh : Fresh a.key born) (pick : Bool) (signs : anyone.canSign = true) (ht : s.tournament? a.key = some t)
    (active : t.status = .active) (hm : s.matchNode? (.matchNode a.key slot) = some m) (playing : m.status = .active)
    (funded : Funded a.key t.tokenMint s) {T : Int} (now : s.clock.unixTimestamp + t.disputeWindowSecs ≤ T)
    (deadline : m.claimDeadline ≤ T) (room : T ≤ i64Max) :
    ∃ more s' t', Turn rt a.key anyone pick slot t m T more s s' t' := by
  obtain ⟨first, s₁, pending, same⟩ := match_proposed alive mode fresh anyone pick ht active hm playing now deadline room
  obtain ⟨m₁, hm₁, playing₁, proposed, winner, due, seats⟩ := pending.node
  have alive₁ := alive.append pending.run pending.aids
  -- time passes until the deadline
  let c : Clock := { s₁.clock with unixTimestamp := max s₁.clock.unixTimestamp m₁.claimDeadline }
  let s₂ : Ledger := { s₁ with clock := c }
  have waits : Aids a.key anyone s₁ (.outside (.clock c)) := .wait _ (le_max_left _ _)
  have waited : Step rt s₁ (.outside (.clock c)) s₂ := rfl
  have alive₂ := alive₁.snoc waits waited
  have passed : Quiet a.key s₁ s₂ := ⟨fun _ => rfl, rfl, fun _ => id⟩
  have quiet := pending.quiet.trans passed
  obtain ⟨e, placements, s₃, key_eq, address, signer, step⟩ := settle_enabled alive₂.life fresh mode alive₂.unclosed
    alive₂.canonical pending.record active hm₁ playing₁ proposed (le_max_right _ _) signs (funded.quiet quiet)
  obtain ⟨t', played⟩ := settle_played alive₂.life.wf pending.record hm₁ key_eq address step
  have settles : Aids a.key anyone s₂ (.call (settle t m₁ e placements)) :=
    .settle slot t m₁ e placements pending.record hm₁ key_eq address signer
  have place : m₁.slot = m.slot := (node_slot alive₁.life.wf hm₁).1.trans (node_slot alive.life.wf hm).1.symm
  have final := isFinal_slot t place
  refine ⟨first ++ [(s₁, _)] ++ [(s₂, _)], s₃, t', (pending.run.snoc waited).snoc step, ?_, played.record, ?_, ?_,
    played.reported, played.total, ?_, fun inner => ?_, ?_⟩
  · exact always_snoc.2 ⟨always_snoc.2 ⟨pending.aids, waits⟩, settles⟩
  · exact ⟨_, played.node, rfl, winner, due, seats⟩
  · exact pending.spares.trans played.spares
  · rw [played.status]
    simp only [final]
  · exact quiet.trans (settle_quiet alive₂.life.wf pending.record active hm₁ (fun last => inner (final.1 last)) key_eq address
      step)
  · obtain still | ⟨_, moved, _⟩ := step_clock alive₂.life.wf step
    · rw [still]
      exact max_le (by rw [same]; omega) due
    · cases moved

/-- While a match is open not all are reported. -/
theorem reported_lt {k : Nat} (h : Standing rt key k (viewOf s key).node t) (wf : Wellformed s)
    (hm : s.matchNode? (.matchNode key slot) = some m) (open_ : m.status ≠ .completed) :
    t.matchesReported < t.totalMatches := by
  have most : (boardOf rt key (viewOf s key).node).decided (k + 1) ≤ (grid (k + 1)).length := List.countP_le_length
  obtain ⟨mem, place⟩ := h.place hm (node_slot wf hm).1
  have hm' : (viewOf s key).node (canonicalSlot rt key m.round m.matchIndex) = some m := place ▸ hm
  have unwon : (boardOf rt key (viewOf s key).node).decided (k + 1) ≠ (grid (k + 1)).length := by
    intro all
    have won := List.countP_eq_length.1 all _ mem
    rw [boardOf_winner hm', result_eq_none.2 open_] at won
    cases won
  rw [h.count, h.dims.total, ← length_grid]
  exact Nat.lt_of_le_of_ne most unwon

/-- Once a bracket is completed all its matches are. -/
theorem all_completed {k : Nat} (h : Standing rt key k (viewOf s key).node t) (wf : Wellformed s)
    (done : t.status = .completed) (hm : s.matchNode? (.matchNode key slot) = some m) : m.status = .completed := by
  have root : ((boardOf rt key (viewOf s key).node).winner (k, 0)).isSome = true := by rw [h.crowned done]; rfl
  obtain ⟨mem, place⟩ := h.place hm (node_slot wf hm).1
  have hm' : (viewOf s key).node (canonicalSlot rt key m.round m.matchIndex) = some m := place ▸ hm
  have won := h.valid.all_won root _ mem
  by_contra open_
  rw [boardOf_winner hm', result_eq_none.2 open_] at won
  cases won

/-- A tournament brought to its end, with the matches won as picked. -/
structure Finish (rt : Runtime) (a : CreateTournament) (born start : Ledger) (past : History) (anyone : Pubkey)
    (pick : Slot → Bool) (s : Ledger) (more : History) (s' : Ledger) : Prop where
  alive : Alive rt a born start (past ++ more) s'
  run : Run rt s more s'
  aids : Always (fun e => Aids a.key anyone e.1 e.2) more
  completed : ∃ t', s'.tournament? a.key = some t' ∧ t'.status = .completed
  results : ∀ slot m, s.matchNode? (.matchNode a.key slot) = some m → m.status ≠ .completed →
    ∃ m', s'.matchNode? (.matchNode a.key slot) = some m' ∧ m'.status = .completed ∧ m'.winner = outcome (pick slot) m m'

/-- No deadline lies beyond. -/
structure Timed (key : Pubkey) (T : Int) (s : Ledger) : Prop where
  clock : s.clock.unixTimestamp ≤ T
  deadlines : ∀ slot m, s.matchNode? (.matchNode key slot) = some m → m.claimDeadline ≤ T

section Turns

variable {pick : Slot → Bool} {T T' : Int} (turn : Turn rt a.key anyone (pick slot) slot t m T' more s s' t')
include turn

theorem Turn.timed (timed : Timed a.key T s) (later : T ≤ T') : Timed a.key T' s' := by
  refine ⟨turn.clock, fun q n hn => ?_⟩
  by_cases hq : q = slot
  · subst hq
    obtain ⟨m', hm', _, _, due, _⟩ := turn.node
    obtain rfl := Option.some.inj (hn.symm.trans hm')
    exact due
  · have spared := turn.spares q hq
    rw [hn] at spared
    generalize ho : s.matchNode? (.matchNode a.key q) = o at spared
    cases spared with
    | some same => exact (same.deadline ▸ timed.deadlines q _ ho).trans later

variable (alive : Alive rt a born start past s) (fresh : Fresh a.key born) (mode : a.settlementMode ≠ .organizerOnly)
include alive fresh mode

/-- With the final the tournament is finished. -/
theorem Turn.last (hm : s.matchNode? (.matchNode a.key slot) = some m) (final : isFinal t m) :
    Finish rt a born start past anyone pick s more s' := by
  have alive' := alive.append turn.run turn.aids
  have done : t'.status = .completed := turn.status.trans (if_pos final)
  obtain ⟨k, h⟩ := life_standing alive'.life fresh mode alive'.unclosed alive'.canonical turn.record (.inr done)
  refine ⟨alive', turn.run, turn.aids, ⟨t', turn.record, done⟩, fun q n hn open_ => ?_⟩
  by_cases hq : q = slot
  · subst hq
    obtain rfl := Option.some.inj (hn.symm.trans hm)
    obtain ⟨m', hm', done', winner, _⟩ := turn.node
    exact ⟨m', hm', done', winner⟩
  · have spared := turn.spares q hq
    rw [hn] at spared
    generalize ho : s'.matchNode? (.matchNode a.key q) = o at spared
    cases spared with
    | some same => exact absurd (all_completed h alive'.life.wf done ho) (same.open_ open_)

omit alive in
/-- What is finished after a turn is finished before. -/
theorem Turn.then {rest : History} {s'' : Ledger} (hm : s.matchNode? (.matchNode a.key slot) = some m)
    (seats : m.playerA ≠ default ∧ m.playerB ≠ default)
    (finish : Finish rt a born start (past ++ more) anyone pick s' rest s'') :
    Finish rt a born start past anyone pick s (more ++ rest) s'' := by
  have alive'' := finish.alive
  rw [List.append_assoc] at alive''
  refine ⟨alive'', turn.run.append finish.run, ?_, finish.completed, fun q n hn open_ => ?_⟩
  · intro e he
    exact (List.mem_append.1 he).elim (turn.aids e) (finish.aids e)
  by_cases hq : q = slot
  · subst hq
    obtain rfl := Option.some.inj (hn.symm.trans hm)
    obtain ⟨m', hm', done', winner, _, left, right⟩ := turn.node
    have visited : Visits (past ++ more ++ rest) s'' s' := finish.run.visits_append (.inl rfl)
    rw [List.append_assoc] at visited
    obtain ⟨m'', hm'', kept⟩ := life_keeps alive''.life fresh mode alive''.unclosed alive''.canonical s' q m' visited hm'
    obtain ⟨done'', winner''⟩ := kept.result done'
    refine ⟨m'', hm'', done'', ?_⟩
    rw [winner'', winner, outcome, outcome, kept.playerA (left ▸ seats.1), kept.playerB (right ▸ seats.2)]
  · have spared := turn.spares q hq
    rw [hn] at spared
    generalize ho : s'.matchNode? (.matchNode a.key q) = o at spared
    cases spared with
    | some same =>
        obtain ⟨m'', hm'', done'', winner''⟩ := finish.results q _ ho (same.open_ open_)
        refine ⟨m'', hm'', done'', ?_⟩
        rw [winner'', outcome, outcome, same.source, same.winner]

end Turns

/-- As long as there is time for one dispute window a match. -/
theorem finishes (fresh : Fresh a.key born) (mode : a.settlementMode ≠ .organizerOnly) (signs : anyone.canSign = true)
    (pick : Slot → Bool) (n : Nat) : ∀ {past : History} {s : Ledger} {t : Tournament} {T : Int},
    Alive rt a born start past s → s.tournament? a.key = some t → t.status = .active → Funded a.key t.tokenMint s →
    Timed a.key T s → t.totalMatches - t.matchesReported = n → T + n * t.disputeWindowSecs ≤ i64Max →
    ∃ more s', Finish rt a born start past anyone pick s more s' := by
  induction n with
  | zero =>
      intro past s t T alive ht active _ _ left _
      obtain ⟨k, h⟩ := life_standing alive.life fresh mode alive.unclosed alive.canonical ht (.inl active)
      obtain ⟨slot, m, hm, playing⟩ := open_match alive.life fresh mode alive.unclosed alive.canonical ht active
      have below := reported_lt h alive.life.wf hm (by simp [playing])
      omega
  | succ n ih =>
      intro past s t T alive ht active funded timed left room
      obtain ⟨k, h⟩ := life_standing alive.life fresh mode alive.unclosed alive.canonical ht (.inl active)
      obtain ⟨slot, m, hm, playing⟩ := open_match alive.life fresh mode alive.unclosed alive.canonical ht active
      have seats := (h.ready slot m hm (by simp [playing])).1 playing
      have window : T + t.disputeWindowSecs + n * t.disputeWindowSecs = T + (n + 1 : Nat) * t.disputeWindowSecs := by
        rw [Nat.cast_succ, Int.add_mul, Int.one_mul]
        omega
      have spent : (0 : Int) ≤ n * t.disputeWindowSecs :=
        Int.mul_nonneg (Int.natCast_nonneg n) (Int.natCast_nonneg _)
      have now := timed.clock
      have due := timed.deadlines slot m hm
      obtain ⟨more, s₁, t₁, turn⟩ := match_played (T := T + t.disputeWindowSecs) alive mode fresh (pick slot) signs ht active hm
        playing funded (by omega) (by omega) (by omega)
      by_cases final : isFinal t m
      · exact ⟨more, s₁, turn.last alive fresh mode hm final⟩
      · have alive₁ := alive.append turn.run turn.aids
        have active₁ : t₁.status = .active := turn.status.trans (if_neg final)
        have first := alive.life.course.terms alive.life.start_record ht
        have terms := alive₁.life.course.terms alive.life.start_record turn.record
        have mint : t₁.tokenMint = t.tokenMint := terms.tokenMint.trans first.tokenMint.symm
        have same : t₁.disputeWindowSecs = t.disputeWindowSecs := terms.disputeWindowSecs.trans first.disputeWindowSecs.symm
        obtain ⟨rest, s', finish⟩ := ih alive₁ turn.record active₁ (mint ▸ funded.quiet (turn.quiet final))
          (turn.timed timed (by omega)) (by rw [turn.reported, turn.total]; omega)
          (by rw [same, window]; exact room)
        exact ⟨more ++ rest, s', turn.then fresh mode hm seats finish⟩

end Alive

section Theorem

variable {a : CreateTournament} {born start s : Ledger} {past : History} {anyone : Pubkey} {T : Int}

/-- No seeded tournament at canonical addresses gets stuck: whatever has
happened while it is active, its matches can be played to the end, for the
proposed winners and otherwise for any winners, by players who propose
themselves and by anyone who claims. Only a final with several places needs the
organizer. -/
theorem completable (life : Life rt a born start past s) (fresh : Fresh a.key born) (mode : a.settlementMode ≠ .organizerOnly)
    (canonical : ∀ d ∈ accepted a.key past, Canonical rt a.key d) (ht : s.tournament? a.key = some t)
    (active : t.status = .active) (signs : anyone.canSign = true) (funded : Funded a.key t.tokenMint s)
    (timed : Timed a.key T s)
    (room : T + (t.totalMatches - t.matchesReported : Nat) * t.disputeWindowSecs ≤ i64Max) (pick : Slot → Bool) :
    ∃ more s', Finish rt a born start past anyone pick s more s' := by
  have unclosed := unclosed_of_live life.course ht (by simp [active, terminal])
  exact finishes fresh mode signs pick _ ⟨life, unclosed, canonical⟩ ht active funded timed rfl room

end Theorem

section Sample

/-- Four players, with one match proposed. -/
def underway : List Action :=
  openTreasury :: fourRevealed sampleTournament.key ++ [startWith sampleTournament.key [semi0, semi1, lastOf4],
    .call (.proposeResult ⟨.key 3, sampleTournament.key, .matchNode sampleTournament.key semi1.slot⟩ (.key 3))]

def underwayLog : History := log sampleRuntime (created sampleRuntime sampleTournament sampleBorn) underway

def underwayState : Ledger := after sampleRuntime (created sampleRuntime sampleTournament sampleBorn) underway

theorem underway_life : SampleLife underway := script_life sampleBorn_reachable rfl (by decide) (by decide)

theorem brings_nothing {b : Action} (mem : b ∈ [sampleInit, .call (.createTournament sampleTournament)] ++ underway)
    (s : Ledger) (p : Pubkey) : brought (tokensOf (.key 100)) (s, b) p = 0 := by
  simp only [underway, fourRevealed, joinAs, startWith, openTreasury, sampleInit, List.cons_append, List.nil_append,
    List.mem_cons, List.not_mem_nil, or_false] at mem
  rcases mem with rfl | rfl | rfl | rfl | rfl | rfl | rfl | rfl | rfl | rfl | rfl
  case inr.inr.inl =>
    have after : Outside.after (.account 17 (.token ⟨.key 100, .key 8, 0, false⟩)) s =
      s.setAccount (.key 17) (.token ⟨.key 100, .key 8, 0, false⟩) := rfl
    simp only [brought, after, tokensOf, setAccount_token]
    split <;> simp [Account.asToken]
  all_goals rfl

theorem genesis_fits (S : Finset Pubkey) : ∑ p ∈ S, tokensOf (.key 100) sampleGenesis p ≤ u64Max := by
  let held : Finset Pubkey := {.key 10, .key 11, .key 12, .key 13, .key 14}
  have inside : ∀ p ∈ S, tokensOf (.key 100) sampleGenesis p ≠ 0 → p ∈ held := by
    intro p _ some_
    by_contra hp
    simp only [held, Finset.mem_insert, Finset.mem_singleton, not_or] at hp
    apply some_
    simp only [tokensOf, Ledger.token?, sampleGenesis]
    split <;> simp_all [Account.asToken]
  calc ∑ p ∈ S, tokensOf (.key 100) sampleGenesis p ≤ ∑ p ∈ held, tokensOf (.key 100) sampleGenesis p :=
        Finset.sum_le_sum_of_ne_zero inside
    _ ≤ u64Max := by decide

theorem underway_supplied : Supplied underwayState (.key 100) := by
  have first : Run sampleRuntime sampleGenesis _ sampleBorn := script_run sampleGenesis [sampleInit]
  have run := (first.append
    (script_run sampleBorn [.call (.createTournament sampleTournament)])).append
    (script_run (created sampleRuntime sampleTournament sampleBorn) underway)
  have conserved := run_conserved (genesis_wellformed sampleGenesis_genesis)
    (fun wf h => (call_balanced wf h).1 (.key 100)) run
  refine conserved.bounded (fun e he => ?_) genesis_fits
  apply brings_nothing
  simp only [List.mem_append, or_assoc] at he ⊢
  rcases he with he | he | he
  · exact .inl (List.mem_cons.2 (.inl (List.mem_singleton.1 (mem_log he))))
  · exact .inl (List.mem_cons_of_mem _ (mem_log he))
  · exact .inr (mem_log he)

theorem underway_funded : Funded sampleTournament.key (.key 100) underwayState := by
  refine ⟨underway_supplied, fun w hw => ?_, fun cfg hcfg => ?_⟩
  · obtain ⟨x, hx⟩ := Option.isSome_iff_exists.1 hw
    have mem := List.mem_of_getElem? (life_entered underway_life sampleBorn_fresh hx).1
    have all : joins sampleTournament.key underwayLog = [.key 2, .key 3, .key 4, .key 5] := by decide
    rw [underwayLog] at all
    rw [all] at mem
    simp only [List.mem_cons, List.not_mem_nil, or_false] at mem
    rcases mem with rfl | rfl | rfl | rfl
    · exact ⟨.key 11, _, rfl, rfl, rfl, rfl⟩
    · exact ⟨.key 12, _, rfl, rfl, rfl, rfl⟩
    · exact ⟨.key 13, _, rfl, rfl, rfl, rfl⟩
    · exact ⟨.key 14, _, rfl, rfl, rfl, rfl⟩
  · obtain rfl := Option.some.inj hcfg
    exact ⟨.key 17, _, rfl, rfl, rfl, rfl⟩

theorem underway_timed : Timed sampleTournament.key 100 underwayState := by
  have built := builtCanonically_of_empty underway_life (by
    intro e he c hc
    have mem := mem_log he
    rw [hc] at mem
    simp [underway, fourRevealed, joinAs, startWith, openTreasury] at mem) sampleBorn_fresh.node (by decide)
  refine ⟨by decide, fun slot m hm => ?_⟩
  obtain ⟨d, hd, rfl⟩ := built.own slot (Option.isSome_iff_exists.2 ⟨m, hm⟩)
  have all : accepted sampleTournament.key underwayLog = [semi0, semi1, lastOf4] := by decide
  rw [underwayLog] at all
  rw [all] at hd
  simp only [List.mem_cons, List.not_mem_nil, or_false] at hd
  rcases hd with rfl | rfl | rfl <;> · obtain rfl := Option.some.inj hm; decide

theorem underway_completable : ∃ more s', Finish sampleRuntime sampleTournament sampleBorn
    (created sampleRuntime sampleTournament sampleBorn) underwayLog (.key 77) (fun _ => true) underwayState more s' :=
  completable underway_life sampleBorn_fresh (by decide) (by decide) rfl rfl rfl underway_funded underway_timed (by decide)
    fun _ => true

end Sample

end BracketChain.Completion
