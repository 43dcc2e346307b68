import BracketChain.Confluence
import BracketChain.Drain

namespace BracketChain.Prizes

open Outcome Keys Records Accounts Payout Registration Settlement Envelope Refunds Program Runs Layout View Lifecycle
  FinalizeEffects RefundEffects Refinement Lives Bookkeeping Entitlement Confluence Drain Scripts

def Instruction.placements : Instruction → List Pubkey
  | .reportResult _ _ ps | .confirmResult _ ps | .claimResult _ ps | .forceClaimDisputed _ ps
  | .resolveDispute _ _ ps | .settleFinal _ ps => ps
  | _ => []

/-- A call that finalizes the final of the tournament. -/
def Settles (key : Pubkey) (e : Ledger × Action) : Prop :=
  ∃ ix a t m, e.2 = .call ix ∧ Instruction.finalize? ix = some a ∧ a.tournament = key ∧
    e.1.tournament? key = some t ∧ e.1.matchNode? a.matchAccount = some m ∧ isFinal t m

/-- The call settles the final: what the vault holds goes to the placements,
winner and loser of the match first, and to the treasury. -/
structure PaidOut (key : Pubkey) (ix : Instruction) (s s' : Ledger) (moves : List Transfer) (a : FinalizeAccounts)
    (t : Tournament) (m : MatchNode) (cfg : ProtocolConfig) (u : TokenAccount) (winner : Pubkey) : Prop where
  call : Instruction.finalize? ix = some a
  record : s.tournament? key = some t
  running : t.status = .active
  config : s.config? = some cfg
  vault : s.token? (.vault key) = some u
  node : s.matchNode? a.matchAccount = some m
  player : m.hasPlayer winner
  record' : s'.tournament? key = some (Tournament.concluded t winner s.clock.unixTimestamp)
  node' : s'.matchNode? a.matchAccount = some (MatchNode.complete m winner)
  count : (Instruction.placements ix).length = placementCount t.payoutPreset
  first : (Instruction.placements ix)[0]? = some winner
  second : ∀ w, (Instruction.placements ix)[1]? = some w → w = if winner = m.playerA then m.playerB else m.playerA
  shares : Shares key cfg.treasury u.amount (Instruction.placements ix) a.remainingAccounts moves
  logged : s'.transfers = s.transfers ++ moves
  owned : ∀ x ∈ moves, ∃ d, s.token? x.destination = some d ∧ d.owner = x.recipient
  drained : .vault key ∉ a.remainingAccounts → ∃ u', s'.token? (.vault key) = some u' ∧ u'.amount = 0

variable {rt : Runtime} {s s' : Ledger} {key : Pubkey}

/-- What the finalizing instructions have in common: they finalize, and write
the accounts back. -/
theorem finalize_ran {ix : Instruction} {a : FinalizeAccounts} (call : Instruction.finalize? ix = some a)
    (h : ix.run rt s = .ok s') : ∃ l v f, loadFinalize s a = .ok l ∧ v.placements = Instruction.placements ix ∧
      finalizeMatch s a.tournament l.t l.m l.next l.vault l.treasury a.remainingAccounts v = .ok f ∧
      (s' = writeBack a f ∨ ∃ w w' x x', s' = ((writeBack a f).setAccount (.participant a.tournament w)
        (.participant x)).setAccount (.participant a.tournament w') (.participant x')) := by
  have credited {l : Loaded} {v : Verdict} (hl : loadFinalize s a = .ok l)
      (places : v.placements = Instruction.placements ix) (h : finalizeCredited a l v s = .ok s') : ∃ l v f,
      loadFinalize s a = .ok l ∧ v.placements = Instruction.placements ix ∧
      finalizeMatch s a.tournament l.t l.m l.next l.vault l.treasury a.remainingAccounts v = .ok f ∧
      (s' = writeBack a f ∨ ∃ w w' x x', s' = ((writeBack a f).setAccount (.participant a.tournament w)
        (.participant x)).setAccount (.participant a.tournament w') (.participant x')) := by
    simp only [finalizeCredited, bind_ok, pure_ok] at h
    obtain ⟨pa, _, pb, _, f, hf, rfl⟩ := h
    exact ⟨l, v, f, hl, places, hf, .inr ⟨_, _, _, _, rfl⟩⟩
  cases ix with
  | reportResult b winner placements =>
      obtain rfl := Option.some.inj call
      simp only [Instruction.run, reportResult, bind_ok, pure_ok] at h
      obtain ⟨l, hl, _, _, _, _, f, hf, rfl⟩ := h
      exact ⟨l, _, f, hl, rfl, hf, .inl rfl⟩
  | confirmResult b placements =>
      obtain rfl := Option.some.inj call
      simp only [Instruction.run, confirmResult, bind_ok] at h
      obtain ⟨l, hl, _, _, _, _, _, _, _, _, h⟩ := h
      exact credited hl rfl h
  | claimResult b placements | forceClaimDisputed b placements =>
      obtain rfl := Option.some.inj call
      simp only [Instruction.run, claimResult, forceClaimDisputed, bind_ok] at h
      obtain ⟨l, hl, _, _, _, _, _, _, h⟩ := h
      exact credited hl rfl h
  | resolveDispute b winner placements =>
      obtain rfl := Option.some.inj call
      simp only [Instruction.run, resolveDispute, bind_ok] at h
      obtain ⟨l, hl, _, _, _, _, h⟩ := h
      exact credited hl rfl h
  | settleFinal b placements =>
      obtain rfl := Option.some.inj call
      simp only [Instruction.run, settleFinal, bind_ok] at h
      obtain ⟨l, hl, _, _, _, _, _, _, _, _, h⟩ := h
      exact credited hl rfl h
  | _ => cases call

theorem loadFinalize_config {a : FinalizeAccounts} {l : Loaded} (h : loadFinalize s a = .ok l) :
    ∃ cfg, s.config? = some cfg ∧ l.treasury = cfg.treasury := by
  simp only [loadFinalize, bind_ok, pure_ok, Ledger.loadConfig, orThrow_ok] at h
  obtain ⟨_, _, _, _, _, _, cfg, config, _, _, rfl⟩ := h
  exact ⟨cfg, config, rfl⟩

/-- The branch of `finalize_match` for the final. -/
theorem finalizeMatch_final {t : Tournament} {m : MatchNode} {next : Option MatchNode} {vault : TokenAccount}
    {treasury : Pubkey} {remaining : List Pubkey} {v : Verdict} {f : Finalized} (final : isFinal t m)
    (h : finalizeMatch s key t m next vault treasury remaining v = .ok f) :
    t.status = .active ∧ m.hasPlayer v.winner ∧ ∃ s₁,
      distributePrizes s key t m treasury vault remaining v.winner v.placements = .ok s₁ ∧
      f = ⟨s₁, Tournament.concluded t v.winner s.clock.unixTimestamp, MatchNode.complete m v.winner, none⟩ := by
  simp only [finalizeMatch, bind_ok, require_ok, orThrow_ok, checkedAdd_eq_some, ite_ok, pure_ok] at h
  obtain ⟨_, running, _, _, _, player, reported, ⟨_, rfl⟩, h⟩ := h
  rcases h with ⟨_, _, _, _, _, s₁, h₁, rfl⟩ | ⟨inner, _⟩
  · exact ⟨running, player, s₁, h₁, rfl⟩
  · exact absurd final inner

theorem set_other {p q : Pubkey} (apart : q ≠ p) (x : Account) :
    (s.setAccount p x).accounts q = s.accounts q := by
  rw [Ledger.setAccount_accounts, if_neg apart]

theorem settles_paidOut {b : Action} (wf : Wellformed s) (settles : Settles key (s, b)) (step : Step rt s b s') :
    ∃ ix moves a t m cfg u winner, b = .call ix ∧ PaidOut key ix s s' moves a t m cfg u winner := by
  obtain ⟨ix, a, t, m, rfl, call, rfl, ht, hm, final⟩ := settles
  obtain ⟨_, _, h⟩ := call_ran step
  obtain ⟨l, v, f, hl, places, hf, written⟩ := finalize_ran call h
  have loads := loadFinalize_ok hl
  obtain ⟨cfg, config, treasury⟩ := loadFinalize_config hl
  obtain rfl := Option.some.inj (ht.symm.trans loads.record)
  obtain rfl := Option.some.inj (hm.symm.trans loads.matchAccount)
  obtain ⟨running, player, s₁, paid, rfl⟩ := finalizeMatch_final final hf
  rw [places, treasury] at paid
  obtain ⟨count, first, second, moves, shares, moved⟩ := distributePrizes_moves paid
  rw [writeBack_last] at written
  have hk := isTournament_of_record wf ht
  -- record, match and participants are written at addresses of their own
  have kept : s'.transfers = s₁.transfers ∧ ∀ p, (∀ w, p ≠ .participant a.tournament w) → s'.accounts p =
      (wrote a s₁ (Tournament.concluded l.t v.winner s.clock.unixTimestamp)
        (MatchNode.complete l.m v.winner)).accounts p := by
    rcases written with rfl | ⟨w, w', x, x', rfl⟩
    · exact ⟨rfl, fun _ _ => rfl⟩
    · refine ⟨rfl, fun p apart => ?_⟩
      rw [set_other (apart w'), set_other (apart w)]
  have record_apart : a.tournament ≠ a.matchAccount := by
    rw [loads.address]
    exact ne_of_isTournament hk rfl
  have vault_apart : Pubkey.vault a.tournament ≠ a.tournament := (ne_of_isTournament hk rfl).symm
  refine ⟨ix, moves, a, l.t, l.m, cfg, l.vault, v.winner, rfl, call, ht, running, config, loads.vault, hm, player,
    ?_, ?_, count, first, second, shares, kept.1.trans moved.logged, moved.owned, ?_⟩
  · rw [Ledger.tournament?, kept.2 _ fun w => ne_of_isTournament hk rfl, wrote, set_other record_apart,
      Ledger.setAccount_accounts, if_pos rfl]
    rfl
  · have apart w : a.matchAccount ≠ .participant a.tournament w := by simp [loads.address]
    rw [Ledger.matchNode?, kept.2 _ apart, wrote, Ledger.setAccount_accounts, if_pos rfl]
    rfl
  · intro away
    obtain ⟨u', hu', taken⟩ := moved.vault l.vault loads.vault
    have empty := taken fun x hx here => away (here ▸ (shares.listed x hx).2)
    have same : s'.accounts (.vault a.tournament) = s₁.accounts (.vault a.tournament) := by
      have matched : Pubkey.vault a.tournament ≠ a.matchAccount := by simp [loads.address]
      rw [kept.2 _ (by simp), wrote, set_other matched, set_other vault_apart]
    refine ⟨u', ?_, ?_⟩
    · rw [Ledger.token?, same]
      exact hu'
    · have whole := shares.whole
      omega

/-- The run of a tournament from its creation to the close of its root, if it
comes to that. -/
structure Lifetime (rt : Runtime) (a : CreateTournament) (born start : Ledger) (past : History) (s : Ledger) :
    Prop where
  reachable : Reachable rt born
  created : Step rt born (.call (.createTournament a)) start
  run : Run rt start past s
  kept : ∀ e ∈ past, (e.1.tournament? a.key).isSome = true

section Lifetimes

variable {a : CreateTournament} {born start : Ledger} {past before after : History} {b : Action} {t : Tournament}

theorem Lifetime.at_entry (lifetime : Lifetime rt a born start past s) (split : past = before ++ (s', b) :: after) :
    Life rt a born start before s' ∧ ∃ next, Step rt s' b next ∧ Run rt next after s := by
  obtain ⟨run, next, step, rest⟩ := lifetime.run.split split
  subst split
  refine ⟨⟨lifetime.reachable, lifetime.created, run, ?_⟩, next, step, rest⟩
  rintro q (rfl | ⟨c, hc⟩)
  · exact lifetime.kept _ (List.mem_append_right _ List.mem_cons_self)
  · exact lifetime.kept _ (List.mem_append_left _ hc)

/-- The payments of the vault grow in the final, and in refunds only. -/
theorem effect_paid {clock : Clock} {v v' : TournamentView} (effect : Effect rt key clock b v v')
    (ht : v.record = some t) : v'.paid = v.paid ∨
      (t.status ≠ .completed ∧ ∃ t', v'.record = some t' ∧ terminal t'.status) := by
  have same {t₁ : Tournament} (h₁ : v.record = some t₁) : t₁ = t := Option.some.inj (h₁.symm.trans ht)
  cases effect with
  | conclude _ _ _ _ _ finalizes =>
      obtain rfl := same finalizes.record
      exact .inr ⟨by simp [finalizes.running], _, rfl, .inl rfl⟩
  | refund _ c _ _ record _ refunding =>
      obtain rfl := same record
      obtain ⟨status, rfl, unsettled, ended⟩ := refunding_status refunding
      refine .inr ⟨unsettled, _, rfl, ?_⟩
      split <;> exact ended
  | create _ _ _ unopened => simp [ht] at unopened
  | others | join | requestSeed | revealSeed | start | edit | advance | partialCancel | closeChildren | closeRoot =>
      exact .inl rfl

/-- What is settled or refunded in a life shows in its status. -/
theorem life_ended (life : Life rt a born start past s) (ht : (viewOf s a.key).record = some t) :
    ((∃ e ∈ past, Settles a.key e) → t.status = .completed) ∧
      ((∃ e ∈ past, RefundsOf a.key e) → CalledOff t) ∧
      (¬ terminal t.status → (viewOf s a.key).paid = (viewOf born a.key).paid) := by
  refine life.invariant (P := fun past s => ∀ t, (viewOf s a.key).record = some t →
    ((∃ e ∈ past, Settles a.key e) → t.status = .completed) ∧
      ((∃ e ∈ past, RefundsOf a.key e) → CalledOff t) ∧
      (¬ terminal t.status → (viewOf s a.key).paid = (viewOf born a.key).paid)) ?_ ?_ t ht
  · intro t _
    refine ⟨by simp, by simp, fun _ => ?_⟩
    rw [life.start_view.2.2]
  · intro past s b s' earlier ih step effect later t' ht'
    obtain ⟨t, ht⟩ := earlier.record
    obtain ⟨settled, refunded, unpaid⟩ := ih t ht
    have status := effect_status effect ht ht'
    refine ⟨?_, ?_, ?_⟩
    · rintro ⟨e, entry, settles⟩
      rcases List.mem_append.1 entry with entry | entry
      · have completed := settled ⟨e, entry, settles⟩
        exact (status.terminal (.inl completed)).trans completed
      · obtain rfl := List.mem_singleton.1 entry
        obtain ⟨_, _, _, _, _, _, _, winner, _, paid⟩ := settles_paidOut earlier.wf settles step
        obtain rfl := Option.some.inj (ht'.symm.trans paid.record')
        rfl
    · rintro ⟨e, entry, refunds⟩
      rcases List.mem_append.1 entry with entry | entry
      · have called := refunded ⟨e, entry, refunds⟩
        rw [CalledOff, status.terminal (.inr called)]
        exact called
      · obtain rfl := List.mem_singleton.1 entry
        obtain ⟨c, call, home⟩ := refunds
        obtain ⟨_, t₁, _, _, ht₁, called⟩ := refund_calledOff effect call home
        obtain rfl := Option.some.inj (ht'.symm.trans ht₁)
        exact called
    · intro open_
      have open_before : ¬ terminal t.status := fun ended => open_ (status.terminal ended ▸ ended)
      rcases effect_paid effect ht with same | ⟨_, t₁, ht₁, ended⟩
      · exact same.trans (unpaid open_before)
      · obtain rfl := Option.some.inj (ht'.symm.trans ht₁)
        exact absurd ended open_

theorem settles_active {b : Action} (wf : Wellformed s) (settles : Settles key (s, b)) (step : Step rt s b s') :
    ∃ t, (viewOf s key).record = some t ∧ t.status = .active := by
  obtain ⟨_, _, _, t, _, _, _, _, _, paid⟩ := settles_paidOut wf settles step
  exact ⟨t, paid.record, paid.running⟩

theorem refunds_unsettled {b : Action} (wf : Wellformed s) (hk : key.isTournament = true)
    (refunds : RefundsOf key (s, b)) (step : Step rt s b s') :
    ∃ t, (viewOf s key).record = some t ∧ t.status ≠ .completed := by
  obtain ⟨c, call, home⟩ := refunds
  obtain ⟨t, _, ht, unsettled, _⟩ := refund_calledOff (step_effect wf hk step) call home
  exact ⟨t, ht, unsettled⟩

/-- After the final nothing is settled or refunded any more. -/
theorem Lifetime.after_final (lifetime : Lifetime rt a born start past s)
    (split : past = before ++ (s', b) :: after) (settled : ∃ e ∈ before, Settles a.key e) :
    ¬ Settles a.key (s', b) ∧ ¬ RefundsOf a.key (s', b) := by
  obtain ⟨life, next, step, _⟩ := lifetime.at_entry split
  obtain ⟨t, ht⟩ := life.record
  have completed := (life_ended life ht).1 settled
  constructor
  · intro settles
    obtain ⟨t', ht', active⟩ := settles_active life.wf settles step
    obtain rfl := Option.some.inj (ht.symm.trans ht')
    simp [completed] at active
  · intro refunds
    obtain ⟨t', ht', unsettled⟩ := refunds_unsettled life.wf (key_isTournament a) refunds step
    obtain rfl := Option.some.inj (ht.symm.trans ht')
    exact unsettled completed

/-- After a refund the final is not settled any more. -/
theorem Lifetime.after_refund (lifetime : Lifetime rt a born start past s)
    (split : past = before ++ (s', b) :: after) (refunded : ∃ e ∈ before, RefundsOf a.key e) :
    ¬ Settles a.key (s', b) := by
  obtain ⟨life, next, step, _⟩ := lifetime.at_entry split
  obtain ⟨t, ht⟩ := life.record
  have called := (life_ended life ht).2.1 refunded
  intro settles
  obtain ⟨t', ht', active⟩ := settles_active life.wf settles step
  obtain rfl := Option.some.inj (ht.symm.trans ht')
  rcases called with hst | hst <;> simp [hst] at active

theorem settles_unrefunded {e : Ledger × Action} (settles : Settles key e) : ¬ RefundsOf key e := by
  obtain ⟨ix, _, _, _, call, finalize, _⟩ := settles
  rintro ⟨c, refund, _⟩
  rw [call, refundCall_finalize finalize] at refund
  cases refund

/-- The final and a refund exclude each other. -/
theorem Lifetime.exclusive (lifetime : Lifetime rt a born start past s) {e e' : Ledger × Action}
    (entry : e ∈ past) (entry' : e' ∈ past) (settles : Settles a.key e) : ¬ RefundsOf a.key e' := by
  intro refunds
  obtain ⟨q, b⟩ := e
  obtain ⟨before, after, rfl⟩ := List.append_of_mem entry
  rcases List.mem_append.1 entry' with earlier | later
  · exact lifetime.after_refund rfl ⟨e', earlier, refunds⟩ settles
  · rcases List.mem_cons.1 later with rfl | later
    · exact settles_unrefunded settles refunds
    · obtain ⟨mid, rest, rfl⟩ := List.append_of_mem later
      obtain ⟨p, c⟩ := e'
      have split : before ++ (q, b) :: (mid ++ (p, c) :: rest) = (before ++ (q, b) :: mid) ++ (p, c) :: rest := by
        simp
      exact (lifetime.after_final split ⟨(q, b), by simp, settles⟩).2 refunds

/-- Nobody is paid after the final. -/
theorem Lifetime.paid_after (lifetime : Lifetime rt a born start past s) {next : Ledger}
    (split : past = before ++ (s', b) :: after) (settles : Settles a.key (s', b)) (step : Step rt s' b next) :
    (viewOf s a.key).paid = (viewOf next a.key).paid := by
  obtain ⟨_, next', step', rest⟩ := lifetime.at_entry split
  obtain rfl : next = next' := Except.ok.inj (step.symm.trans step')
  have later (mid tail : History) (p : Ledger) (c : Action) (inside : after = mid ++ (p, c) :: tail) :
      Life rt a born start (before ++ (s', b) :: mid) p := by
    have split' : past = (before ++ (s', b) :: mid) ++ (p, c) :: tail := by
      rw [split, inside]
      simp
    exact (lifetime.at_entry split').1
  clear lifetime split step step'
  generalize hq : next = q at rest
  induction rest with
  | nil => rfl
  | @snoc mid p c r run taken ih =>
      have life := later mid [] p c rfl
      obtain ⟨t, ht⟩ := life.record
      have completed := (life_ended life ht).1 ⟨(s', b), by simp, settles⟩
      have before_ := ih fun mid' tail q d inside => later mid' (tail ++ [(p, c)]) q d (by rw [inside]; simp)
      rcases effect_paid (step_effect life.wf (key_isTournament a) taken) ht with same | ⟨unsettled, _⟩
      · exact same.trans before_
      · exact absurd completed unsettled

theorem paymentsOf_moves {transfers moves : List Transfer} (own : ∀ x ∈ moves, x.source = .vault key) :
    paymentsOf key (transfers ++ moves) = paymentsOf key transfers ++ moves.map fun x => (x.recipient, x.amount) := by
  have all : moves.filter (fun x => x.source = .vault key) = moves := by
    simpa using own
  rw [paymentsOf, List.filter_append, List.map_append, all, paymentsOf]

theorem Lifetime.life (lifetime : Lifetime rt a born start past s) (open_ : (s.tournament? a.key).isSome = true) :
    Life rt a born start past s := by
  refine ⟨lifetime.reachable, lifetime.created, lifetime.run, ?_⟩
  rintro q (rfl | ⟨b, hb⟩)
  · exact open_
  · exact lifetime.kept _ hb

theorem Lifetime.ended (lifetime : Lifetime rt a born start past s) (split : past = before ++ (s', b) :: after)
    {p : Ledger} {t' : Tournament} (visited : Visits after s p) (ht : s'.tournament? a.key = some t)
    (ended : terminal t.status) (ht' : p.tournament? a.key = some t') : t'.status = t.status := by
  rcases visited with rfl | ⟨c, hc⟩
  · have life := lifetime.life (Option.isSome_iff_exists.2 ⟨t', ht'⟩)
    exact (life.course.from_entry split).2.ended ht ended ht'
  · obtain ⟨mid, rest, rfl⟩ := List.append_of_mem hc
    have split' : past = (before ++ (s', b) :: mid) ++ (p, c) :: rest := by
      rw [split]
      simp
    exact ((lifetime.at_entry split').1.course.from_entry rfl).2.ended ht ended ht'

/-- The pool is paid out once, in full, and never next to refunds. -/
theorem pool_paid_once (lifetime : Lifetime rt a born start past s) :
    (∀ before e after, past = before ++ e :: after → Settles a.key e → ∀ e' ∈ before, ¬ Settles a.key e') ∧
    (∀ before q b after next, past = before ++ (q, b) :: after → Settles a.key (q, b) → Step rt q b next →
      ∃ ix moves c t m cfg u winner, b = .call ix ∧ PaidOut a.key ix q next moves c t m cfg u winner ∧
        paymentsOf a.key s.transfers =
          paymentsOf a.key born.transfers ++ moves.map fun x => (x.recipient, x.amount)) ∧
    (∀ e ∈ past, ∀ e' ∈ past, Settles a.key e → ¬ RefundsOf a.key e') ∧
    ∀ before q b after p t t', past = before ++ (q, b) :: after → Visits after s p →
      q.tournament? a.key = some t → terminal t.status → p.tournament? a.key = some t' →
      t'.status = t.status := by
  refine ⟨?_, ?_, ?_, ?_⟩
  · rintro before ⟨q, b⟩ after split settles e' earlier settles'
    exact (lifetime.after_final split ⟨e', earlier, settles'⟩).1 settles
  · intro before q b after next split settles step
    have life := (lifetime.at_entry split).1
    obtain ⟨ix, moves, c, t, m, cfg, u, winner, call, paid⟩ := settles_paidOut life.wf settles step
    refine ⟨ix, moves, c, t, m, cfg, u, winner, call, paid, ?_⟩
    have unpaid := (life_ended life paid.record).2.2 (by simp [terminal, paid.running])
    have last := lifetime.paid_after split settles step
    rw [show (viewOf next a.key).paid = paymentsOf a.key next.transfers from rfl, paid.logged,
      paymentsOf_moves fun x hx => (paid.shares.listed x hx).1] at last
    exact last.trans (congrArg (· ++ _) unpaid)
  · intro e entry e' entry' settles
    exact lifetime.exclusive entry entry' settles
  · intro before q b after p t t' split visited ht ended ht'
    exact lifetime.ended split visited ht ended ht'

end Lifetimes

/-- The final is conceded, and anyone closes the empty vault and the root. -/
def concededClosed : List Action :=
  proposedBy3 sampleTournament.key ++ [concede sampleTournament.key,
    .call (.closeTournament ⟨.key 5, sampleTournament.key, .key 1, true, []⟩)]

theorem concededClosed_lifetime : Lifetime sampleRuntime sampleTournament sampleBorn
    (created sampleRuntime sampleTournament sampleBorn)
    (log sampleRuntime (created sampleRuntime sampleTournament sampleBorn) concededClosed)
    (after sampleRuntime (created sampleRuntime sampleTournament sampleBorn) concededClosed) := by
  refine ⟨sampleBorn_reachable, created_step rfl, script_run _ _, ?_⟩
  have kept : ((log sampleRuntime (created sampleRuntime sampleTournament sampleBorn) concededClosed).all
      fun e => (e.1.tournament? sampleTournament.key).isSome) = true := by decide
  exact List.all_eq_true.1 kept

theorem concededClosed_paid : ∃ past s ix q next moves c t m cfg u winner,
    Lifetime sampleRuntime sampleTournament sampleBorn (created sampleRuntime sampleTournament sampleBorn) past s ∧
    s.tournament? sampleTournament.key = none ∧ Visits past s q ∧
    PaidOut sampleTournament.key ix q next moves c t m cfg u winner := by
  have paid := (pool_paid_once concededClosed_lifetime).2.1
    (log sampleRuntime (created sampleRuntime sampleTournament sampleBorn) (proposedBy3 sampleTournament.key))
    (after sampleRuntime (created sampleRuntime sampleTournament sampleBorn) (proposedBy3 sampleTournament.key))
    (concede sampleTournament.key) _ (after sampleRuntime (created sampleRuntime sampleTournament sampleBorn)
      (proposedBy3 sampleTournament.key ++ [concede sampleTournament.key])) rfl
    ⟨_, _, _, _, rfl, rfl, rfl, rfl, rfl, by decide⟩ rfl
  obtain ⟨ix, moves, c, t, m, cfg, u, winner, _, paid, _⟩ := paid
  exact ⟨_, _, ix, _, _, moves, c, t, m, cfg, u, winner, concededClosed_lifetime, rfl,
    script_visits _ _ [concede sampleTournament.key,
      .call (.closeTournament ⟨.key 5, sampleTournament.key, .key 1, true, []⟩)], paid⟩

end BracketChain.Prizes
