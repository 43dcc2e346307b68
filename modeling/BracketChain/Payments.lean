import BracketChain.Announcements
import BracketChain.Irrevocable

namespace BracketChain.Payments

open Outcome Keys Records Accounts Payout Registration Settlement Envelope Refunds Program Runs Layout View Lifecycle
  RefundEffects Refinement Lives Bookkeeping Matches Confluence Prizes Irrevocable Events Emissions Announcements
  Scripts

variable {rt : Runtime} {key : Pubkey} {clock : Clock} {v v' : TournamentView} {b : Action} {events : List Event}

theorem payments_nil {es : List Event} (h : ∀ e ∈ es, Event.payments e = []) : es.flatMap Event.payments = [] :=
  List.flatMap_eq_nil_iff.2 h

theorem closingOf_payments (now : Int) (ix : Instruction) (m : MatchNode) :
    (closingOf now ix key m).flatMap Event.payments = [] :=
  payments_nil fun e he => (closingOf_about e he).2.1

theorem editOf_payments (now : Int) (ix : Instruction) (m : MatchNode) :
    (editOf now ix m).flatMap Event.payments = [] :=
  payments_nil fun e he => (editOf_about e he).2.1

theorem entrants_nil {es : List Event} (h : ∀ e ∈ es, Event.entrant? e = none) : es.filterMap Event.entrant? = [] :=
  List.filterMap_eq_nil_iff.2 h

theorem closingOf_entrants (now : Int) (ix : Instruction) (m : MatchNode) :
    (closingOf now ix key m).filterMap Event.entrant? = [] :=
  entrants_nil fun e he => (closingOf_about e he).2.2

theorem editOf_entrants (now : Int) (ix : Instruction) (m : MatchNode) :
    (editOf now ix m).filterMap Event.entrant? = [] :=
  entrants_nil fun e he => (editOf_about e he).2.2

theorem refundEvents_entrants (payments : List (Pubkey × Nat)) :
    (refundEvents key payments).filterMap Event.entrant? = [] :=
  entrants_nil (List.forall_mem_map.2 fun _ _ => rfl)

theorem effect_others (effect : Effect rt key clock b v v') (other : b.tournament ≠ some key) :
    ∃ k, v' = v.credit k := by
  cases effect with
  | others k => exact ⟨k, rfl⟩
  | edit _ _ _ call key_eq => exact absurd ((edit_tournament call).trans (congrArg some key_eq)) other
  | advance _ _ _ _ finalizes | conclude _ _ _ _ _ finalizes =>
      exact absurd ((finalize_tournament finalizes.call).trans (congrArg some finalizes.key_eq)) other
  | refund _ _ key_eq _ _ _ refunding =>
      exact absurd ((refundCall_tournament (refundCall_refunding refunding)).trans (congrArg some key_eq)) other
  | create _ key_eq | join _ key_eq | requestSeed _ key_eq | revealSeed _ key_eq | start _ key_eq
  | partialCancel _ key_eq | closeChildren _ key_eq | closeRoot _ key_eq =>
      exact absurd (congrArg some key_eq) other

/-- Apart from the calls that finalize or refund, nothing is paid. -/
theorem effect_unpaid (effect : Effect rt key clock b v v') (playing : ∀ ix, b = .call ix → Instruction.finalize? ix = none)
    (keeping : refundCall? b = none) : v'.paid = v.paid := by
  cases effect with
  | conclude ix _ _ _ _ finalizes => exact absurd finalizes.call (by simp [playing ix rfl])
  | refund _ _ _ _ _ _ refunding => exact absurd (refundCall_refunding refunding) (by simp [keeping])
  | _ => rfl

/-- The events of a step tell all its payments. -/
theorem announces_paid (effect : Effect rt key clock b v v') (h : Announces key clock v v' b events) :
    v'.paid = v.paid ++ events.flatMap Event.payments := by
  cases h with
  | others other =>
      obtain ⟨k, rfl⟩ := effect_others effect other
      exact (List.append_nil _).symm
  | reported ix _ _ _ _ pays =>
      rw [List.flatMap_cons, closingOf_payments]
      exact pays.paid
  | completed ix _ _ _ _ _ _ pays =>
      rw [List.flatMap_cons, List.flatMap_cons, closingOf_payments, List.append_nil]
      exact pays.paid
  | cancelled _ _ _ pays =>
      rw [List.flatMap_append, refundEvents_payments, pays.paid]
      split <;> rfl
  | refunded _ _ pays => rw [refundEvents_payments, pays.paid]
  | edited ix _ _ call =>
      rw [editOf_payments, List.append_nil]
      refine effect_unpaid effect (fun ix' same => ?_) (refundCall_edit call)
      obtain rfl := Action.call.inj same
      exact finalize?_of_edit call
  | started =>
      have same := effect_unpaid effect (fun ix same => by cases same; rfl) rfl
      split <;> exact same.trans (List.append_nil _).symm
  | _ =>
      exact (effect_unpaid effect (fun ix same => by cases same; rfl) rfl).trans (List.append_nil _).symm

/-- What the vaults have paid is what the events of a run tell, payment by
payment. -/
theorem payments_announced {start s : Ledger} {past : History} (genesis : Genesis start) (run : Run rt start past s)
    (hk : key.isTournament = true) : paymentsOf key s.transfers = announced key (eventLog rt past) := by
  induction run with
  | nil => rw [genesis.transfers]; rfl
  | @snoc past s b s' run step ih =>
      have wf := run_wellformed (genesis_wellformed genesis) run
      have paid := announces_paid (step_effect wf hk step) (step_announces wf step)
      rw [eventLog_snoc, announced_append, ← ih]
      exact paid

/-- Two players, and the final conceded. -/
def concededFinal : List Action := proposedBy3 sampleTournament.key ++ [concede sampleTournament.key]

theorem concededFinal_announced :
    announced sampleTournament.key (eventLog sampleRuntime (log sampleRuntime sampleGenesis
      ([sampleInit, .call (.createTournament sampleTournament)] ++ concededFinal))) = [(.key 3, 104), (.key 8, 3)] := by
  rw [← payments_announced sampleGenesis_genesis (script_run sampleGenesis _) rfl]
  rfl

section Reconciled

/-- The wallets that the events of a log say were registered, in order. -/
def registrations (key : Pubkey) (log : List Event) : List Pubkey :=
  (log.filter fun e => e.tournament = key).filterMap Event.entrant?

theorem registrations_append (log more : List Event) :
    registrations key (log ++ more) = registrations key log ++ registrations key more := by
  rw [registrations, List.filter_append, List.filterMap_append]
  rfl

/-- What a step on something else moves into the vault of a tournament. -/
def sentBy (rt : Runtime) (key : Pubkey) (e : Ledger × Action) : Nat :=
  if e.2.tournament = some key then 0
  else match e.2.run rt e.1 with
    | .ok s' => vaultAmount s' key - vaultAmount e.1 key
    | .error _ => 0

def sentTo (rt : Runtime) (key : Pubkey) (past : History) : Nat := (past.map (sentBy rt key)).sum

variable {t : Tournament} {u : TokenAccount}

/-- Apart from joins, and from the calls that finalize or refund, the vault of
an open tournament is left alone. -/
theorem effect_vault (effect : Effect rt key clock b v v') (own : b.tournament = some key)
    (ht : v.record = some t) (open_ : v'.record.isSome = true)
    (playing : ∀ ix, b = .call ix → Instruction.finalize? ix = none) (keeping : refundCall? b = none)
    (late : ∀ c, b ≠ .call (.joinTournament c)) : v'.vault = v.vault := by
  cases effect with
  | others _ other => exact absurd own other
  | create _ _ _ unopened => simp [ht] at unopened
  | join c => exact absurd rfl (late c)
  | advance ix _ _ _ finalizes | conclude ix _ _ _ _ finalizes =>
      exact absurd finalizes.call (by simp [playing ix rfl])
  | refund _ _ _ _ _ _ refunding => exact absurd (refundCall_refunding refunding) (by simp [keeping])
  | closeRoot => cases open_
  | _ => rfl

/-- What a step takes out of the vault, brings in as a fee, or is sent. -/
theorem announces_vault (effect : Effect rt key clock b v v') (h : Announces key clock v v' b events)
    (ht : v.record = some t) (open_ : v'.record.isSome = true) (hu : v.vault = some u)
    (away : ∀ x ∈ events.flatMap Event.payments, x.1 ≠ key) :
    ∃ u', v'.vault = some u' ∧ u'.amount + total (events.flatMap Event.payments) = u.amount +
      t.entryFee * (events.filterMap Event.entrant?).length +
      if b.tournament = some key then 0 else u'.amount - u.amount := by
  rcases announces_own h with own | ⟨other, rfl⟩
  swap
  · obtain ⟨k, rfl⟩ := effect_others effect other
    exact ⟨TokenAccount.plus u k, by simp [TournamentView.credit, hu], by simp [other, TokenAccount.plus]⟩
  have paid {payments : List (Pubkey × Nat)} (pays : Disburses key v v' payments)
      (told : events.flatMap Event.payments = payments) (unjoined : events.filterMap Event.entrant? = []) :
      ∃ u', v'.vault = some u' ∧ u'.amount + total (events.flatMap Event.payments) = u.amount +
        t.entryFee * (events.filterMap Event.entrant?).length +
        if b.tournament = some key then 0 else u'.amount - u.amount := by
    obtain ⟨u', hu', taken⟩ := pays.vault (told ▸ away) u hu
    exact ⟨u', hu', by simp [told, unjoined, own, taken]⟩
  have kept (playing : ∀ ix, b = .call ix → Instruction.finalize? ix = none) (keeping : refundCall? b = none)
      (late : ∀ c, b ≠ .call (.joinTournament c)) (unpaid : events.flatMap Event.payments = [])
      (unjoined : events.filterMap Event.entrant? = []) :=
    paid ⟨(effect_unpaid effect playing keeping).trans (List.append_nil _).symm, fun _ u₁ hu₁ =>
      ⟨u₁, (effect_vault effect own ht open_ playing keeping late).trans hu₁, rfl⟩⟩ unpaid unjoined
  cases h with
  | others other => exact absurd own other
  | registered c =>
      cases effect with
      | others _ other => exact absurd own other
      | join _ _ _ _ record vault =>
          obtain rfl := Option.some.inj (ht.symm.trans record)
          obtain rfl := Option.some.inj (hu.symm.trans vault)
          exact ⟨_, rfl, by simp [registered, Event.payments, Event.entrant?, own, TokenAccount.plus]⟩
      | edit _ _ _ call => cases call
      | advance _ _ _ _ finalizes | conclude _ _ _ _ _ finalizes => cases finalizes.call
      | refund _ _ _ _ _ _ refunding => cases refunding
  | reported ix _ _ _ _ pays =>
      exact paid pays (by rw [List.flatMap_cons, closingOf_payments]; rfl)
        (by rw [List.filterMap_cons_none rfl, closingOf_entrants])
  | completed ix _ _ _ _ _ _ pays =>
      exact paid pays (by rw [List.flatMap_cons, List.flatMap_cons, closingOf_payments, List.append_nil]; rfl)
        (by rw [List.filterMap_cons_none rfl, List.filterMap_cons_none rfl, closingOf_entrants])
  | cancelled _ _ _ pays =>
      refine paid pays ?_ ?_
      · rw [List.flatMap_append, refundEvents_payments]
        split <;> rfl
      · rw [List.filterMap_append, refundEvents_entrants]
        split <;> rfl
  | refunded _ _ pays => exact paid pays (refundEvents_payments _) (refundEvents_entrants _)
  | edited ix _ _ call =>
      refine kept (fun ix' same => ?_) (refundCall_edit call) ?_ (editOf_payments _ ix _) (editOf_entrants _ ix _)
      · obtain rfl := Action.call.inj same
        exact finalize?_of_edit call
      · rintro c same
        obtain rfl := Action.call.inj same
        cases call
  | started =>
      refine kept (fun ix same => by cases same; rfl) rfl (fun _ same => by cases same) ?_ ?_ <;> split <;> rfl
  | _ => exact kept (fun ix same => by cases same; rfl) rfl (fun _ same => by cases same) rfl rfl

variable {a : CreateTournament} {born start s : Ledger} {past : History}

/-- What is in the vault, and what the events say it paid, is the deposit, the
fees of those the events say were registered, and what others sent. -/
theorem vault_reconciled (life : Life rt a born start past s)
    (away : ∀ x ∈ announced a.key (eventLog rt past), x.1 ≠ a.key) :
    vaultAmount s a.key + total (announced a.key (eventLog rt past)) = a.organizerDeposit +
      a.entryFee * (registrations a.key (eventLog rt past)).length + sentTo rt a.key past := by
  suffices h : (∀ x ∈ announced a.key (eventLog rt past), x.1 ≠ a.key) → ∃ u, (viewOf s a.key).vault = some u ∧
      u.amount + total (announced a.key (eventLog rt past)) = a.organizerDeposit +
        a.entryFee * (registrations a.key (eventLog rt past)).length + sentTo rt a.key past by
    obtain ⟨u, hu, balanced⟩ := h away
    rw [vaultAmount, show s.token? (.vault a.key) = some u from hu]
    exact balanced
  refine life.invariant (P := fun past s => (∀ x ∈ announced a.key (eventLog rt past), x.1 ≠ a.key) →
    ∃ u, (viewOf s a.key).vault = some u ∧ u.amount + total (announced a.key (eventLog rt past)) =
      a.organizerDeposit + a.entryFee * (registrations a.key (eventLog rt past)).length + sentTo rt a.key past) ?_ ?_
  · intro _
    exact ⟨⟨a.tokenMint, a.key, a.organizerDeposit, false⟩, by rw [life.start_view.2.2], rfl⟩
  · intro past s b s' earlier ih step effect later away
    rw [eventLog_snoc, announced_append] at away
    obtain ⟨u, hu, balanced⟩ := ih fun x hx => away x (List.mem_append_left _ hx)
    obtain ⟨t, ht⟩ := earlier.record
    have fee : t.entryFee = a.entryFee := (earlier.course.terms life.start_record ht).entryFee
    obtain ⟨u', hu', moved⟩ := announces_vault effect (step_announces earlier.wf step) ht
      (Option.isSome_iff_exists.2 later.record) hu fun x hx => away x (List.mem_append_right _ hx)
    refine ⟨u', hu', ?_⟩
    have sent : sentBy rt a.key (s, b) = if b.tournament = some a.key then 0 else u'.amount - u.amount := by
      have after_ : b.run rt s = .ok s' := step
      have held : vaultAmount s a.key = u.amount := by rw [vaultAmount, show s.token? (.vault a.key) = some u from hu]; rfl
      have held' : vaultAmount s' a.key = u'.amount := by rw [vaultAmount, show s'.token? (.vault a.key) = some u' from hu']; rfl
      simp only [sentBy, after_, held, held']
    rw [eventLog_snoc, announced_append, registrations_append, total_append, List.length_append, Nat.mul_add,
      sentTo, List.map_append, List.sum_append, List.map_singleton, List.sum_singleton, sent, ← sentTo]
    rw [fee] at moved
    simp only [announced, registrations] at balanced moved ⊢
    omega

theorem concededFinal_reconciled : ∃ s log sent, vaultAmount s sampleTournament.key = 0 ∧
    registrations sampleTournament.key log = [.key 2, .key 3] ∧
    vaultAmount s sampleTournament.key + total (announced sampleTournament.key log) =
      7 + 50 * (registrations sampleTournament.key log).length + sent := by
  have reconciled := vault_reconciled conceded_life (by decide)
  exact ⟨_, _, _, rfl, rfl, reconciled⟩

end Reconciled

end BracketChain.Payments
