import BracketChain.Closing

namespace BracketChain.Surplus

open Outcome Keys Records Accounts Registration Start Refunds Program Runs Layout View Lifecycle Refinement Lives
  Bookkeeping Enrolment Entitlement Solvency Conservation Frames Unwinding Closing Scripts

variable {rt : Runtime} {key anyone : Pubkey} {clock : Clock} {v v' : TournamentView} {b : Action} {t t' : Tournament}
  {ws : List Pubkey} {u : TokenAccount}

/-- The participant is open and not refunded. -/
def unpaid (p : Pubkey → Option Participant) (w : Pubkey) : Bool := (p w).elim false fun x => !x.refundPaid

/-- What refund calls can still take out of the vault: the entry fees of the
wallets whose participants are open and unpaid, and the deposit. Once the
tournament is completed there is nothing. -/
def payable (p : Pubkey → Option Participant) (t : Tournament) (ws : List Pubkey) : Nat :=
  if t.status = .completed then 0
  else t.entryFee * (ws.filter (unpaid p)).length + if t.organizerDepositRefunded then 0 else t.organizerDeposit

section Steps

variable {p p' : Pubkey → Option Participant}

theorem unpaid_iff {w : Pubkey} : unpaid p w = true ↔ ∃ x, p w = some x ∧ x.refundPaid = false := by
  unfold unpaid
  cases p w <;> simp

/-- Refunds take those they pay from the unpaid. -/
theorem unpaid_refunded {paid : List Pubkey} (distinct : ws.Nodup) (once : paid.Nodup) (listed : paid ⊆ ws)
    (owed : ∀ w ∈ paid, unpaid p w = true) :
    (ws.filter (unpaid (refundAll paid p))).length + paid.length = (ws.filter (unpaid p)).length := by
  have left : ws.filter (unpaid (refundAll paid p)) = (ws.filter (unpaid p)).filter fun w => !decide (w ∈ paid) := by
    rw [List.filter_filter]
    apply List.filter_congr
    intro w _
    rw [Bool.eq_iff_iff, Bool.and_eq_true, unpaid_iff, unpaid_iff, Confluence.unpaid_after]
    simp
  have gone : (ws.filter (unpaid p)).filter (fun w => decide (w ∈ paid)) |>.Perm paid := by
    rw [List.perm_ext_iff_of_nodup ((distinct.filter _).filter _) once]
    intro w
    simp only [List.mem_filter, decide_eq_true_eq]
    exact ⟨fun h => h.2, fun h => ⟨⟨listed h, owed w h⟩, h⟩⟩
  rw [left, ← gone.length_eq, Nat.add_comm]
  exact (List.length_eq_length_filter_add _).symm

theorem payable_without {closed : List Pubkey} {v : TournamentView} :
    payable (TournamentView.without key closed v).participant t ws ≤ payable v.participant t ws := by
  have fewer : (ws.filter (unpaid (TournamentView.without key closed v).participant)).length ≤
      (ws.filter (unpaid v.participant)).length := by
    apply (List.monotone_filter_right ws _).length_le
    intro w
    rw [unpaid_iff, unpaid_iff]
    rintro ⟨x, hx, due⟩
    simp only [TournamentView.without] at hx
    split at hx
    · cases hx
    · exact ⟨x, hx, due⟩
  unfold payable
  split
  · exact Nat.le_refl 0
  · exact Nat.add_le_add_right (Nat.mul_le_mul_left _ fewer) _

/-- What a step of an ended tournament does to its vault: what lies there above
the payable does not become less, and stays the same in calls on the tournament
that close no children. -/
structure Keeps (key : Pubkey) (b : Action) (v v' : TournamentView) (t t' : Tournament) (ws : List Pubkey)
    (u u' : TokenAccount) : Prop where
  vault : v'.vault = some u'
  surplus : payable v'.participant t' ws + u.amount ≤ payable v.participant t ws + u'.amount
  same : b.tournament = some key → (∀ c, b ≠ .call (.closeTournament c)) →
    payable v'.participant t' ws + u.amount = payable v.participant t ws + u'.amount
  late : joinedBy key b = []

theorem payable_of_unsettled (unsettled : t.status ≠ .completed) :
    payable p t ws = t.entryFee * (ws.filter (unpaid p)).length +
      if t.organizerDepositRefunded then 0 else t.organizerDeposit := if_neg unsettled

/-- A refund call takes from the payable what it pays. -/
theorem payable_refunded {c : CancelTournament} {ix : Instruction} {paid : List Pubkey} (refunding : Refunding t c t' ix)
    (distinct : ws.Nodup) (once : paid.Nodup) (listed : paid ⊆ ws) (owed : ∀ w ∈ paid, unpaid p w = true) :
    payable (refundAll paid p) (if CancelTournament.returnsDeposit c t' then Tournament.depositReturned t' else t') ws +
      total (refunds t (CancelTournament.returnsDeposit c t') paid) = payable p t ws := by
  obtain ⟨status, rfl, unsettled, ended⟩ := refunding_status refunding
  have unsettled' : status ≠ .completed := by
    rcases refunding_cases refunding with ⟨same, _⟩ | ⟨same, halted⟩
    · obtain rfl : status = .cancelled := congrArg Tournament.status same
      simp
    · obtain rfl : status = t.status := congrArg Tournament.status same
      simp [halted]
  have fees : t.entryFee * (ws.filter (unpaid (refundAll paid p))).length + t.entryFee * paid.length =
      t.entryFee * (ws.filter (unpaid p)).length := by
    rw [← Nat.mul_add, unpaid_refunded distinct once listed owed]
  have deposit := returnsDeposit_once c { t with status := status }
  rw [payable_of_unsettled unsettled, total_refunds]
  cases returns : CancelTournament.returnsDeposit c { t with status := status } with
  | true =>
      have open_ : t.organizerDepositRefunded = false := deposit.resolve_right (by simp [returns])
      rw [if_pos rfl, payable_of_unsettled (t := Tournament.depositReturned { t with status := status }) unsettled']
      simp only [Tournament.depositReturned, open_, if_true, Bool.false_eq_true, if_false]
      omega
  | false =>
      rw [if_neg Bool.false_ne_true, payable_of_unsettled (t := { t with status := status }) unsettled']
      simp only [Bool.false_eq_true, if_false]
      omega

theorem effect_keeps (effect : Effect rt key clock b v v') (ht : v.record = some t) (ht' : v'.record = some t')
    (ended : terminal t.status) (hu : v.vault = some u) (distinct : ws.Nodup)
    (all : ∀ w x, v.participant w = some x → x.refundPaid = false → w ∈ ws) : ∃ u', Keeps key b v v' t t' ws u u' := by
  have same {t₁ : Tournament} (h₁ : v.record = some t₁) : t = t₁ := Option.some.inj (ht.symm.trans h₁)
  have quiet (vault : v'.vault = v.vault) (none_ : payable v'.participant t' ws = payable v.participant t ws)
      (late : joinedBy key b = []) : ∃ u', Keeps key b v v' t t' ws u u' :=
    ⟨u, vault.trans hu, by rw [none_], fun _ _ => by rw [none_], late⟩
  cases effect with
  | others k other =>
      obtain rfl := same ht'
      exact ⟨TokenAccount.plus u k, by simp [TournamentView.credit, hu], Nat.add_le_add_left (Nat.le_add_right _ k) _,
        fun own => absurd own other, joinedBy_other other⟩
  | create _ _ _ unopened => simp [ht] at unopened
  | join _ _ _ _ record _ _ open_ | requestSeed _ _ record _ open_ | partialCancel _ _ record _ open_ =>
      obtain rfl := same record
      simp [terminal, open_] at ended
  | start _ _ record _ opens =>
      obtain rfl := same record
      rcases (opens_status opens).1 with before | before <;> simp [terminal, before] at ended
  | advance _ _ _ _ finalizes | conclude _ _ _ _ _ finalizes =>
      obtain rfl := same finalizes.record
      simp [terminal, finalizes.running] at ended
  | revealSeed _ _ _ record =>
      obtain rfl := same record
      obtain rfl := Option.some.inj ht'
      exact quiet rfl rfl rfl
  | edit _ _ _ call =>
      obtain rfl := same ht'
      exact quiet rfl rfl (joinedBy_edit call)
  | @refund _ ix c _ _ t₁ u₁ paid record vault refunding owed funded =>
      obtain rfl := same record
      obtain rfl := Option.some.inj ht'
      obtain rfl := Option.some.inj (hu.symm.trans vault)
      have due : ∀ w ∈ paid, unpaid v.participant w = true := fun w hw => unpaid_iff.2 (owed.unpaid w hw)
      have taken := payable_refunded (p := v.participant) refunding distinct owed.distinct (fun w hw => ?_) due
      · have exact_ : payable (refundAll paid v.participant)
            (if CancelTournament.returnsDeposit c t₁ then Tournament.depositReturned t₁ else t₁) ws + u.amount =
              payable v.participant t ws + (u.amount - total (refunds t (CancelTournament.returnsDeposit c t₁) paid)) := by
          omega
        exact ⟨_, rfl, Nat.le_of_eq exact_, fun _ _ => exact_, joinedBy_refund refunding⟩
      · obtain ⟨x, hx, open_⟩ := owed.unpaid w hw
        exact all w x hx open_
  | closeChildren c key_eq closed =>
      obtain rfl := same ht'
      exact ⟨u, hu, Nat.add_le_add_right payable_without _, fun _ open_ => absurd rfl (open_ c), rfl⟩
  | closeRoot => cases ht'

/-- A record goes only with an empty vault. -/
theorem effect_stands (effect : Effect rt key clock b v v') (ht : v.record = some t) (hu : v.vault = some u)
    (held : 0 < u.amount) : ∃ t', v'.record = some t' := by
  cases effect with
  | others | closeChildren | edit => exact ⟨t, ht⟩
  | create | join | requestSeed | revealSeed | start | advance | conclude | refund | partialCancel => exact ⟨_, rfl⟩
  | closeRoot _ _ _ _ vault _ _ _ empty =>
      obtain rfl := Option.some.inj (hu.symm.trans vault)
      omega

end Steps

section Life

variable {a : CreateTournament} {born start s s' : Ledger} {past more : History}

theorem vaultAmount_eq (hu : (viewOf s key).vault = some u) : vaultAmount s key = u.amount := by
  rw [vaultAmount, show s.token? (.vault key) = some u from hu]
  rfl

/-- What the refunds of a life can still take out of its vault. -/
def debt (a : CreateTournament) (past : History) (s : Ledger) (t : Tournament) : Nat :=
  payable (viewOf s a.key).participant t (joins a.key past)

theorem debt_covered (life : Life rt a born start past s) (fresh : Fresh a.key born) (ht : s.tournament? a.key = some t) :
    debt a past s t ≤ vaultAmount s a.key := by
  by_cases settled : t.status = .completed
  · rw [debt, payable, if_pos settled]
    exact Nat.zero_le _
  · obtain ⟨refunded, sent, t₁, kept⟩ := life_fresh_books life fresh
    obtain rfl : t = t₁ := Option.some.inj (ht.symm.trans kept.record)
    obtain ⟨u, hu, _⟩ := kept.books.held settled
    have covered := books_cover kept.books settled u ((joins a.key past).filter (unpaid (viewOf s a.key).participant)) hu
      (kept.books.joined_nodup.filter _) fun w hw => unpaid_iff.1 (List.mem_filter.1 hw).2
    rw [debt, payable_of_unsettled settled, vaultAmount_eq hu]
    rw [total_refunds] at covered
    cases returned : t.organizerDepositRefunded <;> simp [returned] at covered ⊢ <;> omega

theorem life_keeps (life : Life rt a born start past s) (fresh : Fresh a.key born) (ht : s.tournament? a.key = some t)
    (ended : terminal t.status) (step : Step rt s b s') (ht' : s'.tournament? a.key = some t') :
    debt a (past ++ [(s, b)]) s' t' + vaultAmount s a.key ≤ debt a past s t + vaultAmount s' a.key ∧
      (b.tournament = some a.key → (∀ c, b ≠ .call (.closeTournament c)) →
        debt a (past ++ [(s, b)]) s' t' + vaultAmount s a.key = debt a past s t + vaultAmount s' a.key) := by
  obtain ⟨refunded, sent, t₁, kept⟩ := life_fresh_books life fresh
  obtain ⟨u, hu⟩ := Option.isSome_iff_exists.1 kept.books.vault
  obtain ⟨u', keeps⟩ := effect_keeps (step_effect life.wf (key_isTournament a) step) ht ht' ended hu kept.books.joined_nodup
    fun w x hx open_ => (kept.books.unpaid hx open_).1
  rw [debt, debt, joins_snoc, keeps.late, List.append_nil, vaultAmount_eq hu, vaultAmount_eq keeps.vault]
  exact ⟨keeps.surplus, keeps.same⟩

/-- What lies in the vault of an ended tournament above its debt stays there,
and the tournament stays open. -/
theorem surplus_stays (life : Life rt a born start past s) (fresh : Fresh a.key born) (ht : s.tournament? a.key = some t)
    (ended : terminal t.status) (excess : debt a past s t < vaultAmount s a.key) (run : Run rt s more s') :
    ∃ t', Life rt a born start (past ++ more) s' ∧ s'.tournament? a.key = some t' ∧ terminal t'.status ∧
      debt a (past ++ more) s' t' + vaultAmount s a.key ≤ debt a past s t + vaultAmount s' a.key := by
  refine run.invariant (P := fun more s' => ∃ t', Life rt a born start (past ++ more) s' ∧
    s'.tournament? a.key = some t' ∧ terminal t'.status ∧
    debt a (past ++ more) s' t' + vaultAmount s a.key ≤ debt a past s t + vaultAmount s' a.key) ?_ ?_
  · exact ⟨t, by simpa using life, ht, ended, by simp⟩
  · rintro more m b s'' run ⟨t₁, life₁, ht₁, ended₁, grown⟩ step
    obtain ⟨refunded, sent, t₀, kept⟩ := life_fresh_books life₁ fresh
    obtain ⟨u, hu⟩ := Option.isSome_iff_exists.1 kept.books.vault
    have effect := step_effect life₁.wf (key_isTournament a) step
    have held : 0 < u.amount := by
      rw [vaultAmount_eq hu] at grown
      omega
    obtain ⟨t₂, ht₂⟩ := effect_stands effect ht₁ hu held
    have later := life₁.snoc step (Option.isSome_iff_exists.2 ⟨t₂, ht₂⟩)
    obtain ⟨grown₂, _⟩ := life_keeps life₁ fresh ht₁ ended₁ step ht₂
    rw [List.append_assoc] at later grown₂
    refine ⟨t₂, later, ht₂, ?_, by omega⟩
    rw [(effect_status effect ht₁ ht₂).terminal ended₁]
    exact ended₁

/-- Calls to undo an ended tournament leave its surplus as it is. -/
theorem unwinding_exact (life : Life rt a born start past s) (fresh : Fresh a.key born) (ht : s.tournament? a.key = some t)
    (ended : terminal t.status) (run : Run rt s more s') (kept : ∀ q, Visits more s' q → (q.tournament? a.key).isSome = true)
    (unwinds : Always (fun e => Unwinds a.key anyone e.1 e.2) more) :
    ∃ t', Life rt a born start (past ++ more) s' ∧ s'.tournament? a.key = some t' ∧ terminal t'.status ∧
      debt a (past ++ more) s' t' + vaultAmount s a.key = debt a past s t + vaultAmount s' a.key := by
  induction run with
  | nil => exact ⟨t, by simpa using life, ht, ended, by simp⟩
  | @snoc more m b s'' run step ih =>
      obtain ⟨unwinds, last⟩ := always_snoc.1 unwinds
      obtain ⟨t₁, life₁, ht₁, ended₁, same⟩ := ih (fun q hq => kept q (visits_snoc.2 (.inr hq))) unwinds
      obtain ⟨t₂, ht₂⟩ := Option.isSome_iff_exists.1 (kept s'' (.inl rfl))
      have later := life₁.snoc step (kept s'' (.inl rfl))
      obtain ⟨ix, rfl, own, open_⟩ := unwinds_call last
      have same₂ := (life_keeps life₁ fresh ht₁ ended₁ step ht₂).2 own fun c closes => open_ c (Action.call.inj closes)
      rw [List.append_assoc] at later same₂
      refine ⟨t₂, later, ht₂, ?_, by omega⟩
      rw [(effect_status (step_effect life₁.wf (key_isTournament a) step) ht₁ ht₂).terminal ended₁]
      exact ended₁

/-- Anyone can have all debts of a tournament that was called off paid. -/
theorem debts_paid (sound : Sound rt a born start past s t) (fresh : Fresh a.key born) (called : CalledOff t)
    (signs : anyone.canSign = true) : ∃ more s' t', Stretch rt a born start past s anyone more s' t' ∧ CalledOff t' ∧
      debt a (past ++ more) s' t' = 0 := by
  obtain ⟨m₁, s₁, t₁, first, called₁, deposit⟩ := deposit_returned sound fresh called signs
  obtain ⟨m₂, s₂, second, paid⟩ := entrants_refunded fresh called₁ signs
    ((joins a.key (past ++ m₁)).filter fun w => (s₁.participant? (.participant a.key w)).isSome) first.sound
    fun w hw => List.mem_filter.1 hw
  have whole := first.trans second
  refine ⟨m₁ ++ m₂, s₂, t₁, whole, called₁, ?_⟩
  obtain ⟨refunded, sent, t₂, kept⟩ := life_fresh_books whole.sound.life fresh
  have none_ : (joins a.key (past ++ (m₁ ++ m₂))).filter (unpaid (viewOf s₂ a.key).participant) = [] := by
    apply List.filter_eq_nil_iff.2
    intro w joined due
    obtain ⟨x, hx, open_⟩ := unpaid_iff.1 due
    have present : (s₁.participant? (.participant a.key w)).isSome = true :=
      (second.present w).symm.trans (Option.isSome_iff_exists.2 ⟨x, hx⟩)
    have listed : w ∈ joins a.key (past ++ m₁) := by rwa [first.entrants, ← whole.entrants]
    have marked := paid w (List.mem_filter.2 ⟨listed, present⟩)
    rw [List.append_assoc] at marked
    exact (kept.books.unpaid hx open_).2 ((kept.refunded_iff fresh w).2 marked)
  have unsettled : t₁.status ≠ .completed := by rcases called₁ with hs | hs <;> simp [hs]
  rw [debt, payable_of_unsettled unsettled, none_, List.length_nil, Nat.mul_zero, Nat.zero_add]
  split
  · rfl
  · rename_i unreturned
    by_contra owed
    exact unreturned (deposit (Nat.pos_of_ne_zero owed))

/-- Calls on a tournament leave the wallets alone, and the sum of all lamports. -/
theorem calls_keep {p : Pubkey} (wf : Wellformed s) (run : Run rt s more s')
    (calls : ∀ e ∈ more, ∃ ix, e.2 = .call ix ∧ ix.tournament ≠ none) (home : p.home = none)
    (unowned : s.accounts p = .system) (fit : LamportsFit s) : s'.accounts p = .system ∧ LamportsFit s' := by
  induction run with
  | nil => exact ⟨unowned, fit⟩
  | @snoc more m b s'' run step ih =>
      obtain ⟨unowned₁, fit₁⟩ := ih fun e he => calls e (List.mem_append_left _ he)
      obtain ⟨ix, own, some_⟩ := calls (m, b) List.mem_concat_self
      obtain rfl : b = .call ix := own
      have wf₁ := run_wellformed wf run
      obtain ⟨_, _, ran⟩ := call_ran step
      refine ⟨?_, (call_balanced wf₁ ran).2.bounded fit₁⟩
      rw [(call_framed wf₁ some_ ran).account p home (Primitives.system_plain (by rw [unowned₁]; rfl))]
      exact unowned₁

theorem root_closes (ready : Ready key t s) (signs : anyone.canSign = true) :
    ∃ more s', Run rt s more s' ∧ s'.tournament? key = none := by
  refine ⟨_, _, Run.one (root_runs ready signs), ?_⟩
  rw [Ledger.tournament?, Reclaim.drainAll_accounts, if_pos (by simp)]
  rfl

/-- A tournament that has ended can be closed, some day, exactly when its vault
holds no more than its debt. Whatever else was moved there stays there for ever,
and keeps the tournament open. -/
theorem closable_iff (life : Life rt a born start past s) (fresh : Fresh a.key born) (ht : s.tournament? a.key = some t)
    (ended : terminal t.status) (banked : Banked t.tokenMint (t.organizer :: joins a.key past) s)
    (unowned : s.accounts t.organizer = .system) (fit : LamportsFit s) :
    (∃ more s', Run rt s more s' ∧ s'.tournament? a.key = none) ↔ vaultAmount s a.key = debt a past s t := by
  have signer : t.organizer.canSign = true := (record_fits life.wf ht).2.2
  have reachable := reachable_run life.reachable (Run.one life.created |>.append life.run)
  constructor
  · rintro ⟨more, s', run, gone⟩
    by_contra excess
    have covered := debt_covered life fresh ht
    obtain ⟨t', _, stands, _⟩ := surplus_stays life fresh ht ended (by omega) run
    cases gone.symm.trans stands
  · intro even
    by_cases settled : t.status = .completed
    · have empty : vaultAmount s a.key = 0 := by rw [even, debt, payable, if_pos settled]
      exact root_closes (ready_of_empty reachable ht ended empty unowned fit) signer
    · have called : CalledOff t := ended.resolve_left settled
      obtain ⟨more, s₁, t₁, stretch, called₁, none_⟩ := debts_paid ⟨life, ht, banked⟩ fresh called signer
      have stands : ∀ q, Visits more s₁ q → (q.tournament? a.key).isSome = true := fun q hq => by
        apply stretch.sound.life.kept
        exact hq.imp_right fun ⟨c, hc⟩ => ⟨c, List.mem_append_right _ hc⟩
      obtain ⟨t₂, later, ht₁, ended₁, same⟩ := unwinding_exact life fresh ht ended stretch.run stands stretch.unwinds
      obtain rfl : t₁ = t₂ := Option.some.inj (stretch.sound.record.symm.trans ht₁)
      have empty : vaultAmount s₁ a.key = 0 := by omega
      have home : t.organizer.home = none := by
        cases ho : t.organizer <;> simp_all [Pubkey.home, Pubkey.canSign]
      have calls : ∀ e ∈ more, ∃ ix, e.2 = .call ix ∧ ix.tournament ≠ none := fun e he => by
        obtain ⟨ix, call, own, _⟩ := unwinds_call (stretch.unwinds e he)
        exact ⟨ix, call, by simp [own]⟩
      obtain ⟨unowned₁, fit₁⟩ := calls_keep life.wf stretch.run calls home unowned fit
      have terms := life.course.terms life.start_record ht
      have terms₁ := later.course.terms life.start_record ht₁
      rw [terms.organizer, ← terms₁.organizer] at unowned₁
      have ready := ready_of_empty (reachable_run reachable stretch.run) ht₁ ended₁ empty unowned₁ fit₁
      obtain ⟨rest, s₂, run, gone⟩ := root_closes ready signer
      exact ⟨more ++ rest, s₂, stretch.run.append run, gone⟩

end Life

section Sample

def thriftyBorn : Ledger := after sampleRuntime thriftyGenesis [sampleInit]

def thriftyStart : Ledger := created sampleRuntime sampleTournament thriftyBorn

/-- Called off, with one of two entrants refunded. -/
def thriftyState : Ledger := after sampleRuntime thriftyStart halfRefunded

theorem thrifty_life : Life sampleRuntime sampleTournament thriftyBorn thriftyStart
    (log sampleRuntime thriftyStart halfRefunded) thriftyState :=
  script_life (script_reachable thriftyGenesis_genesis _) rfl (by decide) (by decide)

/-- Nothing comes from outside in a script of calls. -/
theorem thrifty_bounded {value : Measure} {most : ℕ} (balanced : ∀ {s s' : Ledger} {ix : Instruction}, Wellformed s →
      ix.run sampleRuntime s = .ok s' → Balance.Balanced (value s) (value s'))
    (bound : ∀ S : Finset Pubkey, ∑ p ∈ S, value thriftyGenesis p ≤ most) (S : Finset Pubkey) :
    ∑ p ∈ S, value thriftyState p ≤ most := by
  have first : Run sampleRuntime thriftyGenesis _ thriftyBorn := script_run thriftyGenesis [sampleInit]
  have run := (first.append (script_run thriftyBorn [.call (.createTournament sampleTournament)])).append
    (script_run thriftyStart halfRefunded)
  refine (run_conserved (genesis_wellformed thriftyGenesis_genesis) balanced run).bounded (fun e he p => ?_) bound S
  have call : ∃ ix, e.2 = .call ix := by
    rcases List.mem_append.1 he with he | he
    · rcases List.mem_append.1 he with he | he
      · exact ⟨_, List.mem_singleton.1 (mem_log he)⟩
      · exact ⟨_, List.mem_singleton.1 (mem_log he)⟩
    · have mem := mem_log he
      simp only [halfRefunded, joinAs, List.mem_cons, List.not_mem_nil, or_false] at mem
      rcases mem with own | own | own <;> exact ⟨_, own⟩
  obtain ⟨m, b⟩ := e
  obtain ⟨ix, rfl⟩ := call
  rfl

theorem thrifty_banked : Banked (.key 100) (.key 1 :: joins sampleTournament.key (log sampleRuntime thriftyStart halfRefunded))
    thriftyState := by
  refine ⟨thrifty_bounded (fun wf h => (call_balanced wf h).1 (.key 100)) Completion.genesis_fits, ?_⟩
  have all : joins sampleTournament.key (log sampleRuntime thriftyStart halfRefunded) = [.key 2, .key 3] := by decide
  rw [all]
  intro w hw
  simp only [List.mem_cons, List.not_mem_nil, or_false] at hw
  rcases hw with rfl | rfl | rfl
  · exact ⟨10, _, rfl, rfl, rfl, rfl⟩
  · exact ⟨11, _, rfl, rfl, rfl, rfl⟩
  · exact ⟨12, _, rfl, rfl, rfl, rfl⟩

theorem thrifty_fit : LamportsFit thriftyState :=
  thrifty_bounded (fun wf h => (call_balanced wf h).2) thriftyGenesis_fit

theorem thrifty_closable : ∃ more s', Run sampleRuntime thriftyState more s' ∧
    s'.tournament? sampleTournament.key = none :=
  (closable_iff thrifty_life ⟨fun _ => rfl, fun _ => rfl⟩ (t := (thriftyState.tournament? sampleTournament.key).get rfl) rfl
    (by decide) thrifty_banked rfl thrifty_fit).2 (by decide)

end Sample

end BracketChain.Surplus
