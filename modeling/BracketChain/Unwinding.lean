import BracketChain.Authority
import BracketChain.Completion
import BracketChain.Roster

namespace BracketChain.Unwinding

open Outcome Keys Records Accounts Registration Refunds Program Runs Layout View Lifecycle RefundEffects Refinement Lives
  Bookkeeping Enrolment Solvency Entitlement Building Roster Backstop Payments Primitives Conservation Authority Payable
  Scripts

variable {rt : Runtime} {s s' : Ledger} {key mint anyone : Pubkey} {t t' : Tournament}

/-- The refund call that the status asks for. -/
def refundBy (t : Tournament) (c : CancelTournament) : Instruction :=
  if t.status = .cancelled then .cancelTournament c else .partialRefundChunk c

/-- What it takes to undo a tournament: its organizer calls it off, and
`anyone` asks for the refunds. -/
inductive Unwinds (key anyone : Pubkey) (s : Ledger) : Action → Prop
  | cancel (t : Tournament) (record : s.tournament? key = some t) :
      Unwinds key anyone s (.call (.cancelTournament ⟨t.organizer, key, none, []⟩))
  | partialCancel (t : Tournament) (record : s.tournament? key = some t) :
      Unwinds key anyone s (.call (.partialCancelTournament ⟨t.organizer, key⟩))
  | refund (t : Tournament) (ata : Option Pubkey) (accounts : List Pubkey) (record : s.tournament? key = some t)
      (called : CalledOff t) : Unwinds key anyone s (.call (refundBy t ⟨anyone, key, ata, accounts⟩))

theorem refundBy_runs {c : CancelTournament} {u : TokenAccount} (called : CalledOff t) (signs : c.caller.canSign = true)
    (loads : s.loadTournament c.tournament = .ok t) (vault : s.loadVault c.tournament t = .ok u)
    (token : loadOrganizerToken s c.organizerTokenAccount = .ok ()) (chunk : refundChunk c t s = .ok s') :
    Step rt s (.call (refundBy t c)) s' := by
  by_cases cancelled : t.status = .cancelled
  · rw [refundBy, if_pos cancelled]
    have flips : flipCancelled c t = .ok t := if_pos cancelled
    refine unpaid_step rfl signs ?_
    simp only [Instruction.run, cancelTournament, bind_ok, require_ok]
    exact ⟨t, loads, u, vault, (), token, (), .inr (.inr cancelled), t, flips, chunk⟩
  · rw [refundBy, if_neg cancelled]
    refine unpaid_step rfl signs ?_
    simp only [Instruction.run, partialRefundChunk, bind_ok, require_ok]
    exact ⟨t, loads, u, vault, (), token, (), called.resolve_left cancelled, chunk⟩

/-- All the tokens of the mint fit in a `u64`, and the payees have accounts. -/
structure Banked (mint : Pubkey) (payees : List Pubkey) (s : Ledger) : Prop where
  supply : Supplied s mint
  accounts : ∀ w ∈ payees, ∃ n, Holds s mint w (.key n)

theorem Banked.call {payees : List Pubkey} {ix : Instruction} (h : Banked mint payees s) (wf : Wellformed s)
    (ran : ix.run rt s = .ok s') : Banked mint payees s' := by
  refine ⟨h.supply.step ((call_balanced wf ran).1 mint), fun w hw => ?_⟩
  obtain ⟨n, ⟨_, owner, amount, frozen⟩, hv, rfl, rfl, thawed⟩ := h.accounts w hw
  obtain ⟨amount', hv', _⟩ := call_keeps wf rfl ran frozen amount hv
  exact ⟨n, _, hv', rfl, rfl, thawed⟩

section Steps

variable {b : Action} (unwinds : Unwinds key anyone s b)
include unwinds

theorem unwinds_call : ∃ ix, b = .call ix ∧ ix.tournament = some key ∧ ∀ c, ix ≠ .closeTournament c := by
  cases unwinds with
  | cancel | partialCancel => exact ⟨_, rfl, rfl, fun _ same => by cases same⟩
  | refund t ata accounts =>
      refine ⟨_, rfl, ?_, fun c same => ?_⟩
      · unfold refundBy
        split <;> rfl
      · unfold refundBy at same
        split at same <;> cases same

theorem unwinds_joins : joinedBy key b = [] := by
  cases unwinds with
  | cancel | partialCancel => rfl
  | refund =>
      unfold refundBy
      split <;> rfl

end Steps

/-- Participants come with joins and go with closing calls. -/
theorem effect_present {clock : Clock} {v v' : TournamentView} {b : Action} (effect : Effect rt key clock b v v')
    (unjoined : joinedBy key b = []) (open_ : ∀ c, b ≠ .call (.closeTournament c)) (w : Pubkey) :
    (v'.participant w).isSome = (v.participant w).isSome := by
  cases effect with
  | join c key_eq =>
      rw [joinedBy, if_pos key_eq] at unjoined
      cases unjoined
  | advance _ _ _ _ finalizes | conclude _ _ _ _ _ finalizes => exact (finalizes_keepsRoles finalizes).isSome w
  | refund _ _ _ ws =>
      simp only [refundAll]
      split <;> simp
  | closeChildren c | closeRoot c => exact absurd rfl (open_ c)
  | others | create | requestSeed | revealSeed | start | edit | partialCancel => rfl

section Life

variable {a : CreateTournament} {born start s s' : Ledger} {past more : History} {b : Action}

/-- A life in which all who are owed can be paid. -/
structure Sound (rt : Runtime) (a : CreateTournament) (born start : Ledger) (past : History) (s : Ledger) (t : Tournament) :
    Prop where
  life : Life rt a born start past s
  record : s.tournament? a.key = some t
  banked : Banked t.tokenMint (t.organizer :: joins a.key past) s

theorem Sound.snoc (h : Sound rt a born start past s t) (unwinds : Unwinds a.key anyone s b) (step : Step rt s b s')
    (record : s'.tournament? a.key = some t') : Sound rt a born start (past ++ [(s, b)]) s' t' := by
  obtain ⟨ix, rfl, _, _⟩ := unwinds_call unwinds
  have later := h.life.snoc step (by rw [record]; rfl)
  have terms := h.life.course.terms h.life.start_record h.record
  have terms' := later.course.terms h.life.start_record record
  refine ⟨later, record, ?_⟩
  rw [joins_snoc, unwinds_joins unwinds, List.append_nil, terms'.tokenMint, terms'.organizer, ← terms.tokenMint,
    ← terms.organizer]
  obtain ⟨_, _, ran⟩ := call_ran step
  exact h.banked.call h.life.wf ran

/-- A stretch of unwinding. -/
structure Stretch (rt : Runtime) (a : CreateTournament) (born start : Ledger) (past : History) (s : Ledger)
    (anyone : Pubkey) (more : History) (s' : Ledger) (t' : Tournament) : Prop where
  sound : Sound rt a born start (past ++ more) s' t'
  run : Run rt s more s'
  unwinds : Always (fun e => Unwinds a.key anyone e.1 e.2) more
  present : ∀ w, (s'.participant? (.participant a.key w)).isSome = (s.participant? (.participant a.key w)).isSome

theorem Sound.stay (h : Sound rt a born start past s t) (anyone : Pubkey) : Stretch rt a born start past s anyone [] s t :=
  ⟨by simpa using h, .nil, by simp [Always], fun _ => rfl⟩

theorem Sound.take (h : Sound rt a born start past s t) (unwinds : Unwinds a.key anyone s b) (step : Step rt s b s')
    (record : s'.tournament? a.key = some t') : Stretch rt a born start past s anyone [(s, b)] s' t' := by
  refine ⟨h.snoc unwinds step record, Run.one step, List.forall_mem_singleton.2 unwinds, ?_⟩
  refine effect_present (step_effect h.life.wf (key_isTournament a) step) (unwinds_joins unwinds) fun c closes => ?_
  obtain ⟨ix, rfl, _, open_⟩ := unwinds_call unwinds
  exact open_ c (Action.call.inj closes)

theorem Stretch.trans {rest : History} {s'' : Ledger} {t'' : Tournament}
    (first : Stretch rt a born start past s anyone more s' t')
    (second : Stretch rt a born start (past ++ more) s' anyone rest s'' t'') :
    Stretch rt a born start past s anyone (more ++ rest) s'' t'' := by
  refine ⟨?_, first.run.append second.run, fun e he => ?_, fun w => (second.present w).trans (first.present w)⟩
  · rw [← List.append_assoc]
    exact second.sound
  · exact (List.mem_append.1 he).elim (first.unwinds e) (second.unwinds e)

theorem Stretch.entrants (stretch : Stretch rt a born start past s anyone more s' t') :
    joins a.key (past ++ more) = joins a.key past := by
  have none_ : joins a.key more = [] :=
    List.flatMap_eq_nil_iff.2 fun e he => unwinds_joins (stretch.unwinds e he)
  rw [joins, List.flatMap_append]
  exact (congrArg _ none_).trans (List.append_nil _)

theorem Stretch.unclosed (stretch : Stretch rt a born start past s anyone more s' t') (before : Unclosed a.key past) :
    Unclosed a.key (past ++ more) := by
  intro e he
  rcases List.mem_append.1 he with he | he
  · exact before e he
  · obtain ⟨ix, own, _, closes⟩ := unwinds_call (stretch.unwinds e he)
    intro c same
    exact absurd (Action.call.inj (own.symm.trans same)) (closes c)

theorem Stretch.refunded {w : Pubkey} (stretch : Stretch rt a born start past s anyone more s' t')
    (h : Refunded a.key past s w) : Refunded a.key (past ++ more) s' w := by
  obtain ⟨q, x, visited, hx, paid⟩ := h
  exact ⟨q, x, stretch.run.visits_append visited, hx, paid⟩

/-- Whatever the status, the organizer can call off a tournament that is not
completed. -/
theorem called_off (h : Sound rt a born start past s t) (unsettled : t.status ≠ .completed) (anyone : Pubkey) :
    ∃ more s' t', Stretch rt a born start past s anyone more s' t' ∧ CalledOff t' ∧
      t'.organizerDepositRefunded = t.organizerDepositRefunded := by
  obtain ⟨seeds, vault, signs⟩ := record_fits h.life.wf h.record
  have loads : s.loadTournament a.key = .ok t := Ledger.loadTournament_ok.2 ⟨h.record, seeds⟩
  have written (status : TournamentStatus) :
      (s.setAccount a.key (.tournament { t with status := status })).tournament? a.key = some { t with status := status } := by
    rw [Ledger.tournament?, Ledger.setAccount_accounts, if_pos rfl]
    rfl
  by_cases called : CalledOff t
  · exact ⟨[], s, t, h.stay anyone, called, rfl⟩
  by_cases running : t.status = .active
  · have step : Step rt s (.call (.partialCancelTournament ⟨t.organizer, a.key⟩))
        (s.setAccount a.key (.tournament { t with status := .partialCancelled })) := by
      refine unpaid_step rfl signs ?_
      simp only [Instruction.run, partialCancelTournament, bind_ok, require_ok, pure_ok]
      exact ⟨t, loads, (), rfl, (), running, rfl⟩
    exact ⟨_, _, _, h.take (.partialCancel t h.record) step (written _), .inr rfl, rfl⟩
  · have early : t.status = .registration ∨ t.status = .pendingBracketInit ∨ t.status = .cancelled := by
      unfold CalledOff at called
      cases hs : t.status <;> simp_all
    have fresh : t.status ≠ .cancelled := fun hs => called (.inl hs)
    have live : ¬ terminal t.status := by
      rintro (done | done | done)
      · exact unsettled done
      · exact fresh done
      · exact called (.inr done)
    obtain ⟨u, hu, _⟩ := life_vault h.life h.record live
    let c : CancelTournament := ⟨t.organizer, a.key, none, []⟩
    have flips : flipCancelled c t = .ok { t with status := .cancelled } := by
      simp only [flipCancelled, if_neg fresh, bind_ok, require_ok, pure_ok]
      exact ⟨(), rfl, trivial⟩
    have step : Step rt s (.call (.cancelTournament c)) (s.setAccount a.key (.tournament { t with status := .cancelled })) := by
      refine unpaid_step rfl signs ?_
      simp only [Instruction.run, cancelTournament, bind_ok, require_ok]
      refine ⟨t, loads, u, Ledger.loadVault_ok.2 ⟨hu, vault⟩, (), rfl, (), early, _, flips, ?_⟩
      simp only [refundChunk, bind_ok, require_ok, pure_ok]
      exact ⟨(), rfl, (s, _), by simp [refundDeposit, c], s, rfl, rfl⟩
    exact ⟨_, _, _, h.take (.cancel t h.record) step (written _), .inl rfl, rfl⟩

/-- Once a tournament is called off anyone can have its deposit returned. -/
theorem deposit_returned (h : Sound rt a born start past s t) (fresh : Fresh a.key born) (called : CalledOff t)
    (signs : anyone.canSign = true) : ∃ more s' t', Stretch rt a born start past s anyone more s' t' ∧ CalledOff t' ∧
      (0 < t'.organizerDeposit → t'.organizerDepositRefunded = true) := by
  by_cases owed : 0 < t.organizerDeposit ∧ t.organizerDepositRefunded = false
  · obtain ⟨refunded, sent, t₁, kept⟩ := life_fresh_books h.life fresh
    obtain rfl : t = t₁ := Option.some.inj (h.record.symm.trans kept.record)
    have unsettled : t.status ≠ .completed := by rcases called with hs | hs <;> simp [hs]
    obtain ⟨seeds, vault, signs'⟩ := record_fits h.life.wf h.record
    obtain ⟨u, hu, mint, amount⟩ := kept.books.held unsettled
    have enough : t.organizerDeposit ≤ u.amount := by
      rw [amount, owed.2]
      simp only [Bool.false_eq_true, if_false]
      omega
    obtain ⟨n, v, hv, hm, ho, thawed⟩ := h.banked.accounts t.organizer List.mem_cons_self
    have room : v.amount + u.amount ≤ u64Max := h.banked.supply.fits (.key n) _ v u (by simp) hv hu hm mint
    obtain ⟨m, hm', _⟩ := transfer_succeeds hu ⟨vault_owner h.life.wf hu, vault_thawed h.life.wf hu⟩ hv
      (hm.trans mint.symm) thawed enough fun _ => by omega
    let c : CancelTournament := ⟨anyone, a.key, some (.key n), []⟩
    have returned : refundDeposit a.key t (some (.key n)) s = .ok (m, Tournament.depositReturned t) := by
      simp only [refundDeposit, if_pos owed, bind_ok, require_ok, pure_ok, Ledger.loadToken_ok]
      exact ⟨v, hv, (), hm, (), ho, m, hm', rfl⟩
    have chunk : refundChunk c t s = .ok (m.setAccount a.key (.tournament (Tournament.depositReturned t))) := by
      simp only [refundChunk, bind_ok, require_ok, pure_ok]
      exact ⟨(), rfl, (m, _), returned, m, rfl, rfl⟩
    have token : loadOrganizerToken s c.organizerTokenAccount = .ok () := by
      simp only [c, loadOrganizerToken, bind_ok, pure_ok, Ledger.loadToken_ok]
      exact ⟨v, hv, trivial⟩
    have step : Step rt s (.call (refundBy t c)) _ := refundBy_runs called signs
      (Ledger.loadTournament_ok.2 ⟨h.record, seeds⟩) (Ledger.loadVault_ok.2 ⟨hu, vault⟩) token chunk
    refine ⟨_, _, Tournament.depositReturned t, h.take (.refund t _ _ h.record called) step ?_, called, fun _ => rfl⟩
    rw [Ledger.tournament?, Ledger.setAccount_accounts, if_pos rfl]
    rfl
  · refine ⟨[], s, t, h.stay anyone, called, fun pos => ?_⟩
    by_contra unpaid
    exact owed ⟨pos, by simpa using unpaid⟩

/-- Once a tournament is called off anyone can have an entrant refunded. -/
theorem entrant_refunded (h : Sound rt a born start past s t) (fresh : Fresh a.key born) (called : CalledOff t)
    (signs : anyone.canSign = true) {w : Pubkey} (entrant : w ∈ joins a.key past) {x : Participant}
    (hx : s.participant? (.participant a.key w) = some x) :
    ∃ more s', Stretch rt a born start past s anyone more s' t ∧ Refunded a.key (past ++ more) s' w := by
  cases unpaid : x.refundPaid with
  | true => exact ⟨[], s, h.stay anyone, s, x, by simp [Visits], hx, unpaid⟩
  | false =>
      obtain ⟨refunded, sent, t₁, kept⟩ := life_fresh_books h.life fresh
      obtain rfl : t = t₁ := Option.some.inj (h.record.symm.trans kept.record)
      have wf := h.life.wf
      have hk := isTournament_of_record wf h.record
      have unsettled : t.status ≠ .completed := by rcases called with hs | hs <;> simp [hs]
      obtain ⟨seeds, vault, _⟩ := record_fits wf h.record
      obtain ⟨u, hu, mint, _⟩ := kept.books.held unsettled
      have enough : t.entryFee ≤ u.amount := by
        have covered := books_cover kept.books unsettled u [w] hu (by simp) (by simpa using ⟨x, hx, unpaid⟩)
        rw [total_refunds, List.length_singleton, Nat.mul_one] at covered
        omega
      obtain ⟨n, d, hd, hm, ho, thawed⟩ := h.banked.accounts w (List.mem_cons_of_mem _ entrant)
      have room : d.amount + u.amount ≤ u64Max := h.banked.supply.fits (.key n) _ d u (by simp) hd hu hm mint
      obtain ⟨m, pair⟩ := refundPair_pays wf hk hx unpaid hu enough mint hd ho hm thawed (by omega)
      have step : Step rt s (.call (refundBy t ⟨anyone, a.key, none, [.participant a.key w, .key n]⟩)) _ :=
        refundBy_runs called signs (Ledger.loadTournament_ok.2 ⟨h.record, seeds⟩) (Ledger.loadVault_ok.2 ⟨hu, vault⟩) rfl
          (refundChunk_single anyone pair)
      refine ⟨_, _, h.take (.refund t _ _ h.record called) step ?_, _, Participant.refunded x, .inl rfl, ?_, rfl⟩
      · rw [Ledger.tournament?, Ledger.setAccount_accounts, if_pos rfl]
        rfl
      · have apart : Pubkey.participant a.key w ≠ a.key := (ne_of_isTournament hk rfl).symm
        simp [Ledger.participant?, Ledger.setAccount_accounts, apart, Account.asParticipant]

/-- Once a tournament is called off anyone can have its entrants refunded. -/
theorem entrants_refunded (fresh : Fresh a.key born) (called : CalledOff t) (signs : anyone.canSign = true)
    (order : List Pubkey) : ∀ {past : History} {s : Ledger}, Sound rt a born start past s t →
      (∀ w ∈ order, w ∈ joins a.key past ∧ (s.participant? (.participant a.key w)).isSome = true) →
        ∃ more s', Stretch rt a born start past s anyone more s' t ∧ ∀ w ∈ order, Refunded a.key (past ++ more) s' w := by
  induction order with
  | nil => exact fun h _ => ⟨[], _, h.stay anyone, by simp⟩
  | cons w order ih =>
      intro past s h entrants
      obtain ⟨⟨entrant, present⟩, others⟩ := List.forall_mem_cons.1 entrants
      obtain ⟨x, hx⟩ := Option.isSome_iff_exists.1 present
      obtain ⟨first, s₁, stretch, paid⟩ := entrant_refunded h fresh called signs entrant hx
      obtain ⟨rest, s₂, stretch₂, paid₂⟩ := ih stretch.sound fun w' hw' => by
        rw [stretch.entrants]
        exact (others w' hw').imp_right (stretch.present w').trans
      refine ⟨first ++ rest, s₂, stretch.trans stretch₂, ?_⟩
      rw [← List.append_assoc]
      exact List.forall_mem_cons.2 ⟨stretch₂.refunded paid, paid₂⟩

theorem unwinds_inside {e : Ledger × Action} (unwinds : Unwinds key anyone e.1 e.2) : ¬ SendsTo rt key e := by
  obtain ⟨ix, call, own, _⟩ := unwinds_call unwinds
  intro sends
  apply sends.1
  rw [call]
  exact own

/-- Everybody has its money back, and the vault has paid nothing else. -/
structure Undone (key : Pubkey) (born : Ledger) (entrants : List Pubkey) (t : Tournament) (s : Ledger) : Prop where
  record : s.tournament? key = some t
  calledOff : CalledOff t
  deposit : 0 < t.organizerDeposit → t.organizerDepositRefunded = true
  refunded : ∀ w ∈ entrants, ∃ x, s.participant? (.participant key w) = some x ∧ x.refundPaid = true
  payments : (paymentsOf key s.transfers).Perm
    (paymentsOf key born.transfers ++ refunds t t.organizerDepositRefunded entrants)

theorem Sound.undone (h : Sound rt a born start past s t) (fresh : Fresh a.key born) (unclosed : Unclosed a.key past)
    (called : CalledOff t)
    (deposit : 0 < t.organizerDeposit → t.organizerDepositRefunded = true)
    (refunded : ∀ w ∈ joins a.key past, Refunded a.key past s w) : Undone a.key born (joins a.key past) t s ∧
      (Always (fun e => ¬ SendsTo rt a.key e) past → vaultAmount s a.key = 0) := by
  obtain ⟨paid, sent, t₁, kept⟩ := life_fresh_books h.life fresh
  obtain rfl : t = t₁ := Option.some.inj (h.record.symm.trans kept.record)
  have unsettled : t.status ≠ .completed := by rcases called with hs | hs <;> simp [hs]
  have all : paid.Perm (joins a.key past) := by
    rw [List.perm_ext_iff_of_nodup kept.books.refunded_nodup kept.books.joined_nodup]
    exact fun w => ⟨fun hw => kept.books.refunded_joined hw, fun hw => (kept.refunded_iff fresh w).2 (refunded w hw)⟩
  refine ⟨⟨h.record, called, deposit, fun w hw => ?_, ?_⟩, fun unsent => ?_⟩
  · obtain ⟨x, hx⟩ := Option.isSome_iff_exists.1 ((life_roster h.life fresh unclosed w).1 hw)
    exact ⟨x, hx, ((kept.books.entered w x hx).numbered hw).2.2 (all.mem_iff.2 hw)⟩
  · refine (kept.books.paid unsettled).trans (List.Perm.append_left _ ?_)
    exact List.Perm.append_left _ (all.map _)
  · obtain ⟨u, hu, _, amount⟩ := kept.books.held unsettled
    have vault : vaultAmount s a.key = u.amount := by
      rw [vaultAmount, show s.token? (.vault a.key) = some u from hu]
      rfl
    rw [vault, amount, kept.unsent unsent, all.length_eq, Nat.sub_self, Nat.mul_zero, Nat.zero_add, Nat.add_zero]
    by_cases owed : 0 < t.organizerDeposit
    · rw [if_pos (deposit owed)]
    · split
      · rfl
      · omega

/-- Every tournament that is not completed, in whatever mode and at whatever
point, can be undone by its organizer and any one signer: all who joined get
their entry fees back, and the organizer the deposit. -/
theorem unwindable (life : Life rt a born start past s) (fresh : Fresh a.key born) (unclosed : Unclosed a.key past)
    (ht : s.tournament? a.key = some t) (unsettled : t.status ≠ .completed) (signs : anyone.canSign = true)
    (banked : Banked t.tokenMint (t.organizer :: joins a.key past) s) :
    ∃ more s' t', Run rt s more s' ∧ Always (fun e => Unwinds a.key anyone e.1 e.2) more ∧
      Undone a.key born (joins a.key past) t' s' ∧
      (Always (fun e => ¬ SendsTo rt a.key e) past → vaultAmount s' a.key = 0) := by
  have sound : Sound rt a born start past s t := ⟨life, ht, banked⟩
  obtain ⟨m₁, s₁, t₁, first, called₁, _⟩ := called_off sound unsettled anyone
  obtain ⟨m₂, s₂, t₂, second, called₂, deposit⟩ := deposit_returned first.sound fresh called₁ signs
  have before := first.trans second
  obtain ⟨m₃, s₃, third, paid⟩ := entrants_refunded fresh called₂ signs (joins a.key past) before.sound fun w hw => by
    rw [before.entrants]
    exact ⟨hw, (before.present w).trans ((life_roster life fresh unclosed w).1 hw)⟩
  have whole := before.trans third
  rw [List.append_assoc, ← whole.entrants] at paid
  obtain ⟨undone, empty⟩ := whole.sound.undone fresh (whole.unclosed unclosed) called₂ deposit paid
  rw [whole.entrants] at undone
  refine ⟨_, s₃, t₂, whole.run, whole.unwinds, undone, fun unsent => empty fun e he => ?_⟩
  exact (List.mem_append.1 he).elim (unsent e) fun he => unwinds_inside (whole.unwinds e he)

end Life

section Sample

open Completion

theorem underway_unclosed : Unclosed sampleTournament.key underwayLog :=
  unclosed_of_live (t := (underwayState.tournament? sampleTournament.key).get rfl) underway_life.course rfl (by decide)

theorem underway_banked : Banked (.key 100) (.key 1 :: joins sampleTournament.key underwayLog) underwayState := by
  refine ⟨underway_supplied, ?_⟩
  have all : joins sampleTournament.key underwayLog = [.key 2, .key 3, .key 4, .key 5] := by decide
  rw [all]
  intro w hw
  simp only [List.mem_cons, List.not_mem_nil, or_false] at hw
  rcases hw with rfl | rfl | rfl | rfl | rfl
  · exact ⟨10, _, rfl, rfl, rfl, rfl⟩
  · exact ⟨11, _, rfl, rfl, rfl, rfl⟩
  · exact ⟨12, _, rfl, rfl, rfl, rfl⟩
  · exact ⟨13, _, rfl, rfl, rfl, rfl⟩
  · exact ⟨14, _, rfl, rfl, rfl, rfl⟩

theorem underway_unwindable : ∃ more s' t', Run sampleRuntime underwayState more s' ∧
    Always (fun e => Unwinds sampleTournament.key (.key 77) e.1 e.2) more ∧
    Undone sampleTournament.key sampleBorn (joins sampleTournament.key underwayLog) t' s' ∧
    (Always (fun e => ¬ SendsTo sampleRuntime sampleTournament.key e) underwayLog →
      vaultAmount s' sampleTournament.key = 0) :=
  unwindable underway_life sampleBorn_fresh underway_unclosed rfl (by decide) rfl underway_banked

end Sample

end BracketChain.Unwinding
