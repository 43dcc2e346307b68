import BracketChain.Solvency

namespace BracketChain.Entitlement

open Outcome Keys Records Accounts Registration Refunds Program Runs Layout View Lifecycle RefundEffects
  Refinement Lives Bookkeeping Solvency Scripts

variable {rt : Runtime} {a : CreateTournament} {born start s : Ledger} {past : History} {key : Pubkey}

def CalledOff (t : Tournament) : Prop := t.status = .cancelled ∨ t.status = .partialCancelled

instance (t : Tournament) : Decidable (CalledOff t) := inferInstanceAs (Decidable (_ ∨ _))

def closeCall? : Action → Option CloseTournament
  | .call (.closeTournament c) => some c
  | _ => none

/-- A close call on a called-off tournament that lists a participant still
owed its entry fee. -/
def ClosesUnpaid (key : Pubkey) (e : Ledger × Action) : Prop :=
  ∃ c t w x, closeCall? e.2 = some c ∧ c.tournament = key ∧ e.1.tournament? key = some t ∧
    CalledOff t ∧ 0 < t.entryFee ∧ .participant key w ∈ c.remainingAccounts ∧
    e.1.participant? (.participant key w) = some x ∧ x.refundPaid = false

/-- The refund call that the status asks for, over one wallet. -/
def refundCall (t : Tournament) (key caller w ata : Pubkey) : Instruction :=
  if t.status = .cancelled then .cancelTournament ⟨caller, key, none, [.participant key w, ata]⟩
  else .partialRefundChunk ⟨caller, key, none, [.participant key w, ata]⟩

/-- Anyone can have the wallet paid, into any account of its own that takes
the tokens. -/
def Payable (rt : Runtime) (s : Ledger) (key : Pubkey) (t : Tournament) (w : Pubkey) : Prop :=
  ∀ caller ata d, caller.canSign = true → s.token? ata = some d → d.owner = w → d.mint = t.tokenMint →
    d.frozen = false → d.amount + t.entryFee ≤ u64Max → ∃ s' x, Step rt s (.call (refundCall t key caller w ata)) s' ∧
      s'.participant? (.participant key w) = some x ∧ x.refundPaid = true

/-- A wallet has its entry fee back, or its claim is open and can be paid. -/
def Entitled (rt : Runtime) (key : Pubkey) (past : History) (s : Ledger) (t : Tournament) (w : Pubkey) : Prop :=
  (Refunded key past s w ∧ (w, t.entryFee) ∈ paymentsOf key s.transfers) ∨
    ((∃ x, s.participant? (.participant key w) = some x ∧ x.refundPaid = false) ∧ Payable rt s key t w)

theorem joined_present {clock : Clock} {b : Action} {v v' : TournamentView} {w : Pubkey}
    (effect : Effect rt key clock b v v') (hw : w ∈ joinedBy key b) : (v'.participant w).isSome = true := by
  cases effect with
  | others _ other => simp [joinedBy_other other] at hw
  | join c key_eq =>
      obtain rfl : w = c.player := by simpa [joinedBy, key_eq] using hw
      simp
  | edit _ _ _ call => simp [joinedBy_edit call] at hw
  | advance _ _ _ _ finalizes | conclude _ _ _ _ _ finalizes => simp [joinedBy_finalize finalizes.call] at hw
  | refund _ _ _ _ _ _ refunding => simp [joinedBy_refund refunding] at hw
  | create | requestSeed | revealSeed | start | partialCancel | closeChildren | closeRoot => cases hw

theorem claims_stay (life : Life rt a born start past s)
    (careful : Always (fun e => ¬ ClosesUnpaid a.key e) past) (t : Tournament)
    (ht : (viewOf s a.key).record = some t) (unsettled : t.status ≠ .completed) (fee : 0 < t.entryFee)
    (w : Pubkey) (hw : w ∈ joins a.key past) :
    Refunded a.key past s w ∨ ((viewOf s a.key).participant w).isSome = true := by
  revert careful t
  refine life.invariant (P := fun past s => w ∈ joins a.key past →
    Always (fun e => ¬ ClosesUnpaid a.key e) past → ∀ t, (viewOf s a.key).record = some t →
      t.status ≠ .completed → 0 < t.entryFee →
        Refunded a.key past s w ∨ ((viewOf s a.key).participant w).isSome = true) (by simp [joins]) ?_ hw
  intro past s b s' earlier ih step effect later hw careful t' ht' unsettled fee
  obtain ⟨t, ht⟩ := earlier.record
  obtain ⟨careful, hlast⟩ := always_snoc.1 careful
  rw [joins_snoc, List.mem_append] at hw
  rcases hw with hw | hw
  · have unsettled' : t.status ≠ .completed := by
      intro hc
      exact unsettled ((effect_status effect ht ht').terminal (.inl hc) ▸ hc)
    have fee' : 0 < t.entryFee := (effect_terms effect ht ht').entryFee ▸ fee
    rcases ih hw careful t ht unsettled' fee' with hr | hopen
    · exact .inl (refunded_snoc.2 (.inl hr))
    · rcases participants_stay effect ht (by simp [ht']) hopen with hopen | ⟨ended, c, rfl, hkey, hc⟩
      · exact .inr hopen
      · obtain ⟨x, hx⟩ := Option.isSome_iff_exists.1 hopen
        refine .inl (refunded_snoc.2 (.inl ⟨s, x, .inl rfl, hx, ?_⟩))
        by_contra unpaid
        have called : CalledOff t := ended.resolve_left unsettled'
        exact hlast ⟨c, t, w, x, rfl, hkey, ht, called, fee', hc, hx, by simpa using unpaid⟩
  · exact .inr (joined_present effect hw)

theorem refundPair_pays {t : Tournament} {w ata : Pubkey} {x : Participant} {u d : TokenAccount}
    (wf : Wellformed s) (hk : key.isTournament = true) (hx : s.participant? (.participant key w) = some x)
    (unpaid : x.refundPaid = false) (hu : s.token? (.vault key) = some u) (enough : t.entryFee ≤ u.amount)
    (mint : u.mint = t.tokenMint) (hd : s.token? ata = some d) (ho : d.owner = w) (hm : d.mint = t.tokenMint)
    (thawed : d.frozen = false) (fits : d.amount + t.entryFee ≤ u64Max) : ∃ m : Ledger,
      refundPair key t s (.participant key w, ata) =
        .ok (m.setAccount (.participant key w) (.participant (Participant.refunded x))) := by
  obtain ⟨hp, _, hw⟩ := participant_fits wf hx
  obtain ⟨rfl, rfl⟩ : key = x.tournament ∧ w = x.wallet := by simpa using hp
  have apart : Pubkey.vault x.tournament ≠ ata := by
    rintro rfl
    have hwallet : x.tournament = x.wallet := (vault_owner wf hd).symm.trans ho
    simp [← hwallet, not_canSign_of_isTournament hk] at hw
  obtain ⟨m, transfer⟩ : ∃ m, s.tokenTransfer (.vault x.tournament) ata x.tournament t.entryFee = .ok m :=
    ⟨_, Ledger.tokenTransfer_ok.2 ⟨u, d, hu, hd, ⟨vault_thawed wf hu, thawed⟩, enough, mint.trans hm.symm,
      vault_owner wf hu, .inr ⟨apart, fits, rfl⟩⟩⟩
  refine ⟨m, ?_⟩
  simp only [refundPair, bind_ok, require_ok, ite_ok, pure_ok, Ledger.readParticipant_ok,
    Ledger.validateTokenAccount_ok]
  exact ⟨x, hx, (), rfl, .inr ⟨by simp [unpaid], (), ⟨d, hd, hm, ho⟩, m, transfer, rfl⟩⟩

theorem refundChunk_single (caller : Pubkey) {t : Tournament} {p ata : Pubkey} {m : Ledger}
    (h : refundPair key t s (p, ata) = .ok m) :
    refundChunk ⟨caller, key, none, [p, ata]⟩ t s = .ok (m.setAccount key (.tournament t)) := by
  have deposit : refundDeposit key t none s = .ok (s, t) := by simp [refundDeposit]
  simp only [refundChunk, bind_ok, require_ok, pure_ok]
  exact ⟨(), by simp, (s, t), deposit, m, (each_cons_ok _ _ _ _ _).2 ⟨m, h, rfl⟩, rfl⟩

theorem claim_payable {v₀ : TournamentView} {joined refunded : List Pubkey} {sent : Nat} {t : Tournament}
    {w : Pubkey} {x : Participant} (wf : Wellformed s) (ht : s.tournament? key = some t)
    (books : Books v₀ joined refunded sent t (viewOf s key)) (called : CalledOff t)
    (hx : s.participant? (.participant key w) = some x) (unpaid : x.refundPaid = false) :
    Payable rt s key t w := by
  intro caller ata d signer hd ho hm thawed fits
  have hk := isTournament_of_record wf ht
  have unsettled : t.status ≠ .completed := by rcases called with hst | hst <;> simp [hst]
  obtain ⟨place, vault, _⟩ := record_fits wf ht
  obtain ⟨u, hu, mint, _⟩ := books.held unsettled
  have enough : t.entryFee ≤ u.amount := by
    have covered := books_cover books unsettled u [w] hu (by simp) (by simpa using ⟨x, hx, unpaid⟩)
    rw [total_refunds, List.length_singleton, Nat.mul_one] at covered
    omega
  obtain ⟨m, hpair⟩ := refundPair_pays wf hk hx unpaid hu enough mint hd ho hm thawed fits
  have hchunk := refundChunk_single caller hpair
  have hload : s.loadTournament key = .ok t := Ledger.loadTournament_ok.2 ⟨ht, place⟩
  have hvault : s.loadVault key t = .ok u := Ledger.loadVault_ok.2 ⟨hu, vault⟩
  refine ⟨(m.setAccount (.participant key w) (.participant (Participant.refunded x))).setAccount key (.tournament t),
    Participant.refunded x, ?_, ?_, rfl⟩
  · unfold refundCall
    split
    · rename_i hst
      refine unpaid_step rfl signer ?_
      simp only [Instruction.run, cancelTournament, bind_ok, require_ok]
      exact ⟨t, hload, u, hvault, (), rfl, (), .inr (.inr hst), t, if_pos hst, hchunk⟩
    · rename_i hst
      refine unpaid_step rfl signer ?_
      simp only [Instruction.run, partialRefundChunk, bind_ok, require_ok]
      exact ⟨t, hload, u, hvault, (), rfl, (), called.resolve_left hst, hchunk⟩
  · have apart : Pubkey.participant key w ≠ key := (ne_of_isTournament hk rfl).symm
    simp [Ledger.participant?, Ledger.setAccount_accounts, apart, Account.asParticipant]

/-- In a called-off tournament every joined wallet has been refunded or can be,
in every run in which no close call takes an unpaid claim. -/
theorem refund_entitlement (life : Life rt a born start past s) (fresh : Fresh a.key born)
    (careful : Always (fun e => ¬ ClosesUnpaid a.key e) past) {t : Tournament}
    (ht : s.tournament? a.key = some t) (called : CalledOff t) (fee : 0 < t.entryFee) :
    ∀ w ∈ joins a.key past, Entitled rt a.key past s t w := by
  intro w hw
  have unsettled : t.status ≠ .completed := by rcases called with hst | hst <;> simp [hst]
  obtain ⟨refunded, sent, t', kept⟩ := life_fresh_books life fresh
  obtain rfl : t = t' := Option.some.inj (ht.symm.trans kept.record)
  have paid (hr : Refunded a.key past s w) : (w, t.entryFee) ∈ paymentsOf a.key s.transfers := by
    have mem := (kept.refunded_iff fresh w).2 hr
    refine (kept.books.paid unsettled).mem_iff.2 (List.mem_append_right _ ?_)
    exact List.mem_append_right _ (List.mem_map.2 ⟨w, mem, rfl⟩)
  rcases claims_stay life careful t ht unsettled fee w hw with hr | hopen
  · exact .inl ⟨hr, paid hr⟩
  · obtain ⟨x, hx⟩ := Option.isSome_iff_exists.1 hopen
    by_cases hr : x.refundPaid = true
    · have hr' : Refunded a.key past s w := ⟨s, x, .inl rfl, hx, hr⟩
      exact .inl ⟨hr', paid hr'⟩
    · have unpaid : x.refundPaid = false := by simpa using hr
      exact .inr ⟨⟨x, hx, unpaid⟩, claim_payable life.wf ht kept.books called hx unpaid⟩

theorem halfRefunded_entitled : ∃ past s t, CalledOff t ∧ joins sampleTournament.key past = [.key 2, .key 3] ∧
    ∀ w ∈ joins sampleTournament.key past, Entitled sampleRuntime sampleTournament.key past s t w :=
  have careful : Always (fun e => ¬ ClosesUnpaid sampleTournament.key e) (log sampleRuntime
      (created sampleRuntime sampleTournament sampleBorn) halfRefunded) := by
    rintro e he ⟨c, _, _, _, hc, _⟩
    have none_ : ∀ e ∈ log sampleRuntime (created sampleRuntime sampleTournament sampleBorn) halfRefunded,
        (closeCall? e.2).isNone = true := List.all_eq_true.1 rfl
    simpa [hc] using none_ e he
  ⟨_, _, _, by decide, rfl,
    refund_entitlement halfRefunded_life sampleBorn_fresh careful rfl (by decide) (by decide)⟩

/-- A cancelled tournament with two unpaid players, one of whose accounts a
stranger then closes. -/
def claimClosed : List Action :=
  [joinAs 2 sampleTournament.key, joinAs 3 sampleTournament.key,
    .call (.cancelTournament ⟨.key 1, sampleTournament.key, none, []⟩),
    .call (.closeTournament ⟨.key 5, sampleTournament.key, .key 1, false,
      [.participant sampleTournament.key (.key 2)]⟩)]

theorem claimClosed_life : SampleLife claimClosed :=
  script_life sampleBorn_reachable rfl (by decide) (by decide)

theorem claimClosed_not_entitled : ∃ start past s t, Life sampleRuntime sampleTournament sampleBorn start past s ∧
    Fresh sampleTournament.key sampleBorn ∧ s.tournament? sampleTournament.key = some t ∧ CalledOff t ∧
    0 < t.entryFee ∧ ∃ w ∈ joins sampleTournament.key past,
      ¬ Entitled sampleRuntime sampleTournament.key past s t w := by
  refine ⟨_, _, _, _, claimClosed_life, sampleBorn_fresh, rfl, by decide, by decide, .key 2, by decide, ?_⟩
  rintro (⟨_, paid⟩ | ⟨⟨x, hx, _⟩, _⟩)
  · exact absurd paid (by decide)
  · cases hx

end BracketChain.Entitlement
