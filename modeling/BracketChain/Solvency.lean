import BracketChain.Bookkeeping
import BracketChain.Scripts

namespace BracketChain.Solvency

open Outcome Keys Records Accounts Registration Refunds Program Runs Layout View Lifecycle RefundEffects Lives
  Bookkeeping Scripts

variable {s : Ledger} {key : Pubkey} {t : Tournament}

theorem tokenTransfer_short {source destination authority : Pubkey} {amount : Nat}
    (h : s.tokenTransfer source destination authority amount = .error .insufficientFunds) :
    ∃ u, s.token? source = some u ∧ u.amount < amount := by
  simp only [Ledger.tokenTransfer, bind_error, require_error, Ledger.loadToken, orThrow_error, orThrow_ok,
    ite_error, pure_error] at h
  obtain ⟨u, hu, _, _, _, hlt⟩ : ∃ u, s.token? source = some u ∧ ∃ d, s.token? destination = some d ∧
      (∃ x, require (u.frozen = false ∧ d.frozen = false) Error.accountFrozen = .ok x) ∧ u.amount < amount := by
    simpa using h
  exact ⟨u, hu, hlt⟩

theorem validateTokenAccount_unshort {p owner mint : Pubkey} :
    s.validateTokenAccount p owner mint ≠ .error .insufficientFunds := by
  simp [Ledger.validateTokenAccount, bind_error, require_error, orThrow_error, -bind_pure_comp]

theorem refundPair_short {pair : Pubkey × Pubkey} (wf : Wellformed s)
    (h : refundPair key t s pair = .error .insufficientFunds) :
    ∃ w x u, (viewOf s key).participant w = some x ∧ x.refundPaid = false ∧
      (viewOf s key).vault = some u ∧ u.amount < t.entryFee := by
  simp only [refundPair, bind_error, require_error, ite_error, pure_error, Ledger.readParticipant_ok,
    require_ok, validateTokenAccount_unshort, and_false, exists_false, or_false, false_or] at h
  rcases h with h | ⟨x, hx, ⟨_, h⟩ | ⟨_, hhome, hpaid, _, _, h⟩⟩
  · simp [Ledger.readParticipant, bind_error, require_error, orThrow_error] at h
  · cases h
  · obtain ⟨u, hu, hlt⟩ := tokenTransfer_short h
    obtain ⟨hp, _, _⟩ := participant_fits wf hx
    rw [hhome] at hp
    rw [hp] at hx
    exact ⟨x.wallet, x, u, hx, by simpa using hpaid, hu, hlt⟩

theorem refundDeposit_short {ata : Option Pubkey} (h : refundDeposit key t ata s = .error .insufficientFunds) :
    t.organizerDepositRefunded = false ∧ ∃ u, (viewOf s key).vault = some u ∧ u.amount < t.organizerDeposit := by
  simp only [refundDeposit, ite_error] at h
  rcases h with ⟨⟨_, hflag⟩, h⟩ | ⟨_, h⟩
  · refine ⟨hflag, ?_⟩
    cases ata with
    | none => cases h
    | some p =>
        simp only [bind_error, require_error, pure_error, Ledger.loadToken, orThrow_error] at h
        rcases h with ⟨_, h⟩ | ⟨v, _, ⟨_, h⟩ | ⟨_, _, ⟨_, h⟩ | ⟨_, _, h | ⟨_, _, h⟩⟩⟩⟩
        · cases h
        · cases h
        · cases h
        · exact tokenTransfer_short h
        · cases h
  · cases h

/-- The vault covers the deposit still owed and a refund to every unpaid
participant. -/
def Covers (t : Tournament) (v : TournamentView) : Prop :=
  ∀ u ws, v.vault = some u → ws.Nodup → (∀ w ∈ ws, ∃ x, v.participant w = some x ∧ x.refundPaid = false) →
    total (refunds t (!t.organizerDepositRefunded) ws) ≤ u.amount

theorem books_cover {v₀ v : TournamentView} {joined refunded : List Pubkey} {sent : Nat}
    (h : Books v₀ joined refunded sent t v) (running : t.status ≠ .completed) : Covers t v := by
  intro u ws hu distinct unpaid
  obtain ⟨u', hu', _, ha⟩ := h.held running
  obtain rfl : u = u' := Option.some.inj (hu.symm.trans hu')
  have fits := h.owed_length distinct unpaid
  have fees : t.entryFee * ws.length ≤ t.entryFee * (joined.length - refunded.length) :=
    Nat.mul_le_mul_left _ (by omega)
  rw [total_refunds, ha]
  cases t.organizerDepositRefunded <;> simp <;> omega

theorem refundChunk_funded {c : CancelTournament} {t₀ : Tournament} {u : TokenAccount} (wf : Wellformed s)
    (ht : s.tournament? c.tournament = some t₀) (hu : s.token? (.vault c.tournament) = some u)
    (flipped : ∃ status, t = { t₀ with status := status }) (covers : Covers t (viewOf s c.tournament)) :
    refundChunk c t s ≠ .error .insufficientFunds := by
  have hk := isTournament_of_record wf ht
  have signer : t.organizer.canSign = true := by
    obtain ⟨_, rfl⟩ := flipped
    exact (record_fits wf ht).2.2
  intro h
  simp only [refundChunk, bind_error, require_error, pure_error] at h
  rcases h with ⟨_, h⟩ | ⟨_, _, h | ⟨⟨s₁, t₁⟩, h₁, h | ⟨_, _, h⟩⟩⟩
  · cases h
  · obtain ⟨hflag, u', hu', hlt⟩ := refundDeposit_short h
    have enough := covers u' [] hu' .nil (by simp)
    rw [total_refunds, hflag] at enough
    simp at enough
    omega
  · obtain ⟨before, pair, after, m, _, hm, hpair⟩ := each_error h
    obtain ⟨rfl, first⟩ := refundDeposit_effect wf hk hu signer h₁
    obtain ⟨u₁, _, _, hv₁⟩ := first.view
    obtain ⟨ws, owed, second⟩ := refundPairs_effect first.confined.wf hk (by rw [hv₁]) hm
    obtain ⟨_, u₂, hu₂, _, hv⟩ := first.append second
    obtain rfl : u = u₂ := Option.some.inj (hu.symm.trans hu₂)
    obtain ⟨w, x, u₃, hx, hun, hu₃, hlt⟩ := refundPair_short second.confined.wf hpair
    have kept : (viewOf s₁ c.tournament).participant = (viewOf s c.tournament).participant := by rw [hv₁]
    have fee : (if CancelTournament.returnsDeposit c t then Tournament.depositReturned t else t).entryFee =
        t.entryFee := by
      split <;> rfl
    rw [kept] at owed hv
    rw [hv] at hx hu₃
    obtain rfl := Option.some.inj hu₃
    -- the wallet the loop stops at was not paid before it
    have hw : w ∉ ws := by
      intro hw
      obtain ⟨y, _, rfl⟩ : ∃ y, (viewOf s c.tournament).participant w = some y ∧ Participant.refunded y = x := by
        simpa [refundAll, hw] using hx
      cases hun
    have hx' : (viewOf s c.tournament).participant w = some x := by simpa [refundAll, hw] using hx
    have enough := covers u (w :: ws) hu (List.nodup_cons.2 ⟨hw, owed.distinct⟩)
      (List.forall_mem_cons.2 ⟨⟨x, hx', hun⟩, owed.unpaid⟩)
    rw [fee, TokenAccount.minus, total_append, total_fees, total_refunds] at hlt
    rw [total_refunds, List.length_cons, Nat.mul_succ] at enough
    rcases returnsDeposit_once c t with hf | hr
    · simp only [hf, Bool.not_false, if_true] at enough
      split at hlt <;> simp at hlt <;> omega
    · simp only [hr, Bool.false_eq_true, if_false] at hlt
      simp at hlt
      omega
  · cases h

theorem loadTournament_unshort : s.loadTournament key ≠ .error .insufficientFunds := by
  simp [Ledger.loadTournament, bind_error, require_error, orThrow_error, pure_error, -bind_pure_comp]

theorem loadVault_unshort : s.loadVault key t ≠ .error .insufficientFunds := by
  simp [Ledger.loadVault, Ledger.loadToken, bind_error, require_error, orThrow_error, pure_error, -bind_pure_comp]

theorem loadOrganizerToken_unshort {p : Option Pubkey} :
    loadOrganizerToken s p ≠ .error .insufficientFunds := by
  cases p <;> simp [loadOrganizerToken, Ledger.loadToken, bind_error, orThrow_error, pure_error, -bind_pure_comp]

theorem flipCancelled_unshort {c : CancelTournament} : flipCancelled c t ≠ .error .insufficientFunds := by
  simp [flipCancelled, ite_error, bind_error, require_error, pure_error, -bind_pure_comp]

/-- No refunding call fails for lack of funds in a ledger whose vault covers
the claims on it. -/
theorem cancel_funded {c : CancelTournament} (wf : Wellformed s)
    (covers : ∀ t, s.tournament? c.tournament = some t → t.status ≠ .completed →
      Covers t (viewOf s c.tournament)) :
    cancelTournament c s ≠ .error .insufficientFunds ∧ partialRefundChunk c s ≠ .error .insufficientFunds := by
  constructor <;> intro h
  · simp only [cancelTournament, bind_error, require_error, loadTournament_unshort, loadVault_unshort,
      loadOrganizerToken_unshort, flipCancelled_unshort, Ledger.loadTournament_ok, Ledger.loadVault_ok, require_ok,
      false_or] at h
    obtain ⟨t, ⟨ht, _⟩, u, ⟨hu, _⟩, _, _, ⟨_, h⟩ | ⟨_, hst, t', hflip, h⟩⟩ := h
    · cases h
    · obtain ⟨rfl, _⟩ := flipCancelled_ok hflip
      have running : t.status ≠ .completed := by rcases hst with hst | hst | hst <;> simp [hst]
      have covered : Covers { t with status := .cancelled } (viewOf s c.tournament) := covers t ht running
      exact refundChunk_funded wf ht hu ⟨_, rfl⟩ covered h
  · simp only [partialRefundChunk, bind_error, require_error, loadTournament_unshort, loadVault_unshort,
      loadOrganizerToken_unshort, Ledger.loadTournament_ok, Ledger.loadVault_ok, require_ok, false_or] at h
    obtain ⟨t, ⟨ht, _⟩, u, ⟨hu, _⟩, _, _, ⟨_, h⟩ | ⟨_, hst, h⟩⟩ := h
    · cases h
    · exact refundChunk_funded wf ht hu ⟨t.status, rfl⟩ (covers t ht (by simp [hst])) h

/-- The account of a tournament's money in a state of its life: the vault
holds an entry fee for each join not refunded and the deposit until it is
returned, and it has paid those refunds and nothing else. -/
structure Accounted (key : Pubkey) (born : Ledger) (past : History) (s : Ledger) (t : Tournament)
    (refunded : List Pubkey) (sent : Nat) : Prop where
  distinct : refunded.Nodup
  joined : refunded ⊆ joins key past
  balance : vaultAmount s key = t.entryFee * ((joins key past).length - refunded.length) +
    (if t.organizerDepositRefunded then 0 else t.organizerDeposit) + sent
  payments : (paymentsOf key s.transfers).Perm (paymentsOf key born.transfers ++
    (if t.organizerDepositRefunded then [(t.organizer, t.organizerDeposit)] else []) ++
      refunded.map fun w => (w, t.entryFee))

theorem accounted {rt : Runtime} {born : Ledger} {past : History} {refunded : List Pubkey} {sent : Nat}
    (kept : Kept rt key born past s refunded sent t) (unsettled : t.status ≠ .completed) :
    Accounted key born past s t refunded sent := by
  refine ⟨kept.books.refunded_nodup, kept.books.refunded_joined, ?_, ?_⟩
  · obtain ⟨u, hu, _, ha⟩ := kept.books.held unsettled
    rw [vaultAmount, show s.token? (.vault key) = some u from hu]
    exact ha
  · have paid := kept.books.paid unsettled
    rw [refunds, ← List.append_assoc] at paid
    exact paid

/-- Before the final, the vault holds what it owes, exactly so when nobody
else sends it tokens, and refunds never fail for lack of funds. -/
theorem vault_accounting {rt : Runtime} {a : CreateTournament} {born start : Ledger} {past : History}
    (life : Life rt a born start past s) (fresh : Fresh a.key born) (ht : s.tournament? a.key = some t)
    (unsettled : t.status ≠ .completed) :
    (∃ refunded sent, Accounted a.key born past s t refunded sent ∧
      (∀ w, w ∈ refunded ↔ Refunded a.key past s w) ∧
      (Always (fun e => ¬ SendsTo rt a.key e) past → sent = 0)) ∧
    ∀ c : CancelTournament, c.tournament = a.key →
      cancelTournament c s ≠ .error .insufficientFunds ∧ partialRefundChunk c s ≠ .error .insufficientFunds := by
  have old w x (hx : born.participant? (.participant a.key w) = some x) : x.refundPaid = true := by
    rw [fresh.participant w] at hx
    cases hx
  obtain ⟨refunded, sent, t', kept⟩ := life_books life old
  obtain rfl : t = t' := Option.some.inj (ht.symm.trans kept.record)
  refine ⟨⟨refunded, sent, accounted kept unsettled, kept.refunded_iff fresh, kept.unsent⟩, fun c hc => ?_⟩
  refine cancel_funded life.wf fun t' ht' hst => ?_
  rw [hc] at ht' ⊢
  obtain rfl : t = t' := Option.some.inj (ht.symm.trans ht')
  exact books_cover kept.books hst

/-- Two wallets join, then the organizer cancels, takes its deposit back and
refunds the first of them. -/
def halfRefunded : List Action :=
  [joinAs 2 sampleTournament.key, joinAs 3 sampleTournament.key,
    .call (.cancelTournament ⟨.key 1, sampleTournament.key, some (.key 10),
      [.participant sampleTournament.key (.key 2), .key 11]⟩)]

theorem halfRefunded_life : SampleLife halfRefunded :=
  script_life sampleBorn_reachable rfl (by decide) (by decide)

theorem halfRefunded_accounted : ∃ s past t, vaultAmount s sampleTournament.key = 50 ∧
    ∃ refunded sent, Accounted sampleTournament.key sampleBorn past s t refunded sent :=
  have accounting := vault_accounting halfRefunded_life sampleBorn_fresh rfl (by decide)
  ⟨_, _, _, rfl, accounting.1.imp fun _ => Exists.imp fun _ h => h.1⟩

end BracketChain.Solvency
