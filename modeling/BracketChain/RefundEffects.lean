import BracketChain.FinalizeEffects

namespace BracketChain.RefundEffects

open Outcome Keys Records Accounts Refunds Program Layout View Confinement Lifecycle RegistrationEffects
  FinalizeEffects

variable {rt : Runtime} {s s' : Ledger} {key : Pubkey} {t : Tournament}

/-- Payments to signers out of a vault that covers them, next to an update of
the participants. -/
structure Paid (key : Pubkey) (s s' : Ledger) (payments : List (Pubkey × Nat))
    (participant : Pubkey → Option Participant) : Prop where
  confined : Confined (some key) s s'
  view : ∃ u, (viewOf s key).vault = some u ∧ total payments ≤ u.amount ∧ viewOf s' key = { viewOf s key with
    participant := participant
    vault := some (TokenAccount.minus u (total payments))
    paid := (viewOf s key).paid ++ payments }

@[simp] theorem total_nil : total [] = 0 := rfl

@[simp] theorem total_append (xs ys : List (Pubkey × Nat)) : total (xs ++ ys) = total xs + total ys := by
  simp [total]

@[simp] theorem total_cons (x : Pubkey × Nat) (xs : List (Pubkey × Nat)) : total (x :: xs) = x.2 + total xs := by
  simp [total]

theorem minus_minus (u : TokenAccount) (j k : Nat) :
    TokenAccount.minus (TokenAccount.minus u j) k = TokenAccount.minus u (j + k) :=
  congrArg (fun n => ({ u with amount := n } : TokenAccount)) (Nat.sub_sub u.amount j k)

theorem refundAll_nil (p : Pubkey → Option Participant) : refundAll [] p = p := by
  funext w
  simp [refundAll]

theorem refundAll_cons {p : Pubkey → Option Participant} {w : Pubkey} {x : Participant} {ws : List Pubkey}
    (hx : p w = some x) (hw : w ∉ ws) :
    refundAll (w :: ws) p = refundAll ws (Function.update p w (some (Participant.refunded x))) := by
  funext q
  by_cases hq : q = w
  · subst hq
    simp [refundAll, hw, hx]
  · simp [refundAll, hq]

theorem Paid.none {u : TokenAccount} (wf : Wellformed s) (hu : (viewOf s key).vault = some u) :
    Paid key s s [] (viewOf s key).participant := by
  refine ⟨.refl wf, u, hu, Nat.zero_le _, ?_⟩
  simp [TokenAccount.minus, ← hu]

theorem Paid.append {m : Ledger} {xs ys : List (Pubkey × Nat)} {p p' : Pubkey → Option Participant}
    (first : Paid key s m xs p) (second : Paid key m s' ys p') : Paid key s s' (xs ++ ys) p' := by
  obtain ⟨c, u, hu, hle, hm⟩ := first
  obtain ⟨c', u', hu', hle', hs'⟩ := second
  obtain rfl : TokenAccount.minus u (total xs) = u' := by simpa [hm] using hu'
  simp only [TokenAccount.minus] at hle'
  refine ⟨c.trans c', u, hu, by rw [total_append]; omega, ?_⟩
  rw [hs', minus_minus, total_append, hm, List.append_assoc]

/-- One refund of the loop: nothing for a participant paid before, otherwise
its fee and its flag. -/
theorem refundPair_effect {pair : Pubkey × Pubkey} (wf : Wellformed s) (hk : key.isTournament = true)
    (h : refundPair key t s pair = .ok s') : ∃ w x, pair.1 = .participant key w ∧
      (viewOf s key).participant w = some x ∧
      ((x.refundPaid = true ∧ s' = s) ∨
        (x.refundPaid = false ∧ Paid key s s' [(w, t.entryFee)]
          (Function.update (viewOf s key).participant w (some (Participant.refunded x))))) := by
  simp only [refundPair, bind_ok, require_ok, ite_ok, pure_ok, Ledger.readParticipant_ok,
    Ledger.validateTokenAccount_ok] at h
  obtain ⟨x, hx, _, hhome, h⟩ := h
  obtain ⟨hp, _, hw⟩ := participant_fits wf hx
  rw [hhome] at hp
  rw [hp] at hx
  refine ⟨x.wallet, x, hp, hx, ?_⟩
  rcases h with ⟨hpaid, rfl⟩ | ⟨hpaid, _, ⟨d, hd, _, ho⟩, s₁, h₁, rfl⟩
  · exact .inl ⟨hpaid, rfl⟩
  · obtain ⟨u, hu, hle, hv⟩ := viewOf_transfer_out wf hk h₁ hd ho hw
    have c : Confined (some key) s s₁ := confined_transfer wf h₁ (.inl rfl)
    refine .inr ⟨by simpa using hpaid, c.trans ?_, u, hu, by simpa using hle, ?_⟩
    · rw [hp]
      exact confined_set_participant wf hx c.wf rfl
    · rw [hp, viewOf_set_participant hk, hv]
      rfl

theorem owed_cons {p : Pubkey → Option Participant} {pair : Pubkey × Pubkey} {ps : List (Pubkey × Pubkey)}
    {w : Pubkey} {ws : List Pubkey} {x : Participant} (hp : pair.1 = .participant key w) (hx : p w = some x)
    (unpaid : x.refundPaid = false) (hw : w ∉ ws)
    (owed : Owed key (Function.update p w (some (Participant.refunded x))) ps ws) :
    Owed key p (pair :: ps) (w :: ws) := by
  refine ⟨List.nodup_cons.2 ⟨hw, owed.distinct⟩, ?_, ?_, ?_⟩ <;> rw [List.forall_mem_cons]
  · refine ⟨⟨x, hx, unpaid⟩, fun q hq => ?_⟩
    have hne : q ≠ w := by
      rintro rfl
      exact hw hq
    simpa [hne] using owed.unpaid q hq
  · refine ⟨⟨pair.2, ?_⟩, fun q hq => ?_⟩
    · rw [← hp]
      exact List.mem_cons_self
    · exact (owed.listed q hq).imp fun _ => List.mem_cons_of_mem _
  · refine ⟨⟨w, x, hp, hx, fun _ => List.mem_cons_self⟩, fun e he => ?_⟩
    obtain ⟨q, y, hq, hy, himp⟩ := owed.all e he
    by_cases hqw : q = w
    · subst hqw
      exact ⟨q, x, hq, hx, fun _ => List.mem_cons_self⟩
    · rw [Function.update_of_ne hqw] at hy
      exact ⟨q, y, hq, hy, fun h => List.mem_cons_of_mem _ (himp h)⟩

theorem refundPairs_effect {ps : List (Pubkey × Pubkey)} {u : TokenAccount} (wf : Wellformed s)
    (hk : key.isTournament = true) (hu : (viewOf s key).vault = some u)
    (h : each (refundPair key t) s ps = .ok s') : ∃ ws, Owed key (viewOf s key).participant ps ws ∧
      Paid key s s' (ws.map fun w => (w, t.entryFee)) (refundAll ws (viewOf s key).participant) := by
  induction ps generalizing s u with
  | nil =>
      obtain rfl : s = s' := by simpa [each] using h
      exact ⟨[], ⟨.nil, by simp, by simp, by simp⟩, by rw [refundAll_nil]; exact Paid.none wf hu⟩
  | cons pair ps ih =>
      obtain ⟨m, hm, hrest⟩ := (each_cons_ok _ _ _ _ _).1 h
      obtain ⟨w, x, hp, hx, ⟨hpaid, rfl⟩ | ⟨hpaid, first⟩⟩ := refundPair_effect wf hk hm
      · obtain ⟨ws, owed, paid⟩ := ih wf hu hrest
        refine ⟨ws, ⟨owed.distinct, owed.unpaid, fun q hq => ?_, ?_⟩, paid⟩
        · exact (owed.listed q hq).imp fun _ => List.mem_cons_of_mem _
        · rw [List.forall_mem_cons]
          exact ⟨⟨w, x, hp, hx, by simp [hpaid]⟩, owed.all⟩
      · obtain ⟨u', _, _, hv⟩ := first.view
        obtain ⟨ws, owed, paid⟩ := ih first.confined.wf (by rw [hv]) hrest
        have marked : (viewOf m key).participant =
            Function.update (viewOf s key).participant w (some (Participant.refunded x)) := by rw [hv]
        rw [marked] at owed paid
        -- a wallet paid here is marked, so the rest of the loop skips it
        have hw : w ∉ ws := by
          intro hw
          obtain ⟨y, hy, hun⟩ := owed.unpaid w hw
          rw [Function.update_self] at hy
          obtain rfl := Option.some.inj hy
          exact Bool.false_ne_true hun.symm
        refine ⟨w :: ws, owed_cons hp hx hpaid hw owed, ?_⟩
        rw [refundAll_cons hx hw]
        exact first.append paid

theorem refundDeposit_effect {a : CancelTournament} {t' : Tournament} {u : TokenAccount} (wf : Wellformed s)
    (hk : key.isTournament = true) (hu : (viewOf s key).vault = some u) (signer : t.organizer.canSign = true)
    (h : refundDeposit key t a.organizerTokenAccount s = .ok (s', t')) :
    t' = (if CancelTournament.returnsDeposit a t then Tournament.depositReturned t else t) ∧
      Paid key s s' (refunds t (CancelTournament.returnsDeposit a t) []) (viewOf s key).participant := by
  simp only [refundDeposit, ite_ok] at h
  rcases h with ⟨⟨hpos, hflag⟩, h⟩ | ⟨hno, h⟩
  · cases ha : a.organizerTokenAccount with
    | none =>
        obtain ⟨rfl, rfl⟩ : s = s' ∧ t = t' := by simpa [ha] using h
        have hret : CancelTournament.returnsDeposit a t = false := by simp [CancelTournament.returnsDeposit, ha]
        simpa [hret, refunds] using Paid.none wf hu
    | some ata =>
        rw [ha] at h
        simp only [bind_ok, require_ok, pure_ok, Ledger.loadToken_ok, Prod.mk.injEq] at h
        obtain ⟨d, hd, _, _, _, ho, s₁, h₁, rfl, rfl⟩ := h
        have hret : CancelTournament.returnsDeposit a t = true := by
          simp [CancelTournament.returnsDeposit, ha, hpos, hflag]
        obtain ⟨u', hu', hle, hv⟩ := viewOf_transfer_out wf hk h₁ hd ho signer
        rw [hret]
        exact ⟨rfl, confined_transfer wf h₁ (.inl rfl), u', hu', by simpa [refunds] using hle,
          by simpa [refunds] using hv⟩
  · obtain ⟨rfl, rfl⟩ : s = s' ∧ t = t' := by simpa using h
    have hret : CancelTournament.returnsDeposit a t = false := by
      rw [← Bool.not_eq_true]
      intro hret
      simp only [CancelTournament.returnsDeposit, Bool.and_eq_true, decide_eq_true_eq, Bool.not_eq_true'] at hret
      exact hno hret.1
    simpa [hret, refunds] using Paid.none wf hu

theorem refundChunk_simulated {a : CancelTournament} {ix : Instruction} {t₀ t : Tournament} {u : TokenAccount}
    (wf : Wellformed s) (ht : s.tournament? a.tournament = some t₀)
    (hu : s.token? (.vault a.tournament) = some u) (refunding : Refunding t₀ a t ix)
    (flipped : ∃ status, t = { t₀ with status := status })
    (h : refundChunk a t s = .ok s') : Simulated rt a.tournament (.call ix) s s' := by
  have hk := isTournament_of_record wf ht
  have signer : t.organizer.canSign = true := by
    obtain ⟨_, rfl⟩ := flipped
    exact (record_fits wf ht).2.2
  simp only [refundChunk, bind_ok, require_ok, pure_ok] at h
  obtain ⟨_, _, ⟨s₁, t₁⟩, h₁, s₂, h₂, rfl⟩ := h
  obtain ⟨rfl, first⟩ := refundDeposit_effect wf hk hu signer h₁
  obtain ⟨u₁, _, _, hv₁⟩ := first.view
  obtain ⟨ws, owed, second⟩ := refundPairs_effect first.confined.wf hk (by rw [hv₁]) h₂
  have kept : (viewOf s₁ a.tournament).participant = (viewOf s a.tournament).participant := by rw [hv₁]
  have fee : (if CancelTournament.returnsDeposit a t then Tournament.depositReturned t else t).entryFee =
      t.entryFee := by
    split <;> rfl
  rw [kept] at owed second
  rw [fee] at second
  obtain ⟨c, u', hu', funded, hv⟩ := first.append second
  have payments : refunds t (CancelTournament.returnsDeposit a t) [] ++ ws.map (fun w => (w, t.entryFee)) =
      refunds t (CancelTournament.returnsDeposit a t) ws := by
    simp [refunds]
  have unflipped : refunds t (CancelTournament.returnsDeposit a t) ws =
      refunds t₀ (CancelTournament.returnsDeposit a t) ws := by
    obtain ⟨_, rfl⟩ := flipped
    rfl
  rw [payments, unflipped] at funded hv
  refine ⟨c.trans (confined_set_record wf ht c.wf ?_), ?_⟩
  · obtain ⟨_, rfl⟩ := flipped
    split <;> rfl
  · rw [viewOf_set_record hk, hv]
    exact .refund ix a rfl ws ht hu' refunding owed funded

theorem flipCancelled_ok {a : CancelTournament} {t t' : Tournament} (h : flipCancelled a t = .ok t') :
    t' = { t with status := .cancelled } ∧ (t.status = .cancelled ∨ a.caller = t.organizer) := by
  simp only [flipCancelled, ite_ok, bind_ok, require_ok, pure_ok] at h
  rcases h with ⟨hc, h⟩ | ⟨_, _, ho, rfl⟩
  · obtain rfl : t = t' := by simpa using h
    exact ⟨by rw [← hc], .inl hc⟩
  · exact ⟨rfl, .inr ho⟩

theorem cancel_simulated {a : CancelTournament} (wf : Wellformed s) (h : cancelTournament a s = .ok s') :
    Simulated rt a.tournament (.call (.cancelTournament a)) s s' := by
  simp only [cancelTournament, bind_ok, require_ok, Ledger.loadTournament_ok, Ledger.loadVault_ok] at h
  obtain ⟨t, ⟨ht, _⟩, u, ⟨hu, _⟩, _, _, _, hst, t', hflip, h⟩ := h
  exact refundChunk_simulated wf ht hu ⟨rfl, hst, hflip⟩ ⟨_, (flipCancelled_ok hflip).1⟩ h

theorem partialRefund_simulated {a : CancelTournament} (wf : Wellformed s) (h : partialRefundChunk a s = .ok s') :
    Simulated rt a.tournament (.call (.partialRefundChunk a)) s s' := by
  simp only [partialRefundChunk, bind_ok, require_ok, Ledger.loadTournament_ok, Ledger.loadVault_ok] at h
  obtain ⟨t, ⟨ht, _⟩, u, ⟨hu, _⟩, _, _, _, hst, h⟩ := h
  exact refundChunk_simulated wf ht hu ⟨rfl, hst, rfl⟩ ⟨t.status, rfl⟩ h

theorem partialCancel_simulated {a : PartialCancel} (wf : Wellformed s)
    (h : partialCancelTournament a s = .ok s') :
    Simulated rt a.tournament (.call (.partialCancelTournament a)) s s' := by
  simp only [partialCancelTournament, bind_ok, require_ok, pure_ok, Ledger.loadTournament_ok] at h
  obtain ⟨t, ⟨ht, _⟩, _, horg, _, hrun, rfl⟩ := h
  refine ⟨confined_set_record wf ht wf rfl, ?_⟩
  rw [viewOf_set_record (isTournament_of_record wf ht)]
  exact .partialCancel a rfl ht horg hrun

@[simp] theorem without_nil (v : TournamentView) : TournamentView.without key [] v = v := by
  simp [TournamentView.without]

theorem without_append (xs ys : List Pubkey) (v : TournamentView) :
    TournamentView.without key ys (TournamentView.without key xs v) = TournamentView.without key (xs ++ ys) v := by
  ext1
  case participant | node =>
    funext q
    simp only [TournamentView.without, List.mem_append]
    split_ifs <;> simp_all
  all_goals rfl

/-- A child that passes the checks of the loop is a participant or a match of
the tournament. -/
theorem embedded_child {child : Pubkey} (wf : Wellformed s) (hk : key.isTournament = true)
    (h : embeddedKey (s.accounts child) = some key) :
    (∃ w, child = .participant key w) ∨ ∃ slot, child = .matchNode key slot := by
  have fit := wf child
  have unsigned := not_canSign_of_isTournament hk
  cases ha : s.accounts child with
  | participant x =>
      rw [ha] at h fit
      obtain rfl : x.tournament = key := by simpa [embeddedKey] using h
      exact .inl ⟨_, fit.1⟩
  | matchNode m =>
      rw [ha] at h fit
      obtain rfl : m.tournament = key := by simpa [embeddedKey] using h
      exact .inr ⟨_, fit.1⟩
  | protocolConfig c | tournament t =>
      rw [ha] at h fit
      simp_all [embeddedKey, Account.fits]
  | zeroed =>
      rw [ha] at h
      obtain rfl : default = key := by simpa [embeddedKey] using h
      exact absurd hk (by decide)
  | system | mint | token _ | foreign _ _ => simp [ha, embeddedKey] at h

theorem viewOf_drain_child {child dest : Pubkey} (hk : key.isTournament = true)
    (h : (∃ w, child = .participant key w) ∨ ∃ slot, child = .matchNode key slot) :
    viewOf (s.drainAccount child dest) key = TournamentView.without key [child] (viewOf s key) := by
  have drained : viewOf (s.drainAccount child dest) key = viewOf (s.setAccount child .system) key := rfl
  rw [drained]
  rcases h with ⟨w, rfl⟩ | ⟨slot, rfl⟩
  · rw [viewOf_set_participant hk]
    ext1
    case participant =>
      funext q
      simp [TournamentView.without, Function.update_apply, Account.asParticipant]
    all_goals simp [TournamentView.without]
  · rw [viewOf_set_node hk]
    ext1
    case node =>
      funext q
      simp [TournamentView.without, Function.update_apply, Account.asMatchNode]
    all_goals simp [TournamentView.without]

theorem closeChildren_effect {organizer : Pubkey} {children : List Pubkey} (wf : Wellformed s)
    (hk : key.isTournament = true) (h : each (closeChild key organizer) s children = .ok s') :
    Confined (some key) s s' ∧ ∃ closed, (∀ p ∈ closed, p ∈ children) ∧
      viewOf s' key = TournamentView.without key closed (viewOf s key) := by
  induction children generalizing s with
  | nil =>
      obtain rfl : s = s' := by simpa [each] using h
      exact ⟨.refl wf, [], by simp, by simp⟩
  | cons child children ih =>
      obtain ⟨m, hm, hrest⟩ := (each_cons_ok _ _ _ _ _).1 h
      simp only [closeChild, ite_ok, bind_ok, require_ok, orThrow_ok, pure_ok] at hm
      rcases hm with ⟨_, hm⟩ | ⟨_, _, _, embedded, hemb, _, rfl, _, _, rfl⟩
      · obtain rfl : s = m := by simpa using hm
        obtain ⟨c, closed, hsub, hv⟩ := ih wf hrest
        exact ⟨c, closed, fun p hp => List.mem_cons_of_mem _ (hsub p hp), hv⟩
      · have hchild := embedded_child wf hk hemb
        have home : child.home = some embedded := by
          obtain ⟨_, rfl⟩ | ⟨_, rfl⟩ := hchild <;> rfl
        have c := confined_drain wf organizer home
        obtain ⟨c', closed, hsub, hv⟩ := ih c.wf hrest
        refine ⟨c.trans c', child :: closed, ?_, ?_⟩
        · rw [List.forall_mem_cons]
          exact ⟨List.mem_cons_self, fun p hp => List.mem_cons_of_mem _ (hsub p hp)⟩
        · rw [hv, viewOf_drain_child hk hchild, without_append, List.singleton_append]

theorem close_simulated {a : CloseTournament} (wf : Wellformed s) (h : closeTournament a s = .ok s') :
    Simulated rt a.tournament (.call (.closeTournament a)) s s' := by
  simp only [closeTournament, bind_ok, require_ok, ite_ok, pure_ok, Ledger.loadTournament_ok,
    Ledger.loadVault_ok] at h
  obtain ⟨t, ⟨ht, _⟩, _, _, _, _, u, ⟨hu, _⟩, _, hend, s₁, h₁, h⟩ := h
  have hk := isTournament_of_record wf ht
  obtain ⟨c, closed, hsub, hv⟩ := closeChildren_effect wf hk h₁
  rcases h with ⟨hroot, h⟩ | ⟨hkeep, rfl⟩
  · simp only [closeRoot, bind_ok, require_ok, pure_ok] at h
    obtain ⟨_, _, _, hempty, rfl⟩ := h
    have c₁ := confined_drain (p := .vault a.tournament) c.wf a.organizer rfl
    have c₂ := confined_drain c₁.wf a.organizer (home_self hk)
    refine ⟨(c.trans c₁).trans c₂, ?_⟩
    have drained : viewOf ((s₁.drainAccount (.vault a.tournament) a.organizer).drainAccount a.tournament
        a.organizer) a.tournament =
        viewOf ((s₁.setAccount (.vault a.tournament) .system).setAccount a.tournament .system) a.tournament := rfl
    rw [drained, viewOf_set_record hk, viewOf_set_vault hk, hv]
    exact .closeRoot a rfl closed ht hu hend hsub hroot hempty
  · refine ⟨c, ?_⟩
    rw [hv]
    exact .closeChildren a rfl closed ht hend hsub (by simpa using hkeep)

end BracketChain.RefundEffects
