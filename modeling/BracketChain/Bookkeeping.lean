import BracketChain.Lives
import Mathlib.Data.List.Perm.Subperm

namespace BracketChain.Bookkeeping

open Outcome Keys Records Accounts Registration Start Settlement Envelope Refunds Program Runs Layout View Lifecycle
  RefundEffects Refinement Lives

theorem length_add_length_le {α : Type} {xs ys zs : List α} (hx : xs.Nodup) (hy : ys.Nodup)
    (disjoint : ∀ x ∈ xs, x ∉ ys) (sub : xs ⊆ zs) (sub' : ys ⊆ zs) : xs.length + ys.length ≤ zs.length := by
  have nodup : (xs ++ ys).Nodup := List.nodup_append.2 ⟨hx, hy, fun x hx y hy h => disjoint x hx (h ▸ hy)⟩
  simpa using (nodup.subperm (List.append_subset.2 ⟨sub, sub'⟩)).length_le

/-- The participants after a call that touches statistics only. -/
def KeepsRoles (p p' : Pubkey → Option Participant) : Prop :=
  ∀ w, (p' w).map (fun x => (x.seedIndex, x.refundPaid)) = (p w).map fun x => (x.seedIndex, x.refundPaid)

theorem KeepsRoles.refl (p : Pubkey → Option Participant) : KeepsRoles p p := fun _ => rfl

theorem KeepsRoles.some {p p' : Pubkey → Option Participant} (h : KeepsRoles p p') {w : Pubkey}
    {x' : Participant} (hx : p' w = some x') :
    ∃ x, p w = some x ∧ x.seedIndex = x'.seedIndex ∧ x.refundPaid = x'.refundPaid := by
  have hw := h w
  rw [hx, Option.map_some, eq_comm, Option.map_eq_some_iff] at hw
  simpa using hw

theorem KeepsRoles.isSome {p p' : Pubkey → Option Participant} (h : KeepsRoles p p') (w : Pubkey) :
    (p' w).isSome = (p w).isSome := by
  simpa using congrArg Option.isSome (h w)

theorem credited_keepsRoles {m : MatchNode} {winner : Pubkey} {p p' : Pubkey → Option Participant}
    (h : Credited m winner p p') : KeepsRoles p p' := by
  obtain ⟨a, b, ha, hb, rfl⟩ := h
  have roles : (creditMatchStats a b winner).1.seedIndex = a.seedIndex ∧
      (creditMatchStats a b winner).1.refundPaid = a.refundPaid ∧
      (creditMatchStats a b winner).2.seedIndex = b.seedIndex ∧
      (creditMatchStats a b winner).2.refundPaid = b.refundPaid := by
    unfold creditMatchStats
    split <;> exact ⟨rfl, rfl, rfl, rfl⟩
  obtain ⟨h₁, h₂, h₃, h₄⟩ := roles
  intro w
  by_cases hB : w = m.playerB
  · simp [hB, hb, h₃, h₄]
  · by_cases hA : w = m.playerA
    · subst hA
      rw [Function.update_of_ne hB, Function.update_self, ha]
      simp [h₁, h₂]
    · simp [Function.update_of_ne hB, Function.update_of_ne hA]

theorem finalizes_keepsRoles {key : Pubkey} {clock : Clock} {v : TournamentView} {ix : Instruction}
    {a : FinalizeAccounts} {slot : Slot} {t : Tournament} {m : MatchNode} {winner : Pubkey}
    {p' : Pubkey → Option Participant} (h : Finalizes key clock v ix a slot t m winner p') :
    KeepsRoles v.participant p' := by
  rcases h.stats with ⟨_, rfl⟩ | credited
  · exact .refl _
  · exact credited_keepsRoles credited

variable {rt : Runtime} {key : Pubkey}

theorem participants_stay {clock : Clock} {b : Action} {v v' : TournamentView} {t : Tournament} {w : Pubkey}
    (effect : Effect rt key clock b v v') (ht : v.record = some t) (open_ : (v'.record).isSome = true)
    (hw : (v.participant w).isSome = true) : (v'.participant w).isSome = true ∨
      (terminal t.status ∧ ∃ c, b = .call (.closeTournament c) ∧ c.tournament = key ∧
        .participant key w ∈ c.remainingAccounts) := by
  cases effect with
  | join c =>
      left
      by_cases hq : w = c.player
      · simp [hq]
      · simpa [hq] using hw
  | advance _ _ _ _ finalizes | conclude _ _ _ _ _ finalizes =>
      exact .inl (((finalizes_keepsRoles finalizes).isSome w).trans hw)
  | refund _ _ _ ws =>
      left
      simp only [refundAll]
      split <;> simpa using hw
  | closeChildren c key_eq closed record ended listed =>
      by_cases hc : .participant key w ∈ closed
      · obtain rfl := Option.some.inj (ht.symm.trans record)
        exact .inr ⟨ended, c, rfl, key_eq, listed _ hc⟩
      · exact .inl (by simpa [TournamentView.without, hc] using hw)
  | closeRoot => cases open_
  | others | create | requestSeed | revealSeed | start | edit | partialCancel => exact .inl hw

/-- An open participant belongs to the books: it joined under the number it
carries and is marked when it was refunded, or it is a marked leftover. -/
structure Entered (v₀ : TournamentView) (joined refunded : List Pubkey) (w : Pubkey) (seedIndex : Nat)
    (refundPaid : Bool) : Prop where
  numbered : w ∈ joined → joined[seedIndex]? = some w ∧ (refundPaid = true ↔ w ∈ refunded)
  leftover : w ∉ joined → refundPaid = true ∧ (v₀.participant w).isSome = true

/-- The books of a tournament: who joined, in order, and who was refunded,
what the vault then holds, up to tokens others sent, and what it has paid. -/
structure Books (v₀ : TournamentView) (joined refunded : List Pubkey) (sent : Nat) (t : Tournament)
    (v : TournamentView) : Prop where
  joined_nodup : joined.Nodup
  refunded_nodup : refunded.Nodup
  refunded_joined : refunded ⊆ joined
  count : t.participantCount = joined.length
  entered : ∀ w x, v.participant w = some x → Entered v₀ joined refunded w x.seedIndex x.refundPaid
  present : ¬ terminal t.status → ∀ w ∈ joined, (v.participant w).isSome = true
  vault : v.vault.isSome = true
  held : t.status ≠ .completed → ∃ u, v.vault = some u ∧ u.mint = t.tokenMint ∧
    u.amount = t.entryFee * (joined.length - refunded.length) +
      (if t.organizerDepositRefunded then 0 else t.organizerDeposit) + sent
  paid : t.status ≠ .completed → v.paid.Perm (v₀.paid ++ refunds t t.organizerDepositRefunded refunded)
  early : ¬ terminal t.status → refunded = [] ∧ t.organizerDepositRefunded = false

/-- The wallet that a step on the tournament lets in. -/
def joinedBy (key : Pubkey) : Action → List Pubkey
  | .call (.joinTournament a) => if a.tournament = key then [a.player] else []
  | _ => []

def joins (key : Pubkey) (past : History) : List Pubkey := past.flatMap fun e => joinedBy key e.2

theorem joins_snoc (key : Pubkey) (past : History) (s : Ledger) (b : Action) :
    joins key (past ++ [(s, b)]) = joins key past ++ joinedBy key b := by
  simp [joins]

section Steps

variable {v₀ v : TournamentView} {joined refunded : List Pubkey} {sent : Nat} {t t' : Tournament}

theorem Books.withRecord (h : Books v₀ joined refunded sent t v) (r : Option Tournament) :
    Books v₀ joined refunded sent t { v with record := r } := { h with }

theorem Books.credit (h : Books v₀ joined refunded sent t v) (k : Nat) :
    Books v₀ joined refunded (sent + k) t (v.credit k) := by
  refine { h with
    vault := by simpa [TournamentView.credit] using h.vault
    held := fun hst => ?_ }
  obtain ⟨u, hu, hm, ha⟩ := h.held hst
  exact ⟨TokenAccount.plus u k, by simp [TournamentView.credit, hu], hm, by simp only [TokenAccount.plus]; omega⟩

theorem Books.update (h : Books v₀ joined refunded sent t v) {p : Pubkey → Option Participant}
    {n : Slot → Option MatchNode} (terms : SameTerms t t') (count : t'.participantCount = t.participantCount)
    (flag : t'.organizerDepositRefunded = t.organizerDepositRefunded) (roles : KeepsRoles v.participant p)
    (status : t.status = .completed → t'.status = .completed) (alive : terminal t.status → terminal t'.status) :
    Books v₀ joined refunded sent t'
      { v with record := some t', participant := p, node := n } where
  joined_nodup := h.joined_nodup
  refunded_nodup := h.refunded_nodup
  refunded_joined := h.refunded_joined
  count := count.trans h.count
  entered w x hx := by
    obtain ⟨y, hy, hs, hr⟩ := roles.some hx
    exact hs ▸ hr ▸ h.entered w y hy
  present hst w hw := (roles.isSome w).trans (h.present (fun ht => hst (alive ht)) w hw)
  vault := h.vault
  held hst := by
    rw [terms.entryFee, terms.organizerDeposit, terms.tokenMint, flag]
    exact h.held fun ht => hst (status ht)
  paid hst := by
    have same : refunds t' t'.organizerDepositRefunded refunded = refunds t t.organizerDepositRefunded refunded := by
      simp only [refunds, terms.entryFee, terms.organizerDeposit, terms.organizer, flag]
    rw [same]
    exact h.paid fun ht => hst (status ht)
  early hst := by
    rw [flag]
    exact h.early fun ht => hst (alive ht)

theorem Books.join (h : Books v₀ joined refunded sent t v) {w : Pubkey} {x : Participant} {u : TokenAccount}
    (open_ : ¬ terminal t.status) (vault : v.vault = some u) (new : v.participant w = none)
    (number : x.seedIndex = t.participantCount) (unpaid : x.refundPaid = false) :
    Books v₀ (joined ++ [w]) refunded sent { t with participantCount := t.participantCount + 1 }
      { v with
        record := some { t with participantCount := t.participantCount + 1 }
        participant := Function.update v.participant w (some x)
        vault := some (TokenAccount.plus u t.entryFee) } := by
  have hw : w ∉ joined := fun hw => by simpa [new] using h.present open_ w hw
  obtain ⟨rfl, hflag⟩ := h.early open_
  refine ⟨?_, .nil, List.nil_subset _, by simp [h.count], fun q y hy => ?_, fun _ q hq => ?_, rfl,
    fun hst => ?_, h.paid, h.early⟩
  · exact List.nodup_append.2 ⟨h.joined_nodup, by simp, by
      rintro q hq _ hw' rfl
      exact hw (List.mem_singleton.1 hw' ▸ hq)⟩
  · by_cases hq : q = w
    · subst hq
      obtain rfl : x = y := by simpa using hy
      exact ⟨fun _ => ⟨by simp [number, h.count], by simp [unpaid]⟩, fun hq => by simp at hq⟩
    · have old := h.entered q y (by simpa [hq] using hy)
      refine ⟨fun hj => ?_, fun hj => old.leftover fun hj' => hj (List.mem_append_left _ hj')⟩
      obtain ⟨hi, hr⟩ := old.numbered (by simpa [hq] using hj)
      exact ⟨List.getElem?_append_left (List.getElem?_eq_some_iff.1 hi).1 ▸ hi, hr⟩
  · by_cases hq' : q = w
    · simp [hq']
    · simpa [hq'] using h.present open_ q (by simpa [hq'] using hq)
  · obtain ⟨u', hu', hm, ha⟩ := h.held hst
    obtain rfl : u = u' := Option.some.inj (vault.symm.trans hu')
    refine ⟨_, rfl, hm, ?_⟩
    simp only [TokenAccount.plus, ha, List.length_append, List.length_singleton, List.length_nil, Nat.sub_zero,
      Nat.mul_add, Nat.mul_one]
    omega

theorem Books.unpaid (h : Books v₀ joined refunded sent t v) {w : Pubkey} {x : Participant}
    (hx : v.participant w = some x) (unpaid : x.refundPaid = false) : w ∈ joined ∧ w ∉ refunded := by
  have entered := h.entered w x hx
  have hj : w ∈ joined := by
    by_contra hj
    exact Bool.false_ne_true (unpaid.symm.trans (entered.leftover hj).1)
  refine ⟨hj, fun hr => ?_⟩
  exact Bool.false_ne_true (unpaid.symm.trans ((entered.numbered hj).2.2 hr))

theorem Books.owed_length (h : Books v₀ joined refunded sent t v) {ws : List Pubkey} (distinct : ws.Nodup)
    (unpaid : ∀ w ∈ ws, ∃ x, v.participant w = some x ∧ x.refundPaid = false) :
    ws.length + refunded.length ≤ joined.length := by
  refine length_add_length_le distinct h.refunded_nodup (fun w hw => ?_) (fun w hw => ?_) h.refunded_joined <;>
    obtain ⟨x, hx, hun⟩ := unpaid w hw
  · exact (h.unpaid hx hun).2
  · exact (h.unpaid hx hun).1

theorem total_fees (fee : Nat) (ws : List Pubkey) : total (ws.map fun w => (w, fee)) = fee * ws.length := by
  simp [total, Function.comp_def, Nat.mul_comm]

theorem total_refunds (t : Tournament) (deposit : Bool) (ws : List Pubkey) :
    total (refunds t deposit ws) = (if deposit then t.organizerDeposit else 0) + t.entryFee * ws.length := by
  rw [refunds, total_append, total_fees]
  cases deposit <;> simp

theorem refunds_append (t : Tournament) (b c : Bool) (xs ys : List Pubkey) (once : b = false ∨ c = false) :
    (refunds t b xs ++ refunds t c ys).Perm (refunds t (b || c) (xs ++ ys)) := by
  rcases once with rfl | rfl
  · cases c
    · simp [refunds]
    · simp only [refunds, Bool.false_or, if_true, Bool.false_eq_true, if_false, List.nil_append, List.map_append]
      exact List.perm_middle
  · simp [refunds]

theorem Books.refund (h : Books v₀ joined refunded sent t v) {key : Pubkey} {ps : List (Pubkey × Pubkey)}
    {ws : List Pubkey} {u : TokenAccount} {deposit : Bool} {status : TournamentStatus}
    (vault : v.vault = some u) (owed : Owed key v.participant ps ws) (running : t.status ≠ .completed)
    (ended : terminal status) (once : t.organizerDepositRefunded = false ∨ deposit = false) :
    Books v₀ joined (refunded ++ ws) sent
      { t with status := status, organizerDepositRefunded := t.organizerDepositRefunded || deposit }
      { v with
        record := some { t with
          status := status
          organizerDepositRefunded := t.organizerDepositRefunded || deposit }
        participant := refundAll ws v.participant
        vault := some (TokenAccount.minus u (total (refunds t deposit ws)))
        paid := v.paid ++ refunds t deposit ws } := by
  have apart {w} (hw : w ∈ ws) : w ∈ joined ∧ w ∉ refunded := by
    obtain ⟨x, hx, hun⟩ := owed.unpaid w hw
    exact h.unpaid hx hun
  refine ⟨h.joined_nodup, ?_, ?_, h.count, fun q y hy => ?_, fun hst => absurd ended hst, rfl,
    fun _ => ?_, fun _ => ?_, fun hst => absurd ended hst⟩
  · exact List.nodup_append.2 ⟨h.refunded_nodup, owed.distinct, fun w hr _ hw hq => (apart hw).2 (hq ▸ hr)⟩
  · exact List.append_subset.2 ⟨h.refunded_joined, fun w hw => (apart hw).1⟩
  · by_cases hq : q ∈ ws
    · obtain ⟨x, hx, rfl⟩ : ∃ x, v.participant q = some x ∧ Participant.refunded x = y := by
        simpa [refundAll, hq] using hy
      have old := h.entered q x hx
      exact ⟨fun hj => ⟨(old.numbered hj).1, by simp [Participant.refunded, hq]⟩,
        fun hj => ⟨rfl, (old.leftover hj).2⟩⟩
    · have old := h.entered q y (by simpa [refundAll, hq] using hy)
      exact ⟨fun hj => ⟨(old.numbered hj).1, by simpa [hq] using (old.numbered hj).2⟩, old.leftover⟩
  · obtain ⟨u', hu', hm, ha⟩ := h.held running
    obtain rfl : u = u' := Option.some.inj (vault.symm.trans hu')
    have fits := h.owed_length owed.distinct owed.unpaid
    have rest : t.entryFee * (joined.length - refunded.length) =
        t.entryFee * (joined.length - (refunded.length + ws.length)) + t.entryFee * ws.length := by
      rw [← Nat.mul_add]
      congr 1
      omega
    refine ⟨_, rfl, hm, ?_⟩
    simp only [TokenAccount.minus, total_refunds, ha, rest, List.length_append]
    rcases once with hf | rfl
    · cases deposit <;> simp [hf] <;> omega
    · simp
      omega
  · have perm := (h.paid running).append_right (refunds t deposit ws)
    rw [List.append_assoc] at perm
    exact perm.trans ((refunds_append t _ _ refunded ws once).append_left v₀.paid)

theorem Books.without (h : Books v₀ joined refunded sent t v) (ended : terminal t.status) (key : Pubkey)
    (closed : List Pubkey) : Books v₀ joined refunded sent t (TournamentView.without key closed v) := by
  refine { h with
    entered := fun w x hx => h.entered w x ?_
    present := fun hst => absurd ended hst }
  simp only [TournamentView.without] at hx
  split at hx
  · cases hx
  · exact hx

theorem Books.conclude (h : Books v₀ joined refunded sent t v) {champion : Pubkey} {now : Int}
    {p : Pubkey → Option Participant} {n : Slot → Option MatchNode} {u : TokenAccount}
    {paid : List (Pubkey × Nat)} (roles : KeepsRoles v.participant p) :
    Books v₀ joined refunded sent (Tournament.concluded t champion now)
      ⟨some (Tournament.concluded t champion now), p, n, some u, paid⟩ where
  joined_nodup := h.joined_nodup
  refunded_nodup := h.refunded_nodup
  refunded_joined := h.refunded_joined
  count := h.count
  entered w x hx := by
    obtain ⟨y, hy, hs, hr⟩ := roles.some hx
    exact hs ▸ hr ▸ h.entered w y hy
  present hst := absurd (.inl rfl) hst
  vault := rfl
  held hst := absurd rfl hst
  paid hst := absurd rfl hst
  early hst := absurd (.inl rfl) hst

end Steps

theorem opens_kept {t t' : Tournament} (h : Opens t t') : t'.participantCount = t.participantCount ∧
    t'.organizerDepositRefunded = t.organizerDepositRefunded := by
  rcases h with ⟨_, _, _, _, _, _, rfl⟩ | ⟨_, rfl⟩ <;> exact ⟨rfl, rfl⟩

theorem returnsDeposit_once (c : CancelTournament) (t : Tournament) :
    t.organizerDepositRefunded = false ∨ CancelTournament.returnsDeposit c t = false := by
  cases hf : t.organizerDepositRefunded
  · exact .inl rfl
  · exact .inr (by simp [CancelTournament.returnsDeposit, hf])

structure BooksStep (key : Pubkey) (b : Action) (v₀ v v' : TournamentView) (joined refunded : List Pubkey)
    (sent : Nat) (t' : Tournament) (ws : List Pubkey) (k : Nat) : Prop where
  books : Books v₀ (joined ++ joinedBy key b) (refunded ++ ws) (sent + k) t' v'
  sent : k = 0 ∨ (b.tournament ≠ some key ∧ v' = v.credit k)
  marked : ∀ w ∈ ws, ∃ x, v'.participant w = some x ∧ x.refundPaid = true

theorem joinedBy_other {key : Pubkey} {b : Action} (h : b.tournament ≠ some key) : joinedBy key b = [] := by
  cases b with
  | outside => rfl
  | call ix =>
      cases ix with
      | joinTournament a =>
          refine if_neg ?_
          rintro rfl
          exact h rfl
      | _ => rfl

theorem joinedBy_edit {key : Pubkey} {ix : Instruction} {a : MatchAccounts} (h : Instruction.edit? ix = some a) :
    joinedBy key (.call ix) = [] := by
  cases ix <;> simp_all [Instruction.edit?, joinedBy]

theorem joinedBy_finalize {key : Pubkey} {ix : Instruction} {a : FinalizeAccounts}
    (h : Instruction.finalize? ix = some a) : joinedBy key (.call ix) = [] := by
  cases ix <;> simp_all [Instruction.finalize?, joinedBy]

theorem joinedBy_refund {key : Pubkey} {ix : Instruction} {t t' : Tournament} {a : CancelTournament}
    (h : Refunding t a t' ix) : joinedBy key (.call ix) = [] := by
  cases ix <;> simp_all [Refunding, joinedBy]

theorem books_step {rt : Runtime} {key : Pubkey} {clock : Clock} {b : Action} {v₀ v v' : TournamentView}
    {joined refunded : List Pubkey} {sent : Nat} {t t' : Tournament}
    (h : Books v₀ joined refunded sent t v) (ht : v.record = some t) (ht' : v'.record = some t')
    (effect : Effect rt key clock b v v') :
    ∃ ws k, BooksStep key b v₀ v v' joined refunded sent t' ws k := by
  have same {t₁ : Tournament} (h₁ : v.record = some t₁) : t = t₁ := Option.some.inj (ht.symm.trans h₁)
  -- all but joins, refunds and gifts leave the lists and the balance as they are
  have quiet (hb : joinedBy key b = []) (hbooks : Books v₀ joined refunded sent t' v') :
      ∃ ws k, BooksStep key b v₀ v v' joined refunded sent t' ws k :=
    ⟨[], 0, by simpa [hb] using hbooks, .inl rfl, by simp⟩
  have update {n : Slot → Option MatchNode} {p : Pubkey → Option Participant} (terms : SameTerms t t')
      (count : t'.participantCount = t.participantCount)
      (flag : t'.organizerDepositRefunded = t.organizerDepositRefunded) (roles : KeepsRoles v.participant p)
      (status : t.status = .completed → t'.status = .completed)
      (alive : terminal t.status → terminal t'.status) (hb : joinedBy key b = [])
      (hv : v' = { v with record := some t', participant := p, node := n }) :
      ∃ ws k, BooksStep key b v₀ v v' joined refunded sent t' ws k :=
    quiet hb (hv ▸ h.update terms count flag roles status alive)
  have terms := effect_terms effect ht ht'
  cases effect with
  | others k other =>
      obtain rfl := same ht'
      exact ⟨[], k, by simpa [joinedBy_other other] using h.credit k, .inr ⟨other, rfl⟩, by simp⟩
  | create _ _ _ unopened => simp [ht] at unopened
  | join c key_eq signer identity record vault new open_ =>
      obtain rfl := same record
      obtain rfl := Option.some.inj ht'
      have hjoin := h.join (w := c.player) (x := newParticipant key c.player t.participantCount identity)
        (by simp [terminal, open_]) vault new rfl rfl
      exact ⟨[], 0, by simpa [joinedBy, key_eq] using hjoin, .inl rfl, by simp⟩
  | requestSeed _ _ record | revealSeed _ _ _ record =>
      obtain rfl := same record
      obtain rfl := Option.some.inj ht'
      exact update terms rfl rfl (.refl _) id id rfl rfl
  | partialCancel _ _ record _ running =>
      obtain rfl := same record
      obtain rfl := Option.some.inj ht'
      exact update terms rfl rfl (.refl _) (by simp [running]) (by simp [terminal, running]) rfl rfl
  | start _ _ record _ opens _ tallied bound =>
      obtain rfl := same record
      obtain rfl := Option.some.inj ht'
      obtain ⟨before, _⟩ := opens_status opens
      have counted := tally_ok bound tallied
      have kept := opens_kept opens
      refine update terms ?_ ?_ (.refl _) ?_ ?_ rfl rfl
      · rw [counted, ← kept.1]
      · rw [counted, ← kept.2]
      all_goals rcases before with before | before <;> simp [terminal, before]
  | edit _ _ slot call _ _ record =>
      obtain rfl := same ht'
      exact update terms rfl rfl (.refl _) id id (joinedBy_edit call) (by rw [ht])
  | advance _ _ _ _ finalizes =>
      obtain rfl := same finalizes.record
      obtain rfl := Option.some.inj ht'
      exact update terms rfl rfl (finalizes_keepsRoles finalizes) id id (joinedBy_finalize finalizes.call) rfl
  | conclude _ _ _ u paid finalizes =>
      obtain rfl := same finalizes.record
      obtain rfl := Option.some.inj ht'
      exact quiet (joinedBy_finalize finalizes.call) (h.conclude (finalizes_keepsRoles finalizes))
  | @refund _ ix c _ _ t₁ u ws record vault refunding owed =>
      obtain rfl := same record
      obtain ⟨status, rfl, running, ended⟩ := refunding_status refunding
      have once := returnsDeposit_once c { t with status := status }
      have hbooks := h.refund vault owed running ended once
      have flipped : t' = { t with
          status := status
          organizerDepositRefunded := t.organizerDepositRefunded ||
            CancelTournament.returnsDeposit c { t with status := status } } := by
        obtain rfl := Option.some.inj ht'
        split <;> rename_i hd <;> simp [hd, Tournament.depositReturned]
      refine ⟨ws, 0, ?_, .inl rfl, fun w hw => ?_⟩
      · rw [joinedBy_refund refunding, List.append_nil, Nat.add_zero, flipped]
        exact hbooks.withRecord _
      · obtain ⟨x, hx, _⟩ := owed.unpaid w hw
        exact ⟨Participant.refunded x, by simp [refundAll, hw, hx], rfl⟩
  | closeChildren _ _ closed record ended =>
      obtain rfl := same record
      obtain rfl := same ht'
      exact quiet rfl (h.without ended key closed)
  | closeRoot => cases ht'

def vaultAmount (s : Ledger) (key : Pubkey) : Nat := ((s.token? (.vault key)).map TokenAccount.amount).getD 0

/-- A step on something else that moves tokens into the vault. -/
def SendsTo (rt : Runtime) (key : Pubkey) (e : Ledger × Action) : Prop :=
  e.2.tournament ≠ some key ∧ ∃ t, Step rt e.1 e.2 t ∧ vaultAmount t key ≠ vaultAmount e.1 key

/-- The participant of a wallet was marked as refunded at some point. -/
def Refunded (key : Pubkey) (past : History) (s : Ledger) (w : Pubkey) : Prop :=
  ∃ q x, Visits past s q ∧ q.participant? (.participant key w) = some x ∧ x.refundPaid = true

theorem refunded_snoc {key w : Pubkey} {past : History} {s t : Ledger} {b : Action} :
    Refunded key (past ++ [(s, b)]) t w ↔ Refunded key past s w ∨
      ∃ x, t.participant? (.participant key w) = some x ∧ x.refundPaid = true := by
  constructor
  · rintro ⟨q, x, hq, hx, hr⟩
    rcases visits_snoc.1 hq with rfl | hq
    · exact .inr ⟨x, hx, hr⟩
    · exact .inl ⟨q, x, hq, hx, hr⟩
  · rintro (⟨q, x, hq, hx, hr⟩ | ⟨x, hx, hr⟩)
    · exact ⟨q, x, visits_snoc.2 (.inr hq), hx, hr⟩
    · exact ⟨t, x, .inl rfl, hx, hr⟩

/-- The books of a life: the joins of its history in order, the wallets
refunded, and what was sent to the vault. -/
structure Kept (rt : Runtime) (key : Pubkey) (born : Ledger) (past : History) (s : Ledger)
    (refunded : List Pubkey) (sent : Nat) (t : Tournament) : Prop where
  record : (viewOf s key).record = some t
  books : Books (viewOf born key) (joins key past) refunded sent t (viewOf s key)
  refunded_iff : Fresh key born → ∀ w, w ∈ refunded ↔ Refunded key past s w
  unsent : Always (fun e => ¬ SendsTo rt key e) past → sent = 0

section Life

variable {rt : Runtime} {a : CreateTournament} {born start s : Ledger} {past : History}

theorem books_start (life : Life rt a born start past s)
    (old : ∀ w x, born.participant? (.participant a.key w) = some x → x.refundPaid = true) :
    Kept rt a.key born [] start [] 0 (a.record born.clock.unixTimestamp) := by
  obtain ⟨_, _, view⟩ := life.start_view
  refine ⟨by rw [view], ⟨.nil, .nil, List.nil_subset _, rfl, fun w x hx => ?_, fun _ w hw => ?_, by rw [view]; rfl,
    fun _ => ?_, fun _ => ?_, fun _ => ⟨rfl, rfl⟩⟩, fun fresh w => ?_, fun _ => rfl⟩
  · rw [view] at hx
    exact ⟨fun hw => by simp [joins] at hw, fun _ => ⟨old w x hx, Option.isSome_iff_exists.2 ⟨x, hx⟩⟩⟩
  · simp [joins] at hw
  · refine ⟨⟨a.tokenMint, a.key, a.organizerDeposit, false⟩, by rw [view], rfl, ?_⟩
    simp [CreateTournament.record, joins]
  · rw [view]
    simp [refunds, CreateTournament.record]
  · have none_ : start.participant? (.participant a.key w) = none := by
      have hp := congrFun (congrArg TournamentView.participant view) w
      exact hp.trans (fresh.participant w)
    simp [Refunded, Visits, none_]

theorem life_books (life : Life rt a born start past s)
    (old : ∀ w x, born.participant? (.participant a.key w) = some x → x.refundPaid = true) :
    ∃ refunded sent t, Kept rt a.key born past s refunded sent t := by
  refine life.invariant (P := fun past s => ∃ refunded sent t, Kept rt a.key born past s refunded sent t)
    ⟨[], 0, _, books_start life old⟩ ?_
  rintro past s b s' earlier ⟨refunded, sent, t, kept⟩ step effect later
  obtain ⟨t', ht'⟩ := later.record
  obtain ⟨ws, k, hbooks, hsent, marked⟩ := books_step kept.books kept.record ht' effect
  refine ⟨refunded ++ ws, sent + k, t', ht', by rw [joins_snoc]; exact hbooks, fun fresh w => ?_, fun unsent => ?_⟩
  · rw [refunded_snoc, ← kept.refunded_iff fresh w, List.mem_append]
    constructor
    · rintro (hw | hw)
      · exact .inl hw
      · exact .inr (marked w hw)
    · rintro (hw | ⟨x, hx, hr⟩)
      · exact .inl hw
      · have entered := hbooks.entered w x hx
        by_cases hj : w ∈ joins a.key past ++ joinedBy a.key b
        · exact List.mem_append.1 ((entered.numbered hj).2.1 hr)
        · have hold := (entered.leftover hj).2
          rw [show (viewOf born a.key).participant w = none from fresh.participant w] at hold
          cases hold
  · obtain ⟨unsent, hlast⟩ := always_snoc.1 unsent
    rcases hsent with rfl | ⟨other, hv⟩
    · exact kept.unsent unsent
    · obtain ⟨u, hu⟩ := Option.isSome_iff_exists.1 kept.books.vault
      have hu' : s'.token? (.vault a.key) = some (TokenAccount.plus u k) := by
        have := congrArg TournamentView.vault hv
        rwa [TournamentView.credit, hu] at this
      have amounts : vaultAmount s' a.key = vaultAmount s a.key := by
        by_contra hne
        exact hlast ⟨other, s', step, hne⟩
      rw [vaultAmount, vaultAmount, hu', show s.token? (.vault a.key) = some u from hu] at amounts
      simp only [Option.map_some, Option.getD_some, TokenAccount.plus] at amounts
      rw [kept.unsent unsent]
      omega

theorem life_fresh_books (life : Life rt a born start past s) (fresh : Fresh a.key born) :
    ∃ refunded sent t, Kept rt a.key born past s refunded sent t := by
  refine life_books life fun w x hx => ?_
  rw [fresh.participant w] at hx
  cases hx

end Life

end BracketChain.Bookkeeping
