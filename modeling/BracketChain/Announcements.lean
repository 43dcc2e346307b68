import BracketChain.Emissions
import BracketChain.Matches
import BracketChain.Prizes

namespace BracketChain.Announcements

open Outcome Keys Records Accounts Payout Registration Start Settlement Envelope Refunds Program Runs Layout View
  Lifecycle RegistrationEffects FinalizeEffects RefundEffects Refinement Lives Matches Drain Prizes Recording Events Emissions

/-- The payments out of a vault that an event tells of. -/
def Event.payments : Event → List (Pubkey × Nat)
  | .refundIssued e => [(e.wallet, e.amount)]
  | .tournamentCompleted e => (e.placementPayouts.map fun p => (p.recipient, p.amount)) ++
      if e.feeAmount = 0 then [] else [(e.treasuryRecipient, e.feeAmount)]
  | _ => []

def Event.entrant? : Event → Option Pubkey
  | .participantRegistered e => some e.wallet
  | _ => none

/-- All that the events of a log say was paid out of the vault of a tournament. -/
def announced (key : Pubkey) (log : List Event) : List (Pubkey × Nat) :=
  (log.filter fun e => e.tournament = key).flatMap Event.payments

variable {rt : Runtime} {s m s' : Ledger} {key mint : Pubkey} {xs ys : List (Pubkey × Nat)}

theorem announced_append (log more : List Event) :
    announced key (log ++ more) = announced key log ++ announced key more := by
  rw [announced, List.filter_append, List.flatMap_append]
  rfl

section Payments

/-- Transfers out of the vault, seen as payments to the owners of the
accounts that are credited. -/
def Pays (key : Pubkey) (s s' : Ledger) (payments : List (Pubkey × Nat)) : Prop :=
  ∃ moves, Moves key s s' moves ∧ (∀ x ∈ moves, x.source = .vault key) ∧
    moves.map (fun x => (x.recipient, x.amount)) = payments

theorem Pays.none (key : Pubkey) (s : Ledger) : Pays key s s [] := ⟨[], .none key s, by simp, rfl⟩

theorem Pays.append (first : Pays key s m xs) (second : Pays key m s' ys) : Pays key s s' (xs ++ ys) := by
  obtain ⟨moves, h, own, rfl⟩ := first
  obtain ⟨moves', h', own', rfl⟩ := second
  refine ⟨moves ++ moves', h.append h', fun x hx => ?_, by rw [List.map_append]⟩
  exact (List.mem_append.1 hx).elim (own x) (own' x)

theorem pays_one {p wallet : Pubkey} {amount : Nat} (checked : s.validateTokenAccount p wallet mint = .ok ())
    (h : s.tokenTransfer (.vault key) p key amount = .ok s') : Pays key s s' [(wallet, amount)] :=
  ⟨_, pay_moves checked h, by simp, rfl⟩

/-- Writing an account of the program moves no tokens. -/
theorem Pays.set {p : Pubkey} {a : Account} (h : Pays key s s' xs) (plain : a.asToken = .none) (apart : p ≠ .vault key) :
    Pays key s (s'.setAccount p a) xs := by
  obtain ⟨moves, h, own, rfl⟩ := h
  refine ⟨moves, ⟨h.logged, fun q d hd => h.owners q d ?_, fun u hu => ?_, h.owned⟩, own, rfl⟩
  · rw [Ledger.token?, Ledger.setAccount_accounts] at hd
    split at hd
    · rw [plain] at hd
      cases hd
    · exact hd
  · obtain ⟨u', hu', taken⟩ := h.vault u hu
    refine ⟨u', ?_, taken⟩
    rw [Ledger.token?, Ledger.setAccount_accounts, if_neg apart.symm]
    exact hu'

/-- What payments do to the view of the tournament that makes them. Unless
one goes to the tournament itself, the vault holds less by them. -/
structure Disburses (key : Pubkey) (v v' : TournamentView) (payments : List (Pubkey × Nat)) : Prop where
  paid : v'.paid = v.paid ++ payments
  vault : (∀ x ∈ payments, x.1 ≠ key) → ∀ u, v.vault = some u →
    ∃ u', v'.vault = some u' ∧ u'.amount + total payments = u.amount

theorem Pays.disburses (wf : Wellformed s) (h : Pays key s s' xs) :
    Disburses key (viewOf s key) (viewOf s' key) xs := by
  obtain ⟨moves, h, own, rfl⟩ := h
  refine ⟨?_, fun away u hu => ?_⟩
  · rw [viewOf, h.logged]
    exact paymentsOf_moves own
  · obtain ⟨u', hu', taken⟩ := h.vault u hu
    have out : ∀ x ∈ moves, x.destination ≠ .vault key := by
      intro x hx here
      obtain ⟨d, hd, owner⟩ := h.owned x hx
      rw [here] at hd
      exact away _ (List.mem_map_of_mem hx) (owner.symm.trans (vault_owner wf hd))
    refine ⟨u', hu', ?_⟩
    rw [total, List.map_map]
    exact taken out

end Payments

section Finalizing

theorem emitPlacements_pays {items : List ((Nat × Pubkey × Pubkey) × Nat)} {payouts : List PlacementPayout}
    (h : eachReporting (emitPlacement key mint) s items = .ok (s', payouts)) :
    Pays key s s' (payouts.map fun p => (p.recipient, p.amount)) := by
  refine eachReporting_related
    (R := fun s s' payouts => Pays key s s' (payouts.map fun p => (p.recipient, p.amount)))
    (Pays.none key) (fun _ _ _ _ _ first rest => ?_) ?_ h
  · rw [List.map_append]
    exact first.append rest
  · rintro s ⟨⟨amount, recipient, account⟩, i⟩ t payouts h
    simp only [emitPlacement, ite_ok, bind_ok, pure_ok] at h
    rcases h with ⟨_, h⟩ | ⟨_, _, checked, t', ht, h⟩
    · obtain ⟨rfl, rfl⟩ := Prod.mk.inj (Except.ok.inj h)
      exact .none key s
    · obtain ⟨rfl, rfl⟩ := Prod.mk.inj h
      exact pays_one checked ht

theorem payFee_pays {treasury : Pubkey} {fee : Nat} {account : Option Pubkey}
    (h : payFee s key mint treasury fee account = .ok s') :
    Pays key s s' (if fee = 0 then [] else [(treasury, fee)]) := by
  simp only [payFee, ite_ok, bind_ok] at h
  rcases h with ⟨zero, h⟩ | ⟨nonzero, p, _, _, checked, h⟩
  · obtain rfl : s = s' := by simpa using h
    rw [if_pos zero]
    exact .none key s
  · rw [if_neg nonzero]
    exact pays_one checked h

/-- What an event may say about amounts of placements: the places count from
one, and one without a share is left out. -/
def payoutsOf (amounts : List Nat) (placements : List Pubkey) : List PlacementPayout :=
  (amounts.zip placements).zipIdx.flatMap fun item =>
    if item.1.1 = 0 then [] else [⟨(item.2 + 1) % 256, item.1.2, item.1.1⟩]

/-- The figures of a payout, as `distribute_prizes` returns them. -/
structure Distributes (preset : PayoutPreset) (gross : Nat) (winner : Pubkey) (placements : List Pubkey)
    (d : Distribution) : Prop where
  pool : d.grossPool = gross
  fee : d.feeAmount = protocolFee gross
  net : d.netPool + d.feeAmount = gross
  count : placements.length = placementCount preset
  first : placements[0]? = some winner
  shares : ∃ amounts, splitPlacements d.netPool (basisPoints preset).toList (placementCount preset) = .ok amounts ∧
    d.placementPayouts = payoutsOf amounts placements

theorem placements_payouts {amounts : List Nat} {placements remaining : List Pubkey} {payouts : List PlacementPayout}
    (accounts : placements.length ≤ remaining.length)
    (h : eachReporting (emitPlacement key mint) s (amounts.zip (placements.zip remaining)).zipIdx = .ok (s', payouts)) :
    payouts = payoutsOf amounts placements := by
  have told := eachReporting_reports
    (g := fun item => if item.1.1 = 0 then [] else [⟨(item.2 + 1) % 256, item.1.2.1, item.1.1⟩]) ?_ h
  · have drop : amounts.zip placements =
        (amounts.zip (placements.zip remaining)).map fun item => (item.1, item.2.1) := by
      conv_lhs => rw [← List.map_fst_zip accounts, List.zip_map_right]
      rfl
    rw [told, payoutsOf, drop, List.zipIdx_map, List.flatMap_map]
    rfl
  · rintro s ⟨⟨amount, recipient, account⟩, i⟩ t payouts h
    simp only [emitPlacement, ite_ok, bind_ok, pure_ok] at h
    rcases h with ⟨zero, h⟩ | ⟨nonzero, _, _, _, _, h⟩
    · rw [if_pos zero]
      exact (Prod.mk.inj (Except.ok.inj h)).2.symm
    · rw [if_neg nonzero]
      exact (Prod.mk.inj h).2.symm

theorem emitDistribution_ok {t : Tournament} {node : MatchNode} {treasury winner : Pubkey} {vault : TokenAccount}
    {remaining placements : List Pubkey} {d : Distribution} (now : Int)
    (h : emitDistribution s key t node treasury vault remaining winner placements = .ok (s', d)) :
    Distributes t.payoutPreset vault.amount winner placements d ∧
      Pays key s s' (Event.payments (tournamentCompleted key winner treasury d now)) := by
  simp only [emitDistribution, bind_ok, require_ok, pure_ok] at h
  obtain ⟨_, count, _, accounts, _, checked, _, fits, amounts, split, ⟨s₁, payouts⟩, h₁, s₂, h₂, h⟩ := h
  obtain ⟨rfl, rfl⟩ := Prod.mk.inj h
  have first := (checkPlacements_ok checked).1
  refine ⟨⟨rfl, rfl, Nat.sub_add_cancel fits, count, first, amounts, split, ?_⟩, (emitPlacements_pays h₁).append (payFee_pays h₂)⟩
  exact placements_payouts (by omega) h₁

/-- What `finalize_match` tells of: the match, and of the final what was paid
for it. -/
theorem emitFinalized_ok {t : Tournament} {m : MatchNode} {next : Option MatchNode} {vault : TokenAccount}
    {treasury : Pubkey} {remaining : List Pubkey} {v : Verdict} {f : Finalized} {reports : List Event}
    (h : emitFinalized s key t m next vault treasury remaining v = .ok (f, reports)) :
    (¬ isFinal t m ∧ Pays key s f.ledger [] ∧ reports = [matchReported key m v.winner s.clock.unixTimestamp]) ∨
      (isFinal t m ∧ f.nextMatch = none ∧ ∃ d, Distributes t.payoutPreset vault.amount v.winner v.placements d ∧
        Pays key s f.ledger (Event.payments (tournamentCompleted key v.winner treasury d s.clock.unixTimestamp)) ∧
        reports = [matchReported key m v.winner s.clock.unixTimestamp,
          tournamentCompleted key v.winner treasury d s.clock.unixTimestamp]) := by
  simp only [emitFinalized, bind_ok, ite_ok, pure_ok] at h
  obtain ⟨_, _, _, _, _, _, _, _, ⟨final, _, _, _, _, ⟨s₁, d⟩, h₁, h⟩ | ⟨inner, _, _, _, _, h⟩⟩ := h
  · obtain ⟨rfl, rfl⟩ := Prod.mk.inj h
    obtain ⟨figures, pays⟩ := emitDistribution_ok s.clock.unixTimestamp h₁
    exact .inr ⟨final, rfl, d, figures, pays, rfl⟩
  · obtain ⟨rfl, rfl⟩ := Prod.mk.inj h
    exact .inl ⟨inner, .none key s, rfl⟩

theorem Written.pays {a : FinalizeAccounts} {l : Loaded} {f : Finalized} {E : List (Pubkey × Nat)} (wf : Wellformed s)
    (loads : Loads s a l) (pays : Pays a.tournament s f.ledger E) (written : Written a f s') :
    Pays a.tournament s s' E := by
  have hk := isTournament_of_record wf loads.record
  have next q (hq : a.nextMatch = some q) : q ≠ .vault a.tournament := by
    have load := loads.next
    rw [hq] at load
    simp only [loadNext, bind_ok, orThrow_ok] at load
    obtain ⟨n, hn, _⟩ := load
    obtain ⟨rfl, _⟩ := node_fits wf hn
    simp
  have back : Pays a.tournament s (writeBack a f) E := by
    have both := (pays.set (a := .tournament f.tournament) rfl (ne_of_isTournament hk rfl)).set
      (a := .matchNode f.matchAccount) rfl (p := a.matchAccount) (by simp [loads.address])
    rw [writeBack]
    cases hq : a.nextMatch with
    | none => exact both
    | some q =>
        cases f.nextMatch with
        | none => exact both
        | some n => exact both.set rfl (next q hq)
  rcases written with rfl | ⟨w, w', x, x', rfl⟩
  · exact back
  · exact (back.set rfl (by simp)).set rfl (by simp)

end Finalizing

section Refunding

/-- The events of payments that are refunds. -/
def refundEvents (key : Pubkey) (payments : List (Pubkey × Nat)) : List Event :=
  payments.map fun x => refundIssued key x.1 x.2

theorem refundEvents_append (xs ys : List (Pubkey × Nat)) :
    refundEvents key (xs ++ ys) = refundEvents key xs ++ refundEvents key ys := List.map_append

theorem refundEvents_payments (xs : List (Pubkey × Nat)) : (refundEvents key xs).flatMap Event.payments = xs := by
  induction xs with
  | nil => rfl
  | cons x xs ih => exact congrArg (x :: ·) ih

/-- Refunds and the events that tell of them. -/
def Repays (key : Pubkey) (s s' : Ledger) (events : List Event) : Prop :=
  ∃ payments, events = refundEvents key payments ∧ Pays key s s' payments

theorem emitRefundPair_repays {t : Tournament} {pair : Pubkey × Pubkey} {events : List Event}
    (h : emitRefundPair key t s pair = .ok (s', events)) : Repays key s s' events := by
  simp only [emitRefundPair, refundPair, bind_ok, require_ok, ite_ok, pure_ok, Ledger.readParticipant_ok] at h
  obtain ⟨p, hp, s₁, ⟨p', hp', _, _, paid⟩, h⟩ := h
  obtain rfl := Option.some.inj (hp.symm.trans hp')
  obtain ⟨rfl, rfl⟩ := Prod.mk.inj h
  rcases paid with ⟨before, rfl⟩ | ⟨unpaid, _, checked, s₂, h₂, rfl⟩
  · exact ⟨[], by rw [if_pos before]; rfl, .none key _⟩
  · refine ⟨[(p.wallet, t.entryFee)], by rw [if_neg unpaid]; rfl, (pays_one checked h₂).set rfl ?_⟩
    obtain ⟨u, _, vault, _⟩ := Ledger.tokenTransfer_ok.1 h₂
    intro same
    have token := Ledger.token?_eq_some.1 vault
    rw [← same, Ledger.participant?_eq_some.1 hp] at token
    cases token

theorem emitRefundDeposit_repays {t t' : Tournament} {account : Option Pubkey} {events : List Event}
    (h : emitRefundDeposit key t account s = .ok ((s', t'), events)) : Repays key s s' events := by
  simp only [emitRefundDeposit, refundDeposit, bind_ok, ite_ok, pure_ok] at h
  obtain ⟨st, owed, h⟩ := h
  obtain ⟨rfl, rfl⟩ := Prod.mk.inj h
  rcases owed with ⟨⟨some_, unpaid⟩, owed⟩ | ⟨settled, owed⟩
  · cases account with
    | none =>
        obtain ⟨rfl, rfl⟩ := Prod.mk.inj (Except.ok.inj owed)
        exact ⟨[], by simp [refundEvents], .none key s⟩
    | some p =>
        simp only [bind_ok, require_ok, pure_ok, Ledger.loadToken_ok] at owed
        obtain ⟨v, hv, _, mint, _, owner, s₁, h₁, owed⟩ := owed
        obtain ⟨rfl, rfl⟩ := Prod.mk.inj owed
        refine ⟨[(t.organizer, t.organizerDeposit)], by simp [refundEvents, some_, unpaid], ?_⟩
        have checked : s.validateTokenAccount p t.organizer t.tokenMint = .ok () :=
          Ledger.validateTokenAccount_ok.2 ⟨v, hv, mint, owner⟩
        exact pays_one checked h₁
  · obtain ⟨rfl, rfl⟩ := Prod.mk.inj (Except.ok.inj owed)
    refine ⟨[], ?_, .none key s⟩
    rw [if_neg fun all => settled ⟨all.1, all.2.1⟩]
    rfl

theorem Repays.append {first rest : List Event} (h : Repays key s m first) (h' : Repays key m s' rest) :
    Repays key s s' (first ++ rest) := by
  obtain ⟨xs, rfl, pays⟩ := h
  obtain ⟨ys, rfl, pays'⟩ := h'
  exact ⟨xs ++ ys, (refundEvents_append xs ys).symm, pays.append pays'⟩

theorem emitRefundChunk_repays {a : CancelTournament} {t : Tournament} {events : List Event}
    (apart : a.tournament ≠ .vault a.tournament) (h : emitRefundChunk a t s = .ok (s', events)) :
    Repays a.tournament s s' events := by
  simp only [emitRefundChunk, bind_ok, pure_ok] at h
  obtain ⟨_, _, ⟨⟨s₁, t₁⟩, first⟩, h₁, ⟨s₂, rest⟩, h₂, h⟩ := h
  obtain ⟨rfl, rfl⟩ := Prod.mk.inj h
  have loop : Repays a.tournament s₁ s₂ rest :=
    eachReporting_related (R := Repays a.tournament) (fun s => ⟨[], rfl, .none a.tournament s⟩) (fun _ _ _ _ _ h h' => h.append h')
      (fun _ _ _ _ h => emitRefundPair_repays h) h₂
  obtain ⟨payments, told, pays⟩ := (emitRefundDeposit_repays h₁).append loop
  exact ⟨payments, told, pays.set rfl apart⟩

end Refunding

/-- What the edit of a match tells of the match it leaves. -/
def editOf (now : Int) : Instruction → MatchNode → List Event
  | .proposeResult _ _, m | .proposeResultOracle _ _, m => [proposed m]
  | .disputeResult a _, m => [disputed a.signer now m]
  | .commitMatchLobby _ lobby _, m => [lobbyCommitted lobby now m]
  | .bindMatchFeed _ _, m => [feedBound m]
  | _, _ => []

/-- What a step tells about one tournament. -/
inductive Announces (key : Pubkey) (clock : Clock) (v v' : TournamentView) : Action → List Event → Prop
  | others {b : Action} (other : b.tournament ≠ some key) : Announces key clock v v' b []
  | requestSeed (a : RequestSeed) (key_eq : a.tournament = key) : Announces key clock v v' (.call (.requestSeed a)) []
  | revealSeed (a : RevealSeed) (key_eq : a.tournament = key) : Announces key clock v v' (.call (.revealSeed a)) []
  | created (a : CreateTournament) (key_eq : a.key = key) :
      Announces key clock v v' (.call (.createTournament a)) [opened a]
  | registered (a : JoinTournament) (key_eq : a.tournament = key) {t : Tournament} (record : v.record = some t) :
      Announces key clock v v' (.call (.joinTournament a)) [registered key a.player t.participantCount]
  | started (a : StartTournament) (key_eq : a.tournament = key) {t' : Tournament} (record' : v'.record = some t') :
      Announces key clock v v' (.call (.startTournament a))
        (if t'.matchesInitialized = t'.totalMatches then [started key t'] else [])
  | edited (ix : Instruction) (a : MatchAccounts) (slot : Slot) {m' : MatchNode}
      (call : Instruction.edit? ix = some a) (key_eq : a.tournament = key)
      (address : a.matchAccount = .matchNode key slot) (node' : v'.node slot = some m') :
      Announces key clock v v' (.call ix) (editOf clock.unixTimestamp ix m')
  | reported (ix : Instruction) (a : FinalizeAccounts) (slot : Slot) {t : Tournament} {m : MatchNode}
      {winner : Pubkey} {p' : Pubkey → Option Participant} (finalizes : Finalizes key clock v ix a slot t m winner p')
      (inner : ¬ isFinal t m) (pays : Disburses key v v' []) : Announces key clock v v' (.call ix)
        (matchReported key m winner clock.unixTimestamp :: closingOf clock.unixTimestamp ix key m)
  | completed (ix : Instruction) (a : FinalizeAccounts) (slot : Slot) {t : Tournament} {m : MatchNode}
      {winner treasury : Pubkey} {p' : Pubkey → Option Participant} {u : TokenAccount} {d : Distribution}
      (finalizes : Finalizes key clock v ix a slot t m winner p') (last : isFinal t m) (vault : v.vault = some u)
      (figures : Distributes t.payoutPreset u.amount winner (Instruction.placements ix) d)
      (pays : Disburses key v v' (Event.payments (tournamentCompleted key winner treasury d clock.unixTimestamp))) :
      Announces key clock v v' (.call ix) (matchReported key m winner clock.unixTimestamp ::
        tournamentCompleted key winner treasury d clock.unixTimestamp :: closingOf clock.unixTimestamp ix key m)
  | cancelled (a : CancelTournament) (key_eq : a.tournament = key) {t : Tournament}
      {payments : List (Pubkey × Nat)} (record : v.record = some t) (pays : Disburses key v v' payments) :
    Announces key clock v v' (.call (.cancelTournament a))
        ((if t.status = .cancelled then [] else [cancelled key a.caller clock.unixTimestamp]) ++
          refundEvents key payments)
  | refunded (a : CancelTournament) (key_eq : a.tournament = key) {payments : List (Pubkey × Nat)}
      (pays : Disburses key v v' payments) :
      Announces key clock v v' (.call (.partialRefundChunk a)) (refundEvents key payments)
  | partiallyCancelled (a : PartialCancel) (key_eq : a.tournament = key) :
      Announces key clock v v' (.call (.partialCancelTournament a))
        [partiallyCancelled key a.organizer clock.unixTimestamp]
  | closed (a : CloseTournament) (key_eq : a.tournament = key) (count : Nat) :
      Announces key clock v v' (.call (.closeTournament a)) [tournamentClosed key count a.closeRoot]

theorem emitEdit_ok {ix : Instruction} {a : MatchAccounts} {events : List Event}
    (call : Instruction.edit? ix = some a) (h : Instruction.emit rt ix s = .ok (s', events)) :
    ∃ m', s'.matchNode? a.matchAccount = some m' ∧ events = editOf s.clock.unixTimestamp ix m' := by
  have told {event : MatchNode → Event} {run : Ledger → Except Error Ledger}
      (h : emitEdit a event run s = .ok (s', events)) : ∃ m', s'.matchNode? a.matchAccount = some m' ∧
        events = [event m'] := by
    simp only [emitEdit, bind_ok, orThrow_ok, pure_ok] at h
    obtain ⟨t, _, m', hm', h⟩ := h
    obtain ⟨rfl, rfl⟩ := Prod.mk.inj h
    exact ⟨m', hm', rfl⟩
  cases ix with
  | proposeResult | proposeResultOracle | disputeResult | commitMatchLobby | bindMatchFeed =>
      obtain rfl := Option.some.inj call
      exact told h
  | _ => cases call

theorem verdictOf_winner {ix : Instruction} {t : Tournament} {m : MatchNode} {clock : Clock} {winner : Pubkey}
    (h : Decides t m clock winner ix) : (verdictOf ix m).winner = winner := by
  cases ix with
  | reportResult => exact h.2.2.symm
  | confirmResult | claimResult | forceClaimDisputed => exact h.1.2.2.symm
  | resolveDispute => exact h.2.2.symm
  | settleFinal => exact h.2.1.2.2.symm
  | _ => exact h.elim

theorem verdictOf_placements (ix : Instruction) (m : MatchNode) :
    (verdictOf ix m).placements = Instruction.placements ix := by
  cases ix <;> rfl

theorem finalize_announces {ix : Instruction} {a : FinalizeAccounts} {events : List Event} (wf : Wellformed s)
    (call : Instruction.finalize? ix = some a) (step : Step rt s (.call ix) s')
    (h : Instruction.emit rt ix s = .ok (s', events)) :
    Announces a.tournament s.clock (viewOf s a.tournament) (viewOf s' a.tournament) (.call ix) events := by
  obtain ⟨slot, t, m, winner, p', finalizes, _⟩ := finalize_of_step wf call step
  obtain ⟨l, f, reports, hl, emitted, written, rfl⟩ := emitFinalize_ok (finalizing call) h
  have loads := loadFinalize_ok hl
  obtain rfl : t = l.t := Option.some.inj (finalizes.record.symm.trans loads.record)
  have node := loads.matchAccount
  rw [finalizes.address] at node
  obtain rfl : m = l.m := Option.some.inj (finalizes.node.symm.trans node)
  have decided := verdictOf_winner finalizes.decided
  rw [loads.home]
  rcases emitFinalized_ok emitted with ⟨inner, pays, rfl⟩ | ⟨last, _, d, figures, pays, rfl⟩
  · rw [decided]
    exact .reported ix a slot finalizes inner ((Written.pays wf loads pays written).disburses wf)
  · rw [decided] at pays figures ⊢
    rw [verdictOf_placements] at figures
    exact .completed ix a slot finalizes last loads.vault figures ((Written.pays wf loads pays written).disburses wf)

/-- What a call tells about its own tournament. -/
theorem call_announces {ix : Instruction} (wf : Wellformed s) (own : (Action.call ix).tournament = some key)
    (step : Step rt s (.call ix) s') :
    Announces key s.clock (viewOf s key) (viewOf s' key) (.call ix) (eventsOf rt s (.call ix)) := by
  have emitted := step_emits step
  generalize eventsOf rt s (.call ix) = events at emitted
  cases ix with
  | initializeProtocol | setSasConfig | setOracleConfig => cases own
  | requestSeed a =>
      obtain rfl : a.tournament = key := Option.some.inj own
      obtain ⟨_, _, same⟩ := (map_ok _ _ _).1 emitted
      obtain ⟨_, rfl⟩ := Prod.mk.inj same
      exact .requestSeed a rfl
  | revealSeed a =>
      obtain rfl : a.tournament = key := Option.some.inj own
      obtain ⟨_, _, same⟩ := (map_ok _ _ _).1 emitted
      obtain ⟨_, rfl⟩ := Prod.mk.inj same
      exact .revealSeed a rfl
  | createTournament a =>
      simp only [Instruction.emit, emitCreated, bind_ok, pure_ok] at emitted
      obtain ⟨_, _, same⟩ := emitted
      obtain ⟨_, rfl⟩ := Prod.mk.inj same
      exact .created a (Option.some.inj own)
  | joinTournament a =>
      obtain rfl : a.tournament = key := Option.some.inj own
      simp only [Instruction.emit, emitRegistered, bind_ok, pure_ok, Ledger.loadTournament_ok] at emitted
      obtain ⟨t, ⟨ht, _⟩, _, _, same⟩ := emitted
      obtain ⟨_, rfl⟩ := Prod.mk.inj same
      exact .registered a rfl ht
  | startTournament a =>
      obtain rfl : a.tournament = key := Option.some.inj own
      simp only [Instruction.emit, emitStarted, bind_ok, pure_ok, orThrow_ok] at emitted
      obtain ⟨_, _, t', ht', same⟩ := emitted
      obtain ⟨rfl, rfl⟩ := Prod.mk.inj same
      exact .started a rfl ht'
  | proposeResult a | proposeResultOracle a | disputeResult a | commitMatchLobby a | bindMatchFeed a =>
      obtain rfl : a.tournament = key := Option.some.inj own
      obtain ⟨m', hm', rfl⟩ := emitEdit_ok rfl emitted
      obtain ⟨_, slot, _, _, address, _⟩ := edit_of_step wf rfl step
      exact .edited _ a slot rfl rfl address (by rwa [address] at hm')
  | reportResult a | confirmResult a | claimResult a | forceClaimDisputed a | resolveDispute a | settleFinal a =>
      obtain rfl : a.tournament = key := Option.some.inj own
      exact finalize_announces wf rfl step emitted
  | cancelTournament a =>
      obtain rfl : a.tournament = key := Option.some.inj own
      simp only [Instruction.emit, emitCancel, bind_ok, pure_ok, Ledger.loadTournament_ok] at emitted
      obtain ⟨t, ⟨ht, _⟩, _, _, _, _, _, _, flipped, _, ⟨_, refunds⟩, h, same⟩ := emitted
      obtain ⟨rfl, rfl⟩ := Prod.mk.inj same
      obtain ⟨payments, rfl, pays⟩ :=
        emitRefundChunk_repays (ne_of_isTournament (isTournament_of_record wf ht) rfl) h
      exact .cancelled a rfl ht (pays.disburses wf)
  | partialRefundChunk a =>
      obtain rfl : a.tournament = key := Option.some.inj own
      simp only [Instruction.emit, emitPartialRefund, bind_ok, Ledger.loadTournament_ok] at emitted
      obtain ⟨t, ⟨ht, _⟩, _, _, _, _, _, _, h⟩ := emitted
      obtain ⟨payments, rfl, pays⟩ :=
        emitRefundChunk_repays (ne_of_isTournament (isTournament_of_record wf ht) rfl) h
      exact .refunded a rfl (pays.disburses wf)
  | partialCancelTournament a =>
      obtain rfl : a.tournament = key := Option.some.inj own
      simp only [Instruction.emit, emitPartialCancel, bind_ok, pure_ok] at emitted
      obtain ⟨_, _, same⟩ := emitted
      obtain ⟨_, rfl⟩ := Prod.mk.inj same
      exact .partiallyCancelled a rfl
  | closeTournament a =>
      obtain rfl : a.tournament = key := Option.some.inj own
      simp only [Instruction.emit, emitClose, bind_ok, pure_ok] at emitted
      obtain ⟨_, _, ⟨_, closed⟩, _, same⟩ := emitted
      obtain ⟨_, rfl⟩ := Prod.mk.inj same
      exact .closed a rfl closed.length

theorem closingOf_about {now : Int} {ix : Instruction} {key : Pubkey} {m : MatchNode} :
    ∀ e ∈ closingOf now ix key m, e.tournament = key ∧ Event.payments e = [] ∧ Event.entrant? e = none := by
  cases ix <;> simp [closingOf, resultClaimed, disputeResolved, finalSettled, Event.tournament, Event.payments,
    Event.entrant?]

theorem editOf_about {now : Int} {ix : Instruction} {m : MatchNode} :
    ∀ e ∈ editOf now ix m, e.tournament = m.tournament ∧ Event.payments e = [] ∧ Event.entrant? e = none := by
  cases ix <;> simp [editOf, proposed, disputed, lobbyCommitted, feedBound, Event.tournament, Event.payments,
    Event.entrant?]

theorem refundEvents_about {payments : List (Pubkey × Nat)} :
    ∀ e ∈ refundEvents key payments, e.tournament = key :=
  List.forall_mem_map.2 fun _ _ => rfl

/-- What is told about a tournament carries its address. -/
theorem announces_about {b : Action} {events : List Event} (wf : Wellformed s')
    (h : Announces key s.clock (viewOf s key) (viewOf s' key) b events) : ∀ e ∈ events, e.tournament = key := by
  generalize hv' : viewOf s' key = v' at h
  cases h with
  | others | requestSeed | revealSeed => simp
  | created a key_eq => simpa [opened, Event.tournament] using key_eq
  | registered | partiallyCancelled | closed => exact List.forall_mem_singleton.2 rfl
  | started =>
      split
      · exact List.forall_mem_singleton.2 rfl
      · simp
  | edited ix a slot call key_eq address node' =>
      rw [← hv'] at node'
      intro e he
      exact (editOf_about e he).1.trans (node_slot wf node').2
  | reported => exact List.forall_mem_cons.2 ⟨rfl, fun e he => (closingOf_about e he).1⟩
  | completed =>
      exact List.forall_mem_cons.2 ⟨rfl, List.forall_mem_cons.2 ⟨rfl, fun e he => (closingOf_about e he).1⟩⟩
  | cancelled =>
      refine List.forall_mem_append.2 ⟨?_, refundEvents_about⟩
      split
      · simp
      · exact List.forall_mem_singleton.2 rfl
  | refunded => exact refundEvents_about

/-- The events of a step are about the tournament it is called on. -/
theorem eventsOf_tournament {b : Action} (wf : Wellformed s) (step : Step rt s b s') :
    ∀ e ∈ eventsOf rt s b, b.tournament = some e.tournament := by
  cases b with
  | outside => simp [eventsOf]
  | call ix =>
      cases own : (Action.call ix).tournament with
      | some k =>
          intro e he
          rw [announces_about (step_confined wf step).wf (call_announces wf own step) e he]
      | none =>
          have emitted := step_emits step
          cases ix with
          | initializeProtocol | setSasConfig | setOracleConfig =>
              obtain ⟨_, _, same⟩ := (map_ok _ _ _).1 emitted
              rw [← (Prod.mk.inj same).2]
              simp
          | _ => cases own

theorem announces_own {clock : Clock} {v v' : TournamentView} {b : Action} {events : List Event}
    (h : Announces key clock v v' b events) : b.tournament = some key ∨ b.tournament ≠ some key ∧ events = [] := by
  cases h with
  | others other => exact .inr ⟨other, rfl⟩
  | edited _ _ _ call key_eq => exact .inl ((edit_tournament call).trans (congrArg some key_eq))
  | reported _ _ _ finalizes | completed _ _ _ finalizes =>
      exact .inl ((finalize_tournament finalizes.call).trans (congrArg some finalizes.key_eq))
  | requestSeed _ key_eq | revealSeed _ key_eq | created _ key_eq | registered _ key_eq | started _ key_eq
  | cancelled _ key_eq | refunded _ key_eq | partiallyCancelled _ key_eq | closed _ key_eq =>
      exact .inl (congrArg some key_eq)

/-- What a step tells about a tournament is what its log gets of it. -/
theorem step_announces {b : Action} (wf : Wellformed s) (step : Step rt s b s') :
    Announces key s.clock (viewOf s key) (viewOf s' key) b
      ((eventsOf rt s b).filter fun e => e.tournament = key) := by
  have about := eventsOf_tournament wf step
  by_cases own : b.tournament = some key
  · have all : (eventsOf rt s b).filter (fun e => e.tournament = key) = eventsOf rt s b := by
      refine List.filter_eq_self.2 fun e he => ?_
      simpa using Option.some.inj ((about e he).symm.trans own)
    rw [all]
    cases b with
    | outside => cases own
    | call ix => exact call_announces wf own step
  · have none_ : (eventsOf rt s b).filter (fun e => e.tournament = key) = [] := by
      refine List.filter_eq_nil_iff.2 fun e he here => own ?_
      rw [about e he, of_decide_eq_true here]
    rw [none_]
    exact .others own

end BracketChain.Announcements
