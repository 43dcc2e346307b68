import BracketChain.Entitlement
import BracketChain.Recast
import Mathlib.Algebra.BigOperators.Group.List.Basic

namespace BracketChain.Confluence

open Outcome Keys Records Accounts Registration Settlement Envelope Refunds Program Runs Layout View Lifecycle
  RefundEffects Refinement Lives Bookkeeping Solvency Entitlement Recast Scripts

def refundCall? : Action → Option CancelTournament
  | .call (.cancelTournament c) | .call (.partialRefundChunk c) => some c
  | _ => none

/-- A call that refunds participants of the tournament. -/
def RefundsOf (key : Pubkey) (e : Ledger × Action) : Prop := ∃ c, refundCall? e.2 = some c ∧ c.tournament = key

def walletOf (key : Pubkey) : Pubkey → Option Pubkey
  | .participant k w => if k = key then some w else none
  | _ => none

/-- The participants in a list of pairs, by wallet. -/
def named (key : Pubkey) (ps : List (Pubkey × Pubkey)) : List Pubkey := ps.filterMap fun pair => walletOf key pair.1

/-- The wallets whose participants the refund calls mention. -/
def mentions (key : Pubkey) (calls : History) : List Pubkey :=
  calls.flatMap fun e => ((refundCall? e.2).map fun c => named key (pairs c.remainingAccounts)).getD []

/-- Some refund call supplies the organizer's token account. -/
def supplied (calls : History) : Bool :=
  calls.any fun e => (refundCall? e.2).any fun c => c.organizerTokenAccount.isSome

/-- The deposit is still to be returned. -/
def Tournament.owes (t : Tournament) : Bool := decide (0 < t.organizerDeposit) && !t.organizerDepositRefunded

/-- The record once the organizer's account was supplied, or was not. -/
def Tournament.repaid (t : Tournament) (given : Bool) : Tournament :=
  if Tournament.owes t && given then Tournament.depositReturned t else t

/-- What refund calls that mention `ws` come to: their participants are
marked, and the vault has paid those of them that were unpaid before, and the
deposit that was due. -/
structure Repaid (t : Tournament) (ws : List Pubkey) (given : Bool) (v v' : TournamentView) : Prop where
  record : v'.record = some (Tournament.repaid t given)
  present : ∀ w ∈ ws, (v.participant w).isSome = true
  participant : v'.participant = refundAll ws v.participant
  node : v'.node = v.node
  money : ∃ u unpaid, unpaid.Nodup ∧
    (∀ w, w ∈ unpaid ↔ w ∈ ws ∧ ∃ x, v.participant w = some x ∧ x.refundPaid = false) ∧
    v.vault = some u ∧ total (refunds t (Tournament.owes t && given) unpaid) ≤ u.amount ∧
    v'.vault = some (TokenAccount.minus u (total (refunds t (Tournament.owes t && given) unpaid))) ∧
    v'.paid.Perm (v.paid ++ refunds t (Tournament.owes t && given) unpaid)

/-- Two views with the same accounts and the same payments in some order. -/
structure Agrees (v v' : TournamentView) : Prop where
  record : v.record = v'.record
  participant : v.participant = v'.participant
  node : v.node = v'.node
  vault : v.vault = v'.vault
  paid : v.paid.Perm v'.paid

variable {rt : Runtime} {key : Pubkey} {t : Tournament} {v v' v'' : TournamentView} {ws xs ys : List Pubkey}
  {b c : Bool}

theorem refundAll_congr (h : ∀ w, w ∈ xs ↔ w ∈ ys) (p : Pubkey → Option Participant) :
    refundAll xs p = refundAll ys p := by
  funext w
  simp only [refundAll, h w]

theorem refunded_twice (x : Participant) : Participant.refunded (Participant.refunded x) = Participant.refunded x :=
  rfl

theorem refundAll_append (p : Pubkey → Option Participant) :
    refundAll ys (refundAll xs p) = refundAll (xs ++ ys) p := by
  funext w
  by_cases hx : w ∈ xs <;> by_cases hy : w ∈ ys <;> simp [refundAll, hx, hy, Function.comp_def, refunded_twice]

theorem repaid_owes (t : Tournament) (b : Bool) :
    Tournament.owes (Tournament.repaid t b) = (Tournament.owes t && !b) := by
  unfold Tournament.repaid
  cases b <;> cases h : Tournament.owes t <;> simp [h]
  simp [Tournament.owes, Tournament.depositReturned]

theorem repaid_twice (t : Tournament) (b c : Bool) :
    Tournament.repaid (Tournament.repaid t b) c = Tournament.repaid t (b || c) := by
  have owes := repaid_owes t b
  rw [Tournament.repaid, owes]
  cases b
  · simp [Tournament.repaid]
  · simp

theorem repaid_refunds (t : Tournament) (b c : Bool) (ws : List Pubkey) :
    refunds (Tournament.repaid t b) c ws = refunds t c ws := by
  unfold Tournament.repaid
  split <;> rfl

theorem repaid_status (t : Tournament) (b : Bool) : (Tournament.repaid t b).status = t.status := by
  unfold Tournament.repaid
  split <;> rfl

/-- A wallet is unpaid after some refunds when it was before and none of them
mentions it. -/
theorem unpaid_after {w : Pubkey} {p : Pubkey → Option Participant} :
    (∃ x, refundAll xs p w = some x ∧ x.refundPaid = false) ↔
      w ∉ xs ∧ ∃ x, p w = some x ∧ x.refundPaid = false := by
  by_cases hw : w ∈ xs
  · simp [refundAll, hw, Participant.refunded]
  · simp [refundAll, hw]

theorem total_perm {xs ys : List (Pubkey × Nat)} (h : xs.Perm ys) : total xs = total ys :=
  (h.map Prod.snd).sum_eq

theorem refunds_perm (h : xs.Perm ys) : (refunds t b xs).Perm (refunds t b ys) :=
  (h.map _).append_left _

theorem Repaid.none {u : TokenAccount} (record : v.record = some t) (vault : v.vault = some u) :
    Repaid t [] false v v := by
  refine ⟨?_, by simp, (refundAll_nil _).symm, rfl, u, [], .nil, by simp, vault, ?_, ?_, ?_⟩
  · simpa [Tournament.repaid] using record
  all_goals simp [refunds, TokenAccount.minus, vault]

/-- Refunds add up. -/
theorem Repaid.append (first : Repaid t xs b v v') (second : Repaid (Tournament.repaid t b) ys c v' v'') :
    Repaid t (xs ++ ys) (b || c) v v'' := by
  obtain ⟨u, us, usNodup, usMem, hu, fits, hu', paid⟩ := first.money
  obtain ⟨u', vs, vsNodup, vsMem, hu₁, fits', hu'', paid'⟩ := second.money
  obtain rfl : TokenAccount.minus u (total (refunds t (Tournament.owes t && b) us)) = u' :=
    Option.some.inj (hu'.symm.trans hu₁)
  rw [repaid_refunds, repaid_owes] at fits' hu'' paid'
  -- the second part pays those of its own that the first one left unpaid
  have later (w : Pubkey) : w ∈ vs ↔ w ∈ ys ∧ w ∉ xs ∧ ∃ x, v.participant w = some x ∧ x.refundPaid = false := by
    rw [vsMem w, first.participant, unpaid_after]
  have once : (Tournament.owes t && b) = false ∨ (Tournament.owes t && !b && c) = false := by
    cases b <;> simp
  have due : (Tournament.owes t && b || Tournament.owes t && !b && c) = (Tournament.owes t && (b || c)) := by
    cases b <;> simp
  have joint := refunds_append t _ _ us vs once
  rw [due] at joint
  have sum := total_perm joint
  rw [total_append] at sum
  refine ⟨?_, ?_, ?_, second.node.trans first.node, u, us ++ vs, ?_, ?_, hu, ?_, ?_, ?_⟩
  · rw [second.record, repaid_twice]
  · intro w hw
    rcases List.mem_append.1 hw with hw | hw
    · exact first.present w hw
    · have here := second.present w hw
      rw [first.participant] at here
      simp only [refundAll] at here
      split at here <;> simpa using here
  · rw [second.participant, first.participant, refundAll_append]
  · refine List.nodup_append.2 ⟨usNodup, vsNodup, ?_⟩
    rintro w hx _ hy rfl
    exact ((later w).1 hy).2.1 ((usMem w).1 hx).1
  · intro w
    rw [List.mem_append, List.mem_append, usMem w, later w]
    by_cases hw : w ∈ xs <;> simp [hw]
  · simp only [TokenAccount.minus] at fits'
    omega
  · rw [hu'', minus_minus, sum]
  · have all := paid'.trans (paid.append_right _)
    rw [List.append_assoc] at all
    exact all.trans (joint.append_left v.paid)

/-- Refunds of the same participants, with the same say on the deposit, agree. -/
theorem Repaid.agrees (first : Repaid t xs b v v') (second : Repaid t ys b v v'') (same : ∀ w, w ∈ xs ↔ w ∈ ys) :
    Agrees v' v'' := by
  obtain ⟨u, us, usNodup, usMem, hu, _, hu', paid⟩ := first.money
  obtain ⟨u', vs, vsNodup, vsMem, hu₁, _, hu'', paid'⟩ := second.money
  obtain rfl : u = u' := Option.some.inj (hu.symm.trans hu₁)
  have perm : us.Perm vs := by
    refine (List.perm_ext_iff_of_nodup usNodup vsNodup).2 fun w => ?_
    rw [usMem w, vsMem w, same w]
  have payments : (refunds t (Tournament.owes t && b) us).Perm (refunds t (Tournament.owes t && b) vs) :=
    refunds_perm perm
  refine ⟨?_, ?_, ?_, ?_, ?_⟩
  · rw [first.record, second.record]
  · rw [first.participant, second.participant, refundAll_congr same]
  · rw [first.node, second.node]
  · rw [hu', hu'', total_perm payments]
  · exact paid.trans ((payments.append_left v.paid).trans paid'.symm)

theorem mem_named {w : Pubkey} {ps : List (Pubkey × Pubkey)} :
    w ∈ named key ps ↔ ∃ ata, (Pubkey.participant key w, ata) ∈ ps := by
  rw [named, List.mem_filterMap]
  constructor
  · rintro ⟨⟨p, ata⟩, mem, hw⟩
    cases p with
    | participant k w' =>
        simp only [walletOf] at hw
        split at hw
        · rename_i hk
          obtain rfl := Option.some.inj hw
          exact ⟨ata, hk ▸ mem⟩
        · cases hw
    | _ => cases hw
  · rintro ⟨ata, mem⟩
    exact ⟨_, mem, if_pos rfl⟩

theorem refunding_called {t t' : Tournament} {c : CancelTournament} {ix : Instruction}
    (h : Refunding t c t' ix) (called : CalledOff t) : t' = t := by
  rcases refunding_cases h with ⟨rfl, hst⟩ | ⟨rfl, _⟩
  · rcases called with hc | hc
    · rw [← hc]
    · simp [hc] at hst
  · rfl

/-- A wallet that an owed refund skips was paid before. -/
theorem owed_refundAll {ps : List (Pubkey × Pubkey)} {p : Pubkey → Option Participant} (owed : Owed key p ps ws) :
    refundAll ws p = refundAll (named key ps) p := by
  funext w
  by_cases hw : w ∈ ws
  · have hn : w ∈ named key ps := mem_named.2 (owed.listed w hw)
    simp [refundAll, hw, hn]
  · by_cases hn : w ∈ named key ps
    · obtain ⟨ata, mem⟩ := mem_named.1 hn
      obtain ⟨q, x, hq, hx, himp⟩ := owed.all _ mem
      obtain rfl : w = q := by simpa using hq
      have paid : x.refundPaid = true := by
        by_contra unpaid
        exact hw (himp (by simpa using unpaid))
      have marked : Participant.refunded x = x := by
        rw [Participant.refunded, ← paid]
      simp [refundAll, hw, hn, hx, marked]
    · simp [refundAll, hw, hn]

theorem refundCall_edit {ix : Instruction} {a : MatchAccounts} (h : Instruction.edit? ix = some a) :
    refundCall? (.call ix) = none := by
  cases ix <;> simp_all [Instruction.edit?, refundCall?]

theorem refundCall_finalize {ix : Instruction} {a : FinalizeAccounts}
    (h : Instruction.finalize? ix = some a) : refundCall? (.call ix) = none := by
  cases ix <;> simp_all [Instruction.finalize?, refundCall?]

theorem refundCall_refunding {ix : Instruction} {t t' : Tournament} {a : CancelTournament}
    (h : Refunding t a t' ix) : refundCall? (.call ix) = some a := by
  cases ix <;> simp_all [Refunding, refundCall?]

theorem refundCall_tournament {action : Action} {d : CancelTournament} (h : refundCall? action = some d) :
    action.tournament = some d.tournament := by
  cases action with
  | outside => cases h
  | call ix => cases ix <;> cases h <;> rfl

theorem call_repaid {clock : Clock} {action : Action} {d : CancelTournament} (effect : Effect rt key clock action v v')
    (call : refundCall? action = some d) (home : d.tournament = key) (ht : v.record = some t)
    (called : CalledOff t) :
    Repaid t (named key (pairs d.remainingAccounts)) d.organizerTokenAccount.isSome v v' := by
  cases effect with
  | others _ other => exact absurd (home ▸ refundCall_tournament call) other
  | edit _ _ _ edits => rw [refundCall_edit edits] at call; cases call
  | advance _ _ _ _ finalizes | conclude _ _ _ _ _ finalizes =>
      rw [refundCall_finalize finalizes.call] at call
      cases call
  | @refund _ ix c key_eq t₁ t' u us record vault refunding owed funded =>
      obtain rfl := Option.some.inj (record.symm.trans ht)
      obtain rfl := refunding_called refunding called
      obtain rfl : c = d := Option.some.inj ((refundCall_refunding refunding).symm.trans call)
      refine ⟨rfl, ?_, owed_refundAll owed, rfl, u, us, owed.distinct, ?_, vault, funded, rfl, .refl _⟩
      · intro w hw
        obtain ⟨ata, mem⟩ := mem_named.1 hw
        obtain ⟨q, x, hq, hx, _⟩ := owed.all _ mem
        obtain rfl : w = q := by simpa using hq
        simp [hx]
      · intro w
        constructor
        · intro hw
          exact ⟨mem_named.2 (owed.listed w hw), owed.unpaid w hw⟩
        · rintro ⟨hw, x, hx, unpaid⟩
          obtain ⟨ata, mem⟩ := mem_named.1 hw
          obtain ⟨q, y, hq, hy, himp⟩ := owed.all _ mem
          obtain rfl : w = q := by simpa using hq
          obtain rfl := Option.some.inj (hx.symm.trans hy)
          exact himp unpaid
  | create | join | requestSeed | revealSeed | start | partialCancel | closeChildren | closeRoot => cases call

theorem refund_calledOff {clock : Clock} {action : Action} {d : CancelTournament}
    (effect : Effect rt key clock action v v') (call : refundCall? action = some d) (home : d.tournament = key) :
    ∃ t t', v.record = some t ∧ t.status ≠ .completed ∧ v'.record = some t' ∧ CalledOff t' := by
  cases effect with
  | others _ other => exact absurd (home ▸ refundCall_tournament call) other
  | edit _ _ _ edits => rw [refundCall_edit edits] at call; cases call
  | advance _ _ _ _ finalizes | conclude _ _ _ _ _ finalizes =>
      rw [refundCall_finalize finalizes.call] at call
      cases call
  | @refund _ ix c key_eq t t' u us record vault refunding =>
      obtain ⟨_, _, unsettled, _⟩ := refunding_status refunding
      refine ⟨t, _, record, unsettled, rfl, ?_⟩
      rcases refunding_cases refunding with ⟨rfl, _⟩ | ⟨rfl, partial_⟩
      · split <;> exact .inl rfl
      · split <;> exact .inr partial_
  | create | join | requestSeed | revealSeed | start | partialCancel | closeChildren | closeRoot => cases call

theorem repaid_called (b : Bool) (called : CalledOff t) : CalledOff (Tournament.repaid t b) := by
  rw [CalledOff, repaid_status]
  exact called

theorem mentions_snoc (calls : History) (s : Ledger) {action : Action} {d : CancelTournament}
    (call : refundCall? action = some d) :
    mentions key (calls ++ [(s, action)]) = mentions key calls ++ named key (pairs d.remainingAccounts) := by
  simp [mentions, call]

theorem supplied_snoc (calls : History) (s : Ledger) {action : Action} {d : CancelTournament}
    (call : refundCall? action = some d) :
    supplied (calls ++ [(s, action)]) = (supplied calls || d.organizerTokenAccount.isSome) := by
  simp [supplied, call]

/-- Any sequence of refund calls on a called-off tournament repays the
participants that it mentions. -/
theorem calls_repaid {s₀ s : Ledger} {calls : History} (wf : Wellformed s₀) (ht : (viewOf s₀ key).record = some t)
    (hu : (viewOf s₀ key).vault.isSome = true) (called : CalledOff t) (run : Run rt s₀ calls s)
    (refunding : Always (RefundsOf key) calls) :
    Repaid t (mentions key calls) (supplied calls) (viewOf s₀ key) (viewOf s key) := by
  have hk := isTournament_of_record wf ht
  induction run with
  | nil =>
      obtain ⟨u, hu⟩ := Option.isSome_iff_exists.1 hu
      exact .none ht hu
  | @snoc past m action s' run next ih =>
      obtain ⟨before, d, call, home⟩ := always_snoc.1 refunding
      have sofar := ih before
      have effect := step_effect (run_wellformed wf run) hk next
      rw [mentions_snoc past m call, supplied_snoc past m call]
      exact sofar.append (call_repaid effect call home sofar.record (repaid_called _ called))

/-- Refund calls on a called-off tournament belong to its life. -/
theorem life_calls {a : CreateTournament} {born start s₀ s : Ledger} {past calls : History}
    (life : Life rt a born start past s₀) (ht : (viewOf s₀ a.key).record = some t)
    (hu : (viewOf s₀ a.key).vault.isSome = true) (called : CalledOff t) (run : Run rt s₀ calls s)
    (refunding : Always (RefundsOf a.key) calls) : Life rt a born start (past ++ calls) s := by
  induction run with
  | nil => simpa using life
  | @snoc calls m action s run next ih =>
      have repaid := calls_repaid life.wf ht hu called (run.snoc next) refunding
      have open_ : (s.tournament? a.key).isSome = true := Option.isSome_iff_exists.2 ⟨_, repaid.record⟩
      rw [← List.append_assoc]
      exact (ih (always_snoc.1 refunding).1).snoc next open_

/-- Refund calls on a called-off tournament may come in any order and in any
chunks: what they do follows from the participants that they mention and from
whether one of them supplies the organizer's account. Each participant and the
deposit are paid once. The two refund instructions do the same. -/
theorem refunds_confluent {a : CreateTournament} {born start s₀ : Ledger} {past : History}
    (life : Life rt a born start past s₀) (fresh : Fresh a.key born) (ht : s₀.tournament? a.key = some t)
    (called : CalledOff t) :
    (∀ calls s, Run rt s₀ calls s → Always (RefundsOf a.key) calls →
      Repaid t (mentions a.key calls) (supplied calls) (viewOf s₀ a.key) (viewOf s a.key) ∧
      ∃ refunded sent, Accounted a.key born (past ++ calls) s (Tournament.repaid t (supplied calls)) refunded sent ∧
        ∀ w ∈ mentions a.key calls, w ∈ refunded) ∧
    (∀ calls s calls' s', Run rt s₀ calls s → Always (RefundsOf a.key) calls →
      Run rt s₀ calls' s' → Always (RefundsOf a.key) calls' →
      (∀ w, w ∈ mentions a.key calls ↔ w ∈ mentions a.key calls') → supplied calls = supplied calls' →
      Agrees (viewOf s a.key) (viewOf s' a.key)) ∧
    recast a.key t.status s₀ = s₀ ∧
    ∀ cs : List CancelTournament, (∀ c ∈ cs, c.tournament = a.key) →
      each (fun s c => partialRefundChunk c s) (recast a.key .partialCancelled s₀) cs =
        (each (fun s c => cancelTournament c s) (recast a.key .cancelled s₀) cs).map
          (recast a.key .partialCancelled) := by
  obtain ⟨_, _, t', kept⟩ := life_fresh_books life fresh
  have repaid {calls : History} {s : Ledger} (run : Run rt s₀ calls s) (refunding : Always (RefundsOf a.key) calls) :=
    calls_repaid life.wf ht kept.books.vault called run refunding
  refine ⟨?_, ?_, recast_same ht, fun cs => partialRefunds_eq_cancels ht⟩
  · intro calls s run refunding
    have sofar := repaid run refunding
    obtain ⟨refunded, sent, t', kept'⟩ :=
      life_fresh_books (life_calls life ht kept.books.vault called run refunding) fresh
    obtain rfl := Option.some.inj (kept'.record.symm.trans sofar.record)
    have unsettled : (Tournament.repaid t (supplied calls)).status ≠ .completed := by
      rw [repaid_status]
      rcases called with hst | hst <;> simp [hst]
    refine ⟨sofar, refunded, sent, accounted kept' unsettled, ?_⟩
    intro w hw
    obtain ⟨x, hx⟩ := Option.isSome_iff_exists.1 (sofar.present w hw)
    have marked : (viewOf s a.key).participant w = some (Participant.refunded x) := by
      rw [sofar.participant]
      simp [refundAll, hw, hx]
    exact (kept'.refunded_iff fresh w).2 ⟨s, Participant.refunded x, .inl rfl, marked, rfl⟩
  · intro calls s calls' s' run refunding run' refunding' same given
    have first := repaid run refunding
    rw [given] at first
    exact first.agrees (repaid run' refunding') same

theorem always_refunds {calls : History}
    (h : (calls.all fun e => (refundCall? e.2).any fun c => c.tournament == key) = true) :
    Always (RefundsOf key) calls := by
  intro e entry
  have checked := List.all_eq_true.1 h e entry
  cases call : refundCall? e.2 with
  | none => simp [call] at checked
  | some c => exact ⟨c, call, by simpa [call] using checked⟩

/-- Two players join, and the organizer cancels. -/
def calledOff : List Action :=
  [joinAs 2 sampleTournament.key, joinAs 3 sampleTournament.key,
    .call (.cancelTournament ⟨.key 1, sampleTournament.key, none, []⟩)]

def refundBy (n : Nat) (organizerTokenAccount : Option Pubkey) (players : List Nat) : Action :=
  .call (.cancelTournament ⟨.key n, sampleTournament.key, organizerTokenAccount,
    players.flatMap fun i => [.participant sampleTournament.key (.key i), .key (i + 9)]⟩)

theorem calledOff_life : SampleLife calledOff :=
  script_life sampleBorn_reachable rfl (by decide) (by decide)

abbrev calledOffLedger : Ledger :=
  after sampleRuntime (created sampleRuntime sampleTournament sampleBorn) calledOff

/-- The refunds one by one, the first of them twice, or all at once. -/
theorem oneByOne_confluent :
    vaultAmount (after sampleRuntime calledOffLedger [refundBy 5 none [2], refundBy 4 (some (.key 10)) [3, 2]])
      sampleTournament.key = 0 ∧
    Agrees
      (viewOf (after sampleRuntime calledOffLedger [refundBy 5 none [2], refundBy 4 (some (.key 10)) [3, 2]])
        sampleTournament.key)
      (viewOf (after sampleRuntime calledOffLedger [refundBy 2 (some (.key 10)) [3, 2]]) sampleTournament.key) := by
  have confluent := refunds_confluent calledOff_life sampleBorn_fresh rfl (by decide)
  refine ⟨by decide, confluent.2.1 _ _ _ _ (script_run _ _) (always_refunds (by decide)) (script_run _ _)
    (always_refunds (by decide)) ?_ (by decide)⟩
  intro w
  change w ∈ [Pubkey.key 2, .key 3, .key 2] ↔ w ∈ [Pubkey.key 3, .key 2]
  simp
  tauto

end BracketChain.Confluence
