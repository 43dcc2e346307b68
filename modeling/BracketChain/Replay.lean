import BracketChain.Building
import BracketChain.Replicas

namespace BracketChain.Replay

open Outcome Keys Records Accounts Payout Registration Start Settlement Envelope Refunds Program Runs Layout View
  Lifecycle RefundEffects Refinement Lives Bookkeeping Entitlement Matches Building Confluence Prizes Events Emissions
  Announcements Payments Settlements Replicas Irrevocable Scripts

/-- The start of a tournament as the event told it. Outside trust mode the
seed stays what it was then. -/
structure Begun (t : Tournament) (e : TournamentStarted) : Prop where
  bracketSize : e.bracketSize = t.bracketSize
  participantCount : e.participantCount = t.participantCount
  startedAt : e.startedAt = t.startedAt
  seedHash : t.settlementMode ≠ .organizerOnly → e.seedHash = t.seedHash

/-- The end of a tournament as the event told it. -/
structure Crowned (t : Tournament) (e : TournamentCompleted) : Prop where
  champion : e.champion = t.champion
  completedAt : e.completedAt = t.completedAt
  figures : Figures t.payoutPreset e

/-- The status of a tournament as the replica knows it. -/
inductive Stage (t : Tournament) (r : Replica) : Prop
  | waiting (status : t.status = .registration ∨ t.status = .pendingBracketInit) (told : r.waiting)
  | running (e : TournamentStarted) (status : t.status = .active) (started : r.started = some e) (begun : Begun t e)
      (going : r.ending = none)
  | completed (e : TournamentStarted) (c : TournamentCompleted) (status : t.status = .completed)
      (started : r.started = some e) (begun : Begun t e) (ended : r.ending = some (.completed c)) (crowned : Crowned t c)
  | cancelled (c : TournamentCancelled) (status : t.status = .cancelled) (unstarted : r.started = none)
      (ended : r.ending = some (.cancelled c))
  | partiallyCancelled (e : TournamentStarted) (c : TournamentPartiallyCancelled)
      (status : t.status = .partialCancelled) (started : r.started = some e) (begun : Begun t e)
      (ended : r.ending = some (.partiallyCancelled c))

/-- The replica knows what the ledger says of a tournament: who entered, how
far it is, how many matches were reported, and what it owes. -/
structure Mirrors (rt : Runtime) (a : CreateTournament) (past : History) (t : Tournament) (r : Replica) : Prop where
  terms : opened a = .tournamentCreated r.terms
  entrants : r.entrants = joins a.key past
  count : t.participantCount = r.entrants.length
  reported : t.matchesReported = byesOf (accepted a.key past) + r.reports.length
  stage : Stage t r
  owed : CalledOff t → (announced a.key (eventLog rt past) ++ r.owed).Perm r.owing

/-- What the record of a tournament says of its own past. -/
structure Sound (t : Tournament) : Prop where
  sized : t.status = .pendingBracketInit → bracketSizeOf t.participantCount = .ok t.bracketSize ∧
    minParticipants ≤ t.participantCount
  revealed : t.settlementMode ≠ .organizerOnly → t.status ≠ .registration → t.status ≠ .cancelled →
    t.seedRevealed = true
  deposit : t.organizerDepositRefunded = true → 0 < t.organizerDeposit

variable {rt : Runtime} {a : CreateTournament} {born start s s' : Ledger} {past : History} {b : Action} {t t' : Tournament}
  {r : Replica} {key : Pubkey} {clock : Clock} {v v' : TournamentView} {events : List Event}

section Sound

theorem opens_sound (h : Sound t) (opens : Opens t t') : Sound t' := by
  rcases opens with ⟨_, enough, seed, size, sized, drawn, rfl⟩ | ⟨_, rfl⟩
  · exact ⟨fun _ => ⟨sized, enough⟩, fun mode _ _ => (drawn mode).1, h.deposit⟩
  · exact h

theorem effect_sound (effect : Effect rt key clock b v v') (ht : v.record = some t) (ht' : v'.record = some t')
    (h : Sound t) : Sound t' := by
  have same {t₁ : Tournament} (h₁ : v.record = some t₁) : t₁ = t := Option.some.inj (h₁.symm.trans ht)
  cases effect with
  | others | edit | closeChildren => exact same ht' ▸ h
  | create _ _ _ unopened => simp [ht] at unopened
  | join _ _ _ _ record _ _ open_ =>
      obtain rfl := same record
      obtain rfl := Option.some.inj ht'
      exact ⟨fun pending => by simp [open_] at pending, fun _ reg => absurd open_ reg, h.deposit⟩
  | requestSeed _ _ record =>
      obtain rfl := same record
      obtain rfl := Option.some.inj ht'
      exact ⟨h.sized, h.revealed, h.deposit⟩
  | revealSeed _ _ _ record =>
      obtain rfl := same record
      obtain rfl := Option.some.inj ht'
      exact ⟨h.sized, fun _ _ _ => rfl, h.deposit⟩
  | @start _ _ _ _ t₁ _ record _ opens _ tallied bound =>
      obtain rfl := same record
      obtain rfl := Option.some.inj ht'
      obtain ⟨_, pending⟩ := opens_status opens
      have sound := opens_sound h opens
      rw [tally_ok bound tallied]
      refine ⟨fun _ => sound.sized pending, fun mode _ _ => ?_, sound.deposit⟩
      exact sound.revealed mode (by simp [pending]) (by simp [pending])
  | advance _ _ _ _ finalizes =>
      obtain rfl := same finalizes.record
      obtain rfl := Option.some.inj ht'
      exact ⟨h.sized, h.revealed, h.deposit⟩
  | conclude _ _ _ _ _ finalizes =>
      obtain rfl := same finalizes.record
      obtain rfl := Option.some.inj ht'
      refine ⟨fun pending => by simp [Tournament.concluded] at pending, fun mode _ _ => ?_, h.deposit⟩
      exact h.revealed mode (by simp [finalizes.running]) (by simp [finalizes.running])
  | @refund _ _ c _ _ t₁ _ _ record _ refunding =>
      obtain rfl := same record
      obtain rfl := Option.some.inj ht'
      have paid : CancelTournament.returnsDeposit c t₁ = true → 0 < t₁.organizerDeposit := by
        simp only [CancelTournament.returnsDeposit, Bool.and_eq_true, decide_eq_true_eq]
        exact fun returned => returned.1.1
      rcases refunding_cases refunding with ⟨rfl, _⟩ | ⟨rfl, status⟩
      · split <;> rename_i returned
        · exact ⟨(fun same => by cases same), fun _ _ open_ => absurd rfl open_, fun _ => paid returned⟩
        · exact ⟨(fun same => by cases same), fun _ _ open_ => absurd rfl open_, h.deposit⟩
      · split <;> rename_i returned
        · exact ⟨h.sized, h.revealed, fun _ => paid returned⟩
        · exact h
  | partialCancel _ _ record _ running =>
      obtain rfl := same record
      obtain rfl := Option.some.inj ht'
      refine ⟨(fun same => by cases same), fun mode _ _ => ?_, h.deposit⟩
      exact h.revealed mode (by simp [running]) (by simp [running])
  | closeRoot => cases ht'

end Sound

section Inversion

/-- A finalizing call finds one match, and decides for one winner. -/
theorem finalizes_unique {ix : Instruction} {c d : FinalizeAccounts} {slot slot' : Slot} {m m' : MatchNode}
    {w w' : Pubkey} {p p' : Pubkey → Option Participant} (h : Finalizes key clock v ix c slot t m w p)
    (h' : Finalizes key clock v ix d slot' t' m' w' p') : t = t' ∧ m = m' ∧ w = w' := by
  obtain rfl := Option.some.inj (h.call.symm.trans h'.call)
  obtain rfl : slot = slot' := by simpa using h.address.symm.trans h'.address
  obtain rfl := Option.some.inj (h.record.symm.trans h'.record)
  obtain rfl := Option.some.inj (h.node.symm.trans h'.node)
  exact ⟨rfl, rfl, (verdictOf_winner h.decided).symm.trans (verdictOf_winner h'.decided)⟩

theorem advance_record {ix : Instruction} {c : FinalizeAccounts} {slot : Slot} {m : MatchNode} {w : Pubkey}
    {p : Pubkey → Option Participant} (effect : Effect rt key clock (.call ix) v v')
    (finalizes : Finalizes key clock v ix c slot t m w p) (inner : ¬ isFinal t m) :
    v'.record = some (Tournament.counted t) := by
  have call := finalizes.call
  cases effect with
  | others _ other => exact absurd ((finalize_tournament call).trans (congrArg some finalizes.key_eq)) other
  | advance _ _ _ _ finalizes' => rw [(finalizes_unique finalizes finalizes').1]
  | conclude _ _ _ _ _ finalizes' last =>
      obtain ⟨rfl, rfl, _⟩ := finalizes_unique finalizes finalizes'
      exact absurd last inner
  | edit _ _ _ call' => simp [finalize?_of_edit call'] at call
  | refund _ _ _ _ _ _ refunding => simp [(refunding_calls refunding).2] at call
  | create | join | requestSeed | revealSeed | start | partialCancel | closeChildren | closeRoot => cases call

theorem conclude_record {ix : Instruction} {c : FinalizeAccounts} {slot : Slot} {m : MatchNode} {w : Pubkey}
    {p : Pubkey → Option Participant} (effect : Effect rt key clock (.call ix) v v')
    (finalizes : Finalizes key clock v ix c slot t m w p) (last : isFinal t m) :
    v'.record = some (Tournament.concluded t w clock.unixTimestamp) := by
  have call := finalizes.call
  cases effect with
  | others _ other => exact absurd ((finalize_tournament call).trans (congrArg some finalizes.key_eq)) other
  | advance _ _ _ _ finalizes' inner =>
      obtain ⟨rfl, rfl, _⟩ := finalizes_unique finalizes finalizes'
      exact absurd last inner
  | conclude _ _ _ _ _ finalizes' =>
      obtain ⟨rfl, rfl, rfl⟩ := finalizes_unique finalizes finalizes'
      rfl
  | edit _ _ _ call' => simp [finalize?_of_edit call'] at call
  | refund _ _ _ _ _ _ refunding => simp [(refunding_calls refunding).2] at call
  | create | join | requestSeed | revealSeed | start | partialCancel | closeChildren | closeRoot => cases call

theorem edit_record {ix : Instruction} {c : MatchAccounts} (effect : Effect rt key clock (.call ix) v v')
    (call : Instruction.edit? ix = some c) : v'.record = v.record := by
  cases effect with
  | others | edit => rfl
  | advance _ _ _ _ finalizes | conclude _ _ _ _ _ finalizes =>
      exact absurd finalizes.call (by simp [finalize?_of_edit call])
  | refund _ _ _ _ _ _ refunding => simp [(refunding_calls refunding).1] at call
  | create | join | requestSeed | revealSeed | start | partialCancel | closeChildren | closeRoot => cases call

theorem refund_record {ix : Instruction} {c : CancelTournament} (effect : Effect rt key clock (.call ix) v v')
    (call : refundCall? (.call ix) = some c) (key_eq : c.tournament = key) (ht : v.record = some t) :
    ∃ t₁ ws, Refunding t c t₁ ix ∧ v'.paid = v.paid ++ refunds t (CancelTournament.returnsDeposit c t₁) ws ∧
      v'.record = some (if CancelTournament.returnsDeposit c t₁ then Tournament.depositReturned t₁ else t₁) := by
  cases effect with
  | others _ other => exact absurd ((refundCall_tournament call).trans (congrArg some key_eq)) other
  | @refund _ _ d _ _ t₁ _ ws record _ refunding =>
      obtain rfl := Option.some.inj (ht.symm.trans record)
      obtain rfl := Option.some.inj (call.symm.trans (refundCall_refunding refunding))
      exact ⟨t₁, ws, refunding, rfl, rfl⟩
  | edit _ _ _ call' => simp [refundCall_edit call'] at call
  | advance _ _ _ _ finalizes | conclude _ _ _ _ _ finalizes => simp [refundCall_finalize finalizes.call] at call
  | create | join | requestSeed | revealSeed | start | partialCancel | closeChildren | closeRoot => cases call

theorem join_record {c : JoinTournament} (effect : Effect rt key clock (.call (.joinTournament c)) v v')
    (key_eq : c.tournament = key) (ht : v.record = some t) : t.status = .registration ∧ t.participantCount < t.maxParticipants ∧
      v.participant c.player = none ∧ v'.record = some { t with participantCount := t.participantCount + 1 } := by
  cases effect with
  | others _ other => exact absurd (congrArg some key_eq) other
  | join _ _ _ _ record _ new open_ _ room =>
      obtain rfl := Option.some.inj (ht.symm.trans record)
      exact ⟨open_, room, new, rfl⟩
  | edit _ _ _ call => cases call
  | advance _ _ _ _ finalizes | conclude _ _ _ _ _ finalizes => cases finalizes.call
  | refund _ _ _ _ _ _ refunding => cases refunding

theorem request_record {c : RequestSeed} (effect : Effect rt key clock (.call (.requestSeed c)) v v')
    (key_eq : c.tournament = key) (ht : v.record = some t) : t.status = .registration ∧ v'.record =
      some { t with vrfRandomnessAccount := c.randomnessAccount, vrfCommitSlot := clock.slot } := by
  cases effect with
  | others _ other => exact absurd (congrArg some key_eq) other
  | requestSeed _ _ record _ open_ =>
      obtain rfl := Option.some.inj (ht.symm.trans record)
      exact ⟨open_, rfl⟩
  | edit _ _ _ call => cases call
  | advance _ _ _ _ finalizes | conclude _ _ _ _ _ finalizes => cases finalizes.call
  | refund _ _ _ _ _ _ refunding => cases refunding

theorem reveal_record {c : RevealSeed} (effect : Effect rt key clock (.call (.revealSeed c)) v v')
    (key_eq : c.tournament = key) (ht : v.record = some t) : t.seedRevealed = false ∧ ∃ value, v'.record =
      some { t with seedHash := value, seedRevealed := true } := by
  cases effect with
  | others _ other => exact absurd (congrArg some key_eq) other
  | revealSeed _ _ value record _ hidden =>
      obtain rfl := Option.some.inj (ht.symm.trans record)
      exact ⟨hidden, value, rfl⟩
  | edit _ _ _ call => cases call
  | advance _ _ _ _ finalizes | conclude _ _ _ _ _ finalizes => cases finalizes.call
  | refund _ _ _ _ _ _ refunding => cases refunding

theorem chunk_record {c : StartTournament} (effect : Effect rt key clock (.call (.startTournament c)) v v')
    (key_eq : c.tournament = key) (ht : v.record = some t) : ∃ t₁ t₂, Opens t t₁ ∧ c.descriptors.length ≤ u16Max ∧
      tally t₁ c.descriptors.length (byesOf c.descriptors) clock.unixTimestamp = .ok t₂ ∧ v'.record = some t₂ := by
  cases effect with
  | others _ other => exact absurd (congrArg some key_eq) other
  | start _ _ record _ opens _ tallied bound =>
      obtain rfl := Option.some.inj (ht.symm.trans record)
      exact ⟨_, _, opens, bound, tallied, rfl⟩
  | edit _ _ _ call => cases call
  | advance _ _ _ _ finalizes | conclude _ _ _ _ _ finalizes => cases finalizes.call
  | refund _ _ _ _ _ _ refunding => cases refunding

theorem partialCancel_record {c : PartialCancel} (effect : Effect rt key clock (.call (.partialCancelTournament c)) v v')
    (key_eq : c.tournament = key) (ht : v.record = some t) : t.status = .active ∧ c.organizer = t.organizer ∧
      v'.record = some { t with status := .partialCancelled } := by
  cases effect with
  | others _ other => exact absurd (congrArg some key_eq) other
  | partialCancel _ _ record organizer running =>
      obtain rfl := Option.some.inj (ht.symm.trans record)
      exact ⟨running, organizer, rfl⟩
  | edit _ _ _ call => cases call
  | advance _ _ _ _ finalizes | conclude _ _ _ _ _ finalizes => cases finalizes.call
  | refund _ _ _ _ _ _ refunding => cases refunding

theorem close_record {c : CloseTournament} (effect : Effect rt key clock (.call (.closeTournament c)) v v')
    (key_eq : c.tournament = key) (ht : v.record = some t) : terminal t.status ∧ (v'.record = some t ∨ v'.record = none) := by
  cases effect with
  | others _ other => exact absurd (congrArg some key_eq) other
  | closeChildren _ _ _ record ended =>
      obtain rfl := Option.some.inj (ht.symm.trans record)
      exact ⟨ended, .inl record⟩
  | closeRoot _ _ _ record _ ended =>
      obtain rfl := Option.some.inj (ht.symm.trans record)
      exact ⟨ended, .inr rfl⟩
  | edit _ _ _ call => cases call
  | advance _ _ _ _ finalizes | conclude _ _ _ _ _ finalizes => cases finalizes.call
  | refund _ _ _ _ _ _ refunding => cases refunding

theorem create_unopened {c : CreateTournament} (effect : Effect rt key clock (.call (.createTournament c)) v v')
    (key_eq : c.key = key) : v.record = none := by
  cases effect with
  | others _ other => exact absurd (congrArg some key_eq) other
  | create _ _ _ unopened => exact unopened
  | edit _ _ _ call => cases call
  | advance _ _ _ _ finalizes | conclude _ _ _ _ _ finalizes => cases finalizes.call
  | refund _ _ _ _ _ _ refunding => cases refunding

end Inversion

section Stages

theorem Stage.told (h : Stage t r) (status : t.status = .registration ∨ t.status = .pendingBracketInit) : r.waiting := by
  cases h with
  | waiting _ told => exact told
  | running _ other | completed _ _ other | cancelled _ other | partiallyCancelled _ _ other =>
      simp [other] at status

theorem Stage.underway (h : Stage t r) (status : t.status = .active) :
    ∃ e, r.started = some e ∧ Begun t e ∧ r.ending = none := by
  cases h with
  | running e _ started begun going => exact ⟨e, started, begun, going⟩
  | waiting other => simp [status] at other
  | completed _ _ other | cancelled _ other | partiallyCancelled _ _ other => simp [status] at other

theorem Stage.off (h : Stage t r) (called : CalledOff t) : r.calledOff = true := by
  cases h with
  | cancelled _ _ _ ended | partiallyCancelled _ _ _ _ _ ended => rw [Replica.calledOff, ended]
  | waiting other | running _ other | completed _ _ other =>
      rcases called with called | called <;> simp [called] at other

theorem Stage.over (h : Stage t r) (ended : terminal t.status) : r.ending.isSome = true := by
  cases h with
  | completed _ _ _ _ _ ended | cancelled _ _ _ ended | partiallyCancelled _ _ _ _ _ ended => rw [ended]; rfl
  | waiting other => rcases other with other | other <;> simp [terminal, other] at ended
  | running _ other => simp [terminal, other] at ended

/-- A late reveal, which only trust mode allows, changes a seed that the
replica does not vouch for. -/
theorem Stage.revealed (h : Stage t r) (sound : Sound t) (hidden : t.seedRevealed = false) (value : Bytes32) :
    Stage { t with seedHash := value, seedRevealed := true } r := by
  have trusted (reg : t.status ≠ .registration) (off : t.status ≠ .cancelled) : t.settlementMode = .organizerOnly := by
    by_contra mode
    exact Bool.false_ne_true (hidden.symm.trans (sound.revealed mode reg off))
  have begun {e : TournamentStarted} (b : Begun t e) (mode : t.settlementMode = .organizerOnly) :
      Begun { t with seedHash := value, seedRevealed := true } e := ⟨b.1, b.2, b.3, fun other => absurd mode other⟩
  cases h with
  | waiting status told => exact .waiting status told
  | running e status started b going =>
      exact .running e status started (begun b (trusted (by simp [status]) (by simp [status]))) going
  | completed e c status started b ended crowned =>
      exact .completed e c status started (begun b (trusted (by simp [status]) (by simp [status]))) ended
        ⟨crowned.1, crowned.2, crowned.3⟩
  | cancelled c status unstarted ended => exact .cancelled c status unstarted ended
  | partiallyCancelled e c status started b ended =>
      exact .partiallyCancelled e c status started (begun b (trusted (by simp [status]) (by simp [status]))) ended

end Stages

section Steps

theorem follow_closing {ix : Instruction} {m : MatchNode} {winner : Pubkey} {now : Int} (key_eq : key = r.terms.tournament)
    (decided : Decides t m clock winner ix) (last : r.lastIs m.bracket m.round m.matchIndex winner) :
    r.follow (closingOf now ix key m) = some r := by
  cases ix with
  | claimResult | forceClaimDisputed =>
      refine follow_one rfl key_eq (accept_eq_some.2 ⟨?_, rfl⟩)
      exact decided.1.2.2 ▸ last
  | resolveDispute =>
      refine follow_one rfl key_eq (accept_eq_some.2 ⟨?_, rfl⟩)
      exact decided.2.2 ▸ last
  | settleFinal =>
      refine follow_one rfl key_eq (accept_eq_some.2 ⟨?_, rfl⟩)
      exact decided.2.1.2.2 ▸ last
  | _ => rfl

theorem follow_edit {ix : Instruction} {m : MatchNode} {now : Int} (home : m.tournament = r.terms.tournament) :
    r.follow (editOf now ix m) = some r := by
  cases ix with
  | proposeResult | proposeResultOracle | disputeResult | commitMatchLobby | bindMatchFeed =>
      exact follow_one rfl home rfl
  | _ => rfl

/-- A step that is told by nothing the replica keeps. -/
theorem Mirrors.idle (h : Mirrors rt a past t r) (count : t'.participantCount = t.participantCount)
    (reported : t'.matchesReported = t.matchesReported) (status : CalledOff t' → CalledOff t) (stage : Stage t' r)
    (joined : joinedBy a.key b = []) (opened : acceptedBy a.key b = [])
    (log : announced a.key (eventLog rt (past ++ [(s, b)])) = announced a.key (eventLog rt past)) :
    Mirrors rt a (past ++ [(s, b)]) t' r where
  terms := h.terms
  entrants := by rw [joins_snoc, joined, List.append_nil, h.entrants]
  count := count.trans h.count
  reported := by rw [accepted_snoc, opened, List.append_nil, reported, h.reported]
  stage := stage
  owed called := log ▸ h.owed (status called)

theorem Mirrors.tournament (h : Mirrors rt a past t r) : a.key = r.terms.tournament := by
  have terms := Event.tournamentCreated.inj h.terms
  rw [← terms]

/-- The replica has the terms of the tournament. -/
structure Tells (e : TournamentCreated) (t : Tournament) : Prop where
  organizer : e.organizer = t.organizer
  name : e.name = t.name
  tokenMint : e.tokenMint = t.tokenMint
  entryFee : e.entryFee = t.entryFee
  organizerDeposit : e.organizerDeposit = t.organizerDeposit
  maxParticipants : e.maxParticipants = t.maxParticipants
  registrationDeadline : e.registrationDeadline = t.registrationDeadline
  payoutPreset : e.payoutPreset = payoutPresetDiscriminator t.payoutPreset

theorem Mirrors.tells {now : Int} (h : Mirrors rt a past t r) (terms : SameTerms (a.record now) t) : Tells r.terms t := by
  rw [← Event.tournamentCreated.inj h.terms]
  exact {
    organizer := terms.organizer.symm
    name := terms.name.symm
    tokenMint := terms.tokenMint.symm
    entryFee := terms.entryFee.symm
    organizerDeposit := terms.organizerDeposit.symm
    maxParticipants := terms.maxParticipants.symm
    registrationDeadline := terms.registrationDeadline.symm
    payoutPreset := congrArg payoutPresetDiscriminator terms.payoutPreset.symm }

theorem Mirrors.owing_eq {now : Int} (h : Mirrors rt a past t r) (terms : SameTerms (a.record now) t) : r.owing =
    (if 0 < t.organizerDeposit then [(t.organizer, t.organizerDeposit)] else []) ++
      (joins a.key past).map fun w => (w, t.entryFee) := by
  have told := h.tells terms
  rw [Replica.owing, told.organizer, told.entryFee, told.organizerDeposit, h.entrants]

/-- What has been refunded is part of what was owed. -/
theorem refunds_owed {ws joined : List Pubkey} (distinct : ws.Nodup) (sub : ws ⊆ joined)
    (deposit : t.organizerDepositRefunded = true → 0 < t.organizerDeposit) :
    (refunds t t.organizerDepositRefunded ws).Subperm
      ((if 0 < t.organizerDeposit then [(t.organizer, t.organizerDeposit)] else []) ++
        joined.map fun w => (w, t.entryFee)) := by
  rw [refunds]
  have fees := List.Subperm.map (f := fun w => (w, t.entryFee)) (fun _ _ h => (Prod.mk.inj h).1) (distinct.subperm sub)
  refine List.Subperm.append ?_ fees
  cases flag : t.organizerDepositRefunded with
  | false => exact List.nil_subperm
  | true => simp [deposit flag]

/-- The payments of a refunding call, told after the tournament was called off. -/
theorem repaid {payments : List (Pubkey × Nat)} {refunded : List Pubkey} {sent : Nat} {log : List (Pubkey × Nat)}
    (books : Books (viewOf born a.key) (joins a.key past) refunded sent t v) (called : CalledOff t)
    (paid : v.paid = (viewOf born a.key).paid ++ (log ++ payments)) (sound : Sound t)
    (owing : r.owing = (if 0 < t.organizerDeposit then [(t.organizer, t.organizerDeposit)] else []) ++
      (joins a.key past).map fun w => (w, t.entryFee))
    (owed : (log ++ r.owed).Perm r.owing) : ∃ left, r.owed.Perm (payments ++ left) := by
  have unsettled : t.status ≠ .completed := by rcases called with called | called <;> simp [called]
  have settled := books.paid unsettled
  rw [paid, List.perm_append_left_iff] at settled
  have part : (log ++ payments).Subperm r.owing := by
    rw [owing]
    exact settled.subperm.trans (refunds_owed books.refunded_nodup books.refunded_joined sound.deposit)
  refine ⟨r.owing.diff (log ++ payments), ?_⟩
  have whole := List.subperm_append_diff_self_of_count_le fun x _ => part.count_le x
  rw [List.append_assoc] at whole
  exact (List.perm_append_left_iff log).1 (owed.trans whole.symm)

theorem Mirrors.after_entry {now : Int} {c : JoinTournament} (h : Mirrors rt a past t r) (key_eq : c.tournament = a.key)
    (open_ : t.status = .registration) (room : t.participantCount < t.maxParticipants)
    (terms : SameTerms (a.record now) t) (new : c.player ∉ joins a.key past) :
    ∃ r', r.follow [registered a.key c.player t.participantCount] = some r' ∧
      Mirrors rt a (past ++ [(s, .call (.joinTournament c))]) { t with participantCount := t.participantCount + 1 } r' := by
  have waiting := h.stage.told (.inl open_)
  have fits : r.entrants.length < r.terms.maxParticipants := by
    rw [(h.tells terms).maxParticipants, ← h.count]
    exact room
  have joined : joinedBy a.key (.call (.joinTournament c)) = [c.player] := if_pos key_eq
  refine ⟨{ r with entrants := r.entrants ++ [c.player] }, ?_, ?_⟩
  · refine follow_one rfl h.tournament (accept_eq_some.2 ⟨⟨waiting, h.count, ?_, fits⟩, rfl⟩)
    rw [h.entrants]
    exact new
  · refine ⟨h.terms, ?_, ?_, ?_, .waiting (.inl open_) waiting, fun called => ?_⟩
    · rw [joins_snoc, joined, h.entrants]
    · rw [List.length_append, h.count]
      rfl
    · rw [accepted_snoc, acceptedBy_eq_nil (fun _ same => by cases same), List.append_nil]
      exact h.reported
    · rcases called with called | called <;> simp [open_] at called

theorem Mirrors.after_chunk {c : StartTournament} {t₁ : Tournament} (h : Mirrors rt a past t r) (sound : Sound t)
    (key_eq : c.tournament = a.key) (opens : Opens t t₁)
    (tallied : tally t₁ c.descriptors.length (byesOf c.descriptors) clock.unixTimestamp = .ok t')
    (bound : c.descriptors.length ≤ u16Max) :
    ∃ r', r.follow (if t'.matchesInitialized = t'.totalMatches then [started a.key t'] else []) = some r' ∧
      Mirrors rt a (past ++ [(s, .call (.startTournament c))]) t' r' := by
  obtain ⟨before, pending⟩ := opens_status opens
  have waiting := h.stage.told before
  have kept : t₁.participantCount = t.participantCount ∧ t₁.matchesReported = t.matchesReported := by
    rcases opens with ⟨_, _, _, _, _, _, rfl⟩ | ⟨_, rfl⟩ <;> exact ⟨rfl, rfl⟩
  obtain ⟨sized, enough⟩ := (opens_sound sound opens).sized pending
  have joined : joins a.key (past ++ [(s, .call (.startTournament c))]) = joins a.key past := by
    rw [joins_snoc]
    exact List.append_nil _
  have chunk : byesOf (accepted a.key (past ++ [(s, .call (.startTournament c))])) =
      byesOf (accepted a.key past) + byesOf c.descriptors := by
    rw [accepted_snoc, acceptedBy, if_pos key_eq, byesOf, List.filter_append, List.length_append]
    rfl
  have counted : t₁.matchesReported + byesOf c.descriptors =
      byesOf (accepted a.key (past ++ [(s, .call (.startTournament c))])) + r.reports.length := by
    rw [kept.2, h.reported, chunk]
    omega
  have count : t₁.participantCount = r.entrants.length := kept.1.trans h.count
  rw [count] at sized enough
  rw [tally_ok bound tallied]
  dsimp only
  split
  · refine ⟨{ r with started := _ }, follow_one rfl h.tournament (accept_eq_some.2 ⟨⟨waiting, enough, count, ?_⟩, rfl⟩),
      h.terms, h.entrants.trans joined.symm, count, counted, ?_, fun called => ?_⟩
    · rw [sized]
      rfl
    · exact .running _ rfl rfl ⟨rfl, rfl, rfl, fun _ => rfl⟩ waiting.2
    · rcases called with called | called <;> cases called
  · refine ⟨r, rfl, h.terms, h.entrants.trans joined.symm, count, counted, ?_, fun called => ?_⟩
    · exact .waiting (.inr pending) waiting
    · rcases called with called | called <;> simp [pending] at called

/-- A report, before what a completed match may bring on. -/
theorem Mirrors.follow_report {m : MatchNode} {w : Pubkey} {now : Int} (h : Mirrors rt a past t r) (running : r.running) :
    r.follow [matchReported a.key m w now] = some { r with reports := r.reports ++ [report a.key m w now] } :=
  follow_one (e := matchReported a.key m w now) rfl h.tournament (accept_eq_some.2 ⟨running, rfl⟩)

theorem Mirrors.after_report {ix : Instruction} {c : FinalizeAccounts} {slot : Slot} {m : MatchNode} {w : Pubkey}
    {p : Pubkey → Option Participant} (h : Mirrors rt a past t r)
    (finalizes : Finalizes a.key clock v ix c slot t m w p) :
    ∃ r', r.follow (matchReported a.key m w clock.unixTimestamp :: closingOf clock.unixTimestamp ix a.key m) = some r' ∧
      Mirrors rt a (past ++ [(s, .call ix)]) (Tournament.counted t) r' := by
  obtain ⟨e, started, begun, going⟩ := h.stage.underway finalizes.running
  have running : r.running := ⟨by rw [started]; rfl, going⟩
  refine ⟨{ r with reports := r.reports ++ [report a.key m w clock.unixTimestamp] }, ?_, h.terms, ?_, h.count, ?_, ?_,
    fun called => ?_⟩
  · refine follow_trans (h.follow_report running) ?_
    exact follow_closing h.tournament finalizes.decided (by simp [Replica.lastIs, report])
  · rw [joins_snoc, joinedBy_finalize finalizes.call, List.append_nil]
    exact h.entrants
  · rw [accepted_snoc, acceptedBy_finalize finalizes.call, List.append_nil, List.length_append, ← Nat.add_assoc,
      ← h.reported]
    rfl
  · exact .running e finalizes.running started ⟨begun.1, begun.2, begun.3, begun.4⟩ going
  · rcases called with called | called <;> simp [Tournament.counted, finalizes.running] at called

theorem Mirrors.after_completion {ix : Instruction} {c : FinalizeAccounts} {slot : Slot} {m : MatchNode} {w treasury : Pubkey}
    {p : Pubkey → Option Participant} {d : Distribution} (h : Mirrors rt a past t r)
    (finalizes : Finalizes a.key clock v ix c slot t m w p)
    (figures : Figures t.payoutPreset (completion a.key w treasury d clock.unixTimestamp)) :
    ∃ r', r.follow (matchReported a.key m w clock.unixTimestamp ::
        tournamentCompleted a.key w treasury d clock.unixTimestamp :: closingOf clock.unixTimestamp ix a.key m) = some r' ∧
      Mirrors rt a (past ++ [(s, .call ix)]) (Tournament.concluded t w clock.unixTimestamp) r' := by
  obtain ⟨e, started, begun, going⟩ := h.stage.underway finalizes.running
  have running : r.running := ⟨by rw [started]; rfl, going⟩
  refine ⟨{ r with
    reports := r.reports ++ [report a.key m w clock.unixTimestamp]
    ending := some (.completed (completion a.key w treasury d clock.unixTimestamp)) }, ?_, h.terms, ?_, h.count, ?_, ?_,
    fun called => ?_⟩
  · refine follow_trans (h.follow_report running) ?_
    change Replica.follow _ ([tournamentCompleted a.key w treasury d clock.unixTimestamp] ++ _) = _
    refine follow_trans (follow_one (e := tournamentCompleted a.key w treasury d clock.unixTimestamp) rfl h.tournament
      (accept_eq_some.2 ⟨⟨running, ?_, figures.pool, figures.whole⟩, rfl⟩)) ?_
    · simp [Replica.lastWinner, report, completion]
    · exact follow_closing h.tournament finalizes.decided (by simp [Replica.lastIs, report])
  · rw [joins_snoc, joinedBy_finalize finalizes.call, List.append_nil]
    exact h.entrants
  · rw [accepted_snoc, acceptedBy_finalize finalizes.call, List.append_nil, List.length_append, ← Nat.add_assoc,
      ← h.reported]
    rfl
  · exact .completed e _ rfl started ⟨begun.1, begun.2, begun.3, begun.4⟩ rfl ⟨rfl, rfl, figures⟩
  · rcases called with called | called <;> cases called

theorem Mirrors.cancel {now : Int} {caller : Pubkey} (h : Mirrors rt a past t r) (clock : Clock)
    (open_ : t.status = .registration ∨ t.status = .pendingBracketInit) (organizer : caller = t.organizer)
    (terms : SameTerms (a.record now) t) (unpaid : announced a.key (eventLog rt past) = []) :
    ∃ r', r.follow [cancelled a.key caller clock.unixTimestamp] = some r' ∧
      Mirrors rt a past { t with status := .cancelled } r' := by
  have waiting := h.stage.told open_
  refine ⟨{ r with
    ending := some (.cancelled ⟨eventVersionV1, a.key, caller, clock.unixTimestamp⟩)
    owed := r.owing }, ?_, h.terms, h.entrants, h.count, h.reported, .cancelled _ rfl waiting.1 rfl, fun _ => ?_⟩
  · refine follow_one rfl h.tournament (accept_eq_some.2 ⟨⟨waiting, ?_⟩, rfl⟩)
    exact organizer.trans (h.tells terms).organizer.symm
  · rw [unpaid]
    exact .refl _

theorem Mirrors.after_partialCancel {now : Int} {c : PartialCancel} (h : Mirrors rt a past t r)
    (running : t.status = .active) (organizer : c.organizer = t.organizer) (terms : SameTerms (a.record now) t)
    (unpaid : announced a.key (eventLog rt (past ++ [(s, .call (.partialCancelTournament c))])) = []) :
    ∃ r', r.follow [partiallyCancelled a.key c.organizer clock.unixTimestamp] = some r' ∧
      Mirrors rt a (past ++ [(s, .call (.partialCancelTournament c))]) { t with status := .partialCancelled } r' := by
  obtain ⟨e, started, begun, going⟩ := h.stage.underway running
  refine ⟨{ r with
    ending := some (.partiallyCancelled ⟨eventVersionV1, a.key, c.organizer, clock.unixTimestamp⟩)
    owed := r.owing }, ?_, h.terms, ?_, h.count, ?_, ?_, fun _ => ?_⟩
  · refine follow_one rfl h.tournament (accept_eq_some.2 ⟨⟨⟨by rw [started]; rfl, going⟩, ?_⟩, rfl⟩)
    exact organizer.trans (h.tells terms).organizer.symm
  · rw [joins_snoc]
    exact h.entrants.trans (List.append_nil _).symm
  · rw [accepted_snoc, acceptedBy_eq_nil (fun _ same => by cases same), List.append_nil]
    exact h.reported
  · exact .partiallyCancelled e _ rfl started ⟨begun.1, begun.2, begun.3, begun.4⟩ rfl
  · rw [unpaid]
    exact .refl _

theorem Mirrors.depositReturned (h : Mirrors rt a past t r) (called : CalledOff t) :
    Mirrors rt a past (Tournament.depositReturned t) r := by
  refine ⟨h.terms, h.entrants, h.count, h.reported, ?_, fun _ => h.owed called⟩
  cases h.stage with
  | cancelled c status unstarted ended => exact .cancelled c status unstarted ended
  | partiallyCancelled e c status started begun ended =>
      exact .partiallyCancelled e c status started ⟨begun.1, begun.2, begun.3, begun.4⟩ ended
  | waiting other | running _ other | completed _ _ other =>
      rcases called with called | called <;> simp [called] at other

theorem Mirrors.after_refunds {now : Int} {payments : List (Pubkey × Nat)} {refunded : List Pubkey} {sent : Nat}
    (h : Mirrors rt a past t r) (called : CalledOff t) (sound : Sound t) (terms : SameTerms (a.record now) t)
    (books : Books (viewOf born a.key) (joins a.key past) refunded sent t v)
    (paid : v.paid = (viewOf born a.key).paid ++ (announced a.key (eventLog rt past) ++ payments))
    (joined : joinedBy a.key b = []) (opened : acceptedBy a.key b = [])
    (log : announced a.key (eventLog rt (past ++ [(s, b)])) = announced a.key (eventLog rt past) ++ payments) :
    ∃ r', r.follow (refundEvents a.key payments) = some r' ∧ Mirrors rt a (past ++ [(s, b)]) t r' := by
  have owed := h.owed called
  obtain ⟨left, rest⟩ := repaid books called paid sound (h.owing_eq terms) owed
  obtain ⟨remaining, followed, perm⟩ := follow_refunds h.tournament (h.stage.off called) rest
  refine ⟨_, followed, h.terms, ?_, h.count, ?_, ?_, fun _ => ?_⟩
  · rw [joins_snoc, joined, List.append_nil]
    exact h.entrants
  · rw [accepted_snoc, opened, List.append_nil]
    exact h.reported
  · cases h.stage with
    | cancelled c status unstarted ended => exact .cancelled c status unstarted ended
    | partiallyCancelled e c status started begun ended => exact .partiallyCancelled e c status started begun ended
    | waiting other | running _ other | completed _ _ other =>
        rcases called with called | called <;> simp [called] at other
  · rw [log, List.append_assoc]
    exact ((perm.append_left payments).trans rest.symm).append_left _ |>.trans owed

end Steps

section Lives

theorem mirrors_start (rt : Runtime) (a : CreateTournament) {now : Int} :
    ∃ r, replay [opened a] = some r ∧ Mirrors rt a [] (a.record now) r ∧ Sound (a.record now) := by
  refine ⟨_, rfl, ⟨rfl, rfl, rfl, rfl, .waiting (.inl rfl) ⟨rfl, rfl⟩, fun called => ?_⟩,
    (fun same => by cases same), fun _ open_ => ?_, (fun same => by cases same)⟩
  · rcases called with called | called <;> cases called
  · exact absurd rfl open_

/-- What a refund chunk tells, after the status it leaves was told. -/
theorem mirrors_refunds {c : CancelTournament} {ix : Instruction} {payments : List (Pubkey × Nat)}
    (later : Life rt a born start (past ++ [(s, .call ix)]) s')
    (fresh : Fresh a.key born) (effect : Effect rt a.key s.clock (.call ix) (viewOf s a.key) (viewOf s' a.key))
    (ht : (viewOf s a.key).record = some t) (ht' : (viewOf s' a.key).record = some t') (sound : Sound t)
    (paid : (viewOf s a.key).paid = (viewOf born a.key).paid ++ announced a.key (eventLog rt past))
    (refund : refundCall? (.call ix) = some c) (home : c.tournament = a.key)
    (pays : Disburses a.key (viewOf s a.key) (viewOf s' a.key) payments)
    (log : announced a.key (eventLog rt (past ++ [(s, .call ix)])) = announced a.key (eventLog rt past) ++ payments)
    (mid : ∀ t₁, Refunding t c t₁ ix → Mirrors rt a past t₁ r) :
    ∃ r', r.follow (refundEvents a.key payments) = some r' ∧ Mirrors rt a (past ++ [(s, .call ix)]) t' r' := by
  obtain ⟨t₁, ws, refunding, _, record'⟩ := refund_record effect refund home ht
  obtain rfl := Option.some.inj (record'.symm.trans ht')
  have called : CalledOff t₁ := by
    rcases refunding_cases refunding with ⟨rfl, _⟩ | ⟨rfl, status⟩
    · exact .inl rfl
    · exact .inr status
  obtain ⟨refunded, sent, t₂, kept⟩ := life_fresh_books later fresh
  obtain rfl := Option.some.inj (record'.symm.trans kept.record)
  have joined : joinedBy a.key (.call ix) = [] := joinedBy_refund refunding
  have books := kept.books
  rw [joins_snoc, joined, List.append_nil] at books
  have mirrored : Mirrors rt a past (if CancelTournament.returnsDeposit c t₁ then Tournament.depositReturned t₁ else t₁)
      r := by
    split
    · exact (mid t₁ refunding).depositReturned called
    · exact mid t₁ refunding
  refine mirrored.after_refunds ?_ (effect_sound effect ht ht' sound) (later.course.terms later.start_record ht') books ?_
    joined (acceptedBy_refund refunding) log
  · split <;> exact called
  · rw [pays.paid, paid, List.append_assoc]

/-- The replica follows a call of `cancel_tournament`, whether it calls the
tournament off or finds it called off. -/
theorem mirrors_cancel {c : CancelTournament} {payments : List (Pubkey × Nat)} {now : Int}
    (later : Life rt a born start (past ++ [(s, .call (.cancelTournament c))]) s') (fresh : Fresh a.key born)
    (effect : Effect rt a.key s.clock (.call (.cancelTournament c)) (viewOf s a.key) (viewOf s' a.key))
    (ht : (viewOf s a.key).record = some t) (ht' : (viewOf s' a.key).record = some t') (sound : Sound t)
    (paid : (viewOf s a.key).paid = (viewOf born a.key).paid ++ announced a.key (eventLog rt past))
    (home : c.tournament = a.key) (pays : Disburses a.key (viewOf s a.key) (viewOf s' a.key) payments)
    (log : announced a.key (eventLog rt (past ++ [(s, .call (.cancelTournament c))])) =
      announced a.key (eventLog rt past) ++ payments)
    (terms : SameTerms (a.record now) t) (unpaid : ¬ terminal t.status → announced a.key (eventLog rt past) = [])
    (h : Mirrors rt a past t r) :
    ∃ r', r.follow ((if t.status = .cancelled then [] else [cancelled a.key c.caller s.clock.unixTimestamp]) ++
      refundEvents a.key payments) = some r' ∧ Mirrors rt a (past ++ [(s, .call (.cancelTournament c))]) t' r' := by
  obtain ⟨_, _, ⟨_, before, flipped⟩, _⟩ := refund_record effect (c := c) rfl home ht
  obtain ⟨_, allowed⟩ := flipCancelled_ok flipped
  by_cases off : t.status = .cancelled
  · rw [if_pos off]
    refine mirrors_refunds later fresh effect ht ht' sound paid rfl home pays log fun t₁ refunding => ?_
    obtain ⟨rfl, _⟩ := flipCancelled_ok refunding.2.2
    rw [← off]
    exact h
  · rw [if_neg off]
    have open_ : t.status = .registration ∨ t.status = .pendingBracketInit := by
      rcases before with reg | pending | done
      · exact .inl reg
      · exact .inr pending
      · exact absurd done off
    have early : ¬ terminal t.status := by rcases open_ with reg | pending <;> simp [terminal, *]
    obtain ⟨r₁, flips, mirrored⟩ := h.cancel s.clock open_ (allowed.resolve_left off) terms (unpaid early)
    have refunded : ∃ r', r₁.follow (refundEvents a.key payments) = some r' ∧
        Mirrors rt a (past ++ [(s, .call (.cancelTournament c))]) t' r' := by
      refine mirrors_refunds later fresh effect ht ht' sound paid rfl home pays log fun t₁ refunding => ?_
      obtain ⟨rfl, _⟩ := flipCancelled_ok refunding.2.2
      exact mirrored
    obtain ⟨r', followed, mirrored'⟩ := refunded
    exact ⟨r', follow_trans flips followed, mirrored'⟩

/-- The replica follows every step of a tournament. -/
theorem mirrors_step (life : Life rt a born start past s) (later : Life rt a born start (past ++ [(s, b)]) s')
    (fresh : Fresh a.key born) (effect : Effect rt a.key s.clock b (viewOf s a.key) (viewOf s' a.key))
    (told : Announces a.key s.clock (viewOf s a.key) (viewOf s' a.key) b events)
    (ht : (viewOf s a.key).record = some t) (ht' : (viewOf s' a.key).record = some t') (sound : Sound t)
    (log : announced a.key (eventLog rt (past ++ [(s, b)])) =
      announced a.key (eventLog rt past) ++ events.flatMap Event.payments)
    (paid : (viewOf s a.key).paid = (viewOf born a.key).paid ++ announced a.key (eventLog rt past))
    (h : Mirrors rt a past t r) :
    ∃ r', r.follow events = some r' ∧ Mirrors rt a (past ++ [(s, b)]) t' r' := by
  have terms := life.course.terms life.start_record ht
  have same {t₁ : Tournament} (h₁ : (viewOf s a.key).record = some t₁) : t = t₁ := Option.some.inj (ht.symm.trans h₁)
  have unchanged (kept : (viewOf s' a.key).record = (viewOf s a.key).record) : t = t' := same (kept ▸ ht')
  -- nothing was paid before a tournament has ended
  have unpaid (open_ : ¬ terminal t.status) : announced a.key (eventLog rt past) = [] := by
    have none_ := (life_ended life ht).2.2 open_
    rw [paid] at none_
    exact List.append_right_eq_self.1 none_
  cases told with
  | others other =>
      obtain ⟨k, hv⟩ := effect_others effect other
      obtain rfl := unchanged (by rw [hv]; rfl)
      exact ⟨r, rfl, h.idle rfl rfl id h.stage (joinedBy_other other) (acceptedBy_other other)
        (log.trans (List.append_nil _))⟩
  | requestSeed c key_eq =>
      obtain ⟨open_, record⟩ := request_record effect key_eq ht
      obtain rfl := Option.some.inj (record.symm.trans ht')
      exact ⟨r, rfl, h.idle rfl rfl id (.waiting (.inl open_) (h.stage.told (.inl open_))) rfl
        (acceptedBy_eq_nil fun _ same => by cases same) (log.trans (List.append_nil _))⟩
  | revealSeed c key_eq =>
      obtain ⟨hidden, value, record⟩ := reveal_record effect key_eq ht
      obtain rfl := Option.some.inj (record.symm.trans ht')
      exact ⟨r, rfl, h.idle rfl rfl id (h.stage.revealed sound hidden value) rfl
        (acceptedBy_eq_nil fun _ same => by cases same) (log.trans (List.append_nil _))⟩
  | created c key_eq => exact absurd ht (by rw [create_unopened effect key_eq]; intro same; cases same)
  | registered c key_eq record =>
      obtain rfl := same record
      obtain ⟨open_, room, new, record⟩ := join_record effect key_eq ht
      obtain rfl := Option.some.inj (record.symm.trans ht')
      refine h.after_entry key_eq open_ room terms fun joined => ?_
      obtain ⟨_, _, _, kept⟩ := life_fresh_books life fresh
      obtain rfl := same kept.record
      have present := kept.books.present (by simp [terminal, open_]) _ joined
      rw [new] at present
      cases present
  | started c key_eq record' =>
      obtain rfl := Option.some.inj (ht'.symm.trans record')
      obtain ⟨t₁, t₂, opens, bound, tallied, record⟩ := chunk_record effect key_eq ht
      obtain rfl := Option.some.inj (record.symm.trans ht')
      exact h.after_chunk sound key_eq opens tallied bound
  | edited ix c slot call key_eq address node' =>
      obtain rfl := unchanged (edit_record effect call)
      refine ⟨r, follow_edit ?_, h.idle rfl rfl id h.stage (joinedBy_edit call) (acceptedBy_edit call) ?_⟩
      · exact (node_slot later.wf node').2.trans h.tournament
      · rw [log, editOf_payments, List.append_nil]
  | reported ix c slot finalizes inner =>
      obtain rfl := same finalizes.record
      obtain rfl := Option.some.inj ((advance_record effect finalizes inner).symm.trans ht')
      exact h.after_report finalizes
  | completed ix c slot finalizes last vault figures =>
      obtain rfl := same finalizes.record
      obtain rfl := Option.some.inj ((conclude_record effect finalizes last).symm.trans ht')
      exact h.after_completion finalizes (distributes_figures _ figures)
  | @cancelled c key_eq _ payments record pays =>
      obtain rfl := same record
      refine mirrors_cancel later fresh effect ht ht' sound paid key_eq pays (log.trans (congrArg _ ?_)) terms unpaid h
      rw [List.flatMap_append, refundEvents_payments]
      split <;> rfl
  | refunded c key_eq pays =>
      refine mirrors_refunds later fresh effect ht ht' sound paid rfl key_eq pays
        (log.trans (congrArg _ (refundEvents_payments _))) fun t₁ refunding => ?_
      obtain ⟨_, _, rfl⟩ := refunding
      exact h
  | partiallyCancelled c key_eq =>
      obtain ⟨running, organizer, record⟩ := partialCancel_record effect key_eq ht
      obtain rfl := Option.some.inj (record.symm.trans ht')
      refine h.after_partialCancel running organizer terms ?_
      rw [log, unpaid (by simp [terminal, running])]
      rfl
  | closed c key_eq count =>
      obtain ⟨ended, record | gone⟩ := close_record effect key_eq ht
      · obtain rfl := Option.some.inj (record.symm.trans ht')
        refine ⟨r, follow_one rfl h.tournament (accept_eq_some.2 ⟨h.stage.over ended, rfl⟩), h.idle rfl rfl id h.stage rfl
          (acceptedBy_eq_nil fun _ same => by cases same) (log.trans (List.append_nil _))⟩
      · rw [gone] at ht'
        cases ht'

theorem life_mirrored (life : Life rt a born start past s) (fresh : Fresh a.key born) :
    ∃ t r, (viewOf s a.key).record = some t ∧ Sound t ∧ replay (opened a :: logOf rt a.key past) = some r ∧
      Mirrors rt a past t r ∧
      (viewOf s a.key).paid = (viewOf born a.key).paid ++ announced a.key (eventLog rt past) := by
  refine life.invariant (P := fun past s => ∃ t r, (viewOf s a.key).record = some t ∧ Sound t ∧
    replay (opened a :: logOf rt a.key past) = some r ∧ Mirrors rt a past t r ∧
    (viewOf s a.key).paid = (viewOf born a.key).paid ++ announced a.key (eventLog rt past)) ?_ ?_
  · obtain ⟨r, replayed, mirrored, sound⟩ := mirrors_start rt a
    refine ⟨_, r, life.start_record, sound, replayed, mirrored, ?_⟩
    rw [life.start_view.2.2]
    exact (List.append_nil _).symm
  · rintro past s b s' earlier ⟨t, r, ht, sound, replayed, mirrored, paid⟩ step effect later
    obtain ⟨t', ht'⟩ := later.record
    have told : Announces a.key s.clock (viewOf s a.key) (viewOf s' a.key) b
      ((eventsOf rt s b).filter fun e => e.tournament = a.key) := step_announces earlier.wf step
    have log : announced a.key (eventLog rt (past ++ [(s, b)])) = announced a.key (eventLog rt past) ++
        ((eventsOf rt s b).filter fun e => e.tournament = a.key).flatMap Event.payments := by
      rw [eventLog_snoc, announced_append]
      rfl
    obtain ⟨r', followed, mirrored'⟩ := mirrors_step earlier later fresh effect told ht ht' sound log paid mirrored
    refine ⟨t', r', ht', effect_sound effect ht ht' sound, ?_, mirrored', ?_⟩
    · rw [logOf_snoc, ← List.cons_append, replay_append replayed]
      exact followed
    · rw [announces_paid effect told, paid, log, List.append_assoc]

/-- The events of a tournament, replayed by the rules of the replica, are all
accepted, and say what the ledger says. -/
theorem log_replayed (life : Life rt a born start past s) (fresh : Fresh a.key born) :
    ∃ t r, s.tournament? a.key = some t ∧ replay (opened a :: logOf rt a.key past) = some r ∧ Tells r.terms t ∧
      Mirrors rt a past t r ∧
      ∀ w x, s.participant? (.participant a.key w) = some x → r.entrants[x.seedIndex]? = some w := by
  obtain ⟨t, r, ht, _, replayed, mirrored, _⟩ := life_mirrored life fresh
  refine ⟨t, r, ht, replayed, mirrored.tells (life.course.terms life.start_record ht), mirrored, fun w x hx => ?_⟩
  obtain ⟨_, _, _, kept⟩ := life_fresh_books life fresh
  have entered := kept.books.entered w x hx
  have joined : w ∈ joins a.key past := by
    by_contra other
    have old := (entered.leftover other).2
    rw [show (viewOf born a.key).participant w = none from fresh.participant w] at old
    cases old
  rw [mirrored.entrants]
  exact (entered.numbered joined).1

/-- A completion is told exactly when the record is completed, once, with the
champion and exact figures, and nothing else is ever paid. -/
theorem completion_announced (life : Life rt a born start past s) (fresh : Fresh a.key born)
    (ht : s.tournament? a.key = some t) :
    (t.status = .completed → ∃ e, settlements (logOf rt a.key past) = [e] ∧ Crowned t e ∧
      announced a.key (eventLog rt past) = Event.payments (.tournamentCompleted e)) ∧
    (t.status ≠ .completed → settlements (logOf rt a.key past) = []) := by
  obtain ⟨t', r, ht', _, replayed, mirrored, _⟩ := life_mirrored life fresh
  obtain rfl : t = t' := Option.some.inj (ht.symm.trans ht')
  have followed : (Replica.opening r.terms).follow (logOf rt a.key past) = some r := by
    rw [mirrored.terms] at replayed
    exact replayed
  obtain ⟨once, never⟩ := follow_settlements rfl followed
  constructor
  · intro done
    cases mirrored.stage with
    | completed _ c _ _ _ ended crowned => exact ⟨c, (once c ended).1, crowned, (once c ended).2⟩
    | waiting other => simp [done] at other
    | running _ other | cancelled _ other | partiallyCancelled _ _ other => simp [done] at other
  · intro undone
    refine never fun c ended => ?_
    cases mirrored.stage with
    | completed _ _ done => exact undone done
    | waiting _ told => simp [told.2] at ended
    | running _ _ _ _ going => simp [going] at ended
    | cancelled _ _ _ other | partiallyCancelled _ _ _ _ _ other => simp [other] at ended

theorem concededFinal_replayed : ∃ past t r, t.status = .completed ∧ r.entrants = [.key 2, .key 3] ∧
    replay (opened sampleTournament :: logOf sampleRuntime sampleTournament.key past) = some r ∧ Tells r.terms t ∧
    Mirrors sampleRuntime sampleTournament past t r := by
  obtain ⟨t, r, ht, replayed, told, mirrored, _⟩ := log_replayed conceded_life sampleBorn_fresh
  obtain rfl := Option.some.inj ht
  exact ⟨_, _, r, rfl, mirrored.entrants, replayed, told, mirrored⟩

theorem concededFinal_told : ∃ past t e, settlements (logOf sampleRuntime sampleTournament.key past) = [e] ∧
    t.champion = .key 3 ∧ Crowned t e ∧ Event.payments (.tournamentCompleted e) = [(.key 3, 104), (.key 8, 3)] := by
  obtain ⟨e, told, crowned, paid⟩ := (completion_announced conceded_life sampleBorn_fresh rfl).1 rfl
  exact ⟨_, _, e, told, rfl, crowned, paid.symm.trans rfl⟩

end Lives

end BracketChain.Replay
