import BracketChain.Settlements

namespace BracketChain.Replicas

open Outcome Keys Records Start Registration Settlement Events Announcements Settlements

/-- How a tournament ended, by the event that told of it. -/
inductive Ending
  | completed (e : TournamentCompleted)
  | cancelled (e : TournamentCancelled)
  | partiallyCancelled (e : TournamentPartiallyCancelled)
deriving DecidableEq

/-- What a reader of the events of one tournament knows of it. -/
structure Replica where
  terms : TournamentCreated
  entrants : List Pubkey
  started : Option TournamentStarted
  reports : List MatchReported
  ending : Option Ending
  owed : List (Pubkey × Nat)
deriving DecidableEq

namespace Replica

variable (r : Replica)

def opening (e : TournamentCreated) : Replica := ⟨e, [], none, [], none, []⟩

/-- The refunds that a tournament owes when it is called off. -/
def owing : List (Pubkey × Nat) :=
  (if 0 < r.terms.organizerDeposit then [(r.terms.organizer, r.terms.organizerDeposit)] else []) ++
    r.entrants.map fun w => (w, r.terms.entryFee)

abbrev waiting : Prop := r.started = none ∧ r.ending = none

abbrev running : Prop := r.started.isSome = true ∧ r.ending = none

def calledOff : Bool :=
  match r.ending with
  | some (.cancelled _) | some (.partiallyCancelled _) => true
  | _ => false

def lastWinner : Option Pubkey := r.reports.getLast?.map MatchReported.winner

/-- The match that was reported last, with its winner. -/
abbrev lastIs (bracket round matchIndex : Nat) (winner : Pubkey) : Prop :=
  r.reports.getLast?.map (fun e => (e.bracket, e.round, e.matchIndex, e.winner)) =
    some (bracket, round, matchIndex, winner)

def accept (p : Prop) [Decidable p] (next : Replica) : Option Replica := if p then some next else none

/-- One event, refused when it does not fit what was told before. -/
def apply : Event → Option Replica
  | .tournamentCreated _ => none
  | .participantRegistered e => accept (r.waiting ∧ e.participantIndex = r.entrants.length ∧ e.wallet ∉ r.entrants ∧
      r.entrants.length < r.terms.maxParticipants) { r with entrants := r.entrants ++ [e.wallet] }
  | .tournamentStarted e => accept (r.waiting ∧ minParticipants ≤ r.entrants.length ∧
      e.participantCount = r.entrants.length ∧ (bracketSizeOf r.entrants.length).toOption = some e.bracketSize)
      { r with started := some e }
  | .matchReported e => accept r.running { r with reports := r.reports ++ [e] }
  | .tournamentCompleted e => accept (r.running ∧ r.lastWinner = some e.champion ∧ e.netPool + e.feeAmount = e.grossPool ∧
      (e.placementPayouts.map PlacementPayout.amount).sum = e.netPool) { r with ending := some (.completed e) }
  | .tournamentCancelled e => accept (r.waiting ∧ e.authority = r.terms.organizer)
      { r with ending := some (.cancelled e), owed := r.owing }
  | .tournamentPartiallyCancelled e => accept (r.running ∧ e.authority = r.terms.organizer)
      { r with ending := some (.partiallyCancelled e), owed := r.owing }
  | .refundIssued e => accept (r.calledOff = true ∧ (e.wallet, e.amount) ∈ r.owed)
      { r with owed := r.owed.erase (e.wallet, e.amount) }
  | .resultClaimed e => accept (r.lastIs e.bracket e.round e.matchIndex e.winner) r
  | .disputeResolved e => accept (r.lastIs e.bracket e.round e.matchIndex e.winner) r
  | .finalSettled e => accept (r.lastIs e.bracket e.round e.matchIndex e.winner) r
  | .tournamentClosed _ => accept (r.ending.isSome = true) r
  | .resultProposed _ | .resultDisputed _ | .matchLobbyCommitted _ | .matchFeedBound _ => some r

/-- An event of another version, or about another tournament, is refused. -/
def next (e : Event) : Option Replica :=
  if e.eventVersion = eventVersionV1 ∧ e.tournament = r.terms.tournament then r.apply e else none

def follow (events : List Event) : Option Replica := events.foldlM next r

end Replica

/-- A whole log, from the creation on. -/
def replay : List Event → Option Replica
  | .tournamentCreated e :: log => (Replica.opening e).follow log
  | _ => none

variable {r r' : Replica} {e : Event} {first rest : List Event}

theorem follow_append : r.follow (first ++ rest) = (r.follow first).bind fun m => m.follow rest :=
  List.foldlM_append

theorem follow_cons : r.follow (e :: rest) = (r.next e).bind fun m => m.follow rest :=
  List.foldlM_cons

theorem follow_trans {m : Replica} (h : r.follow first = some m) (h' : m.follow rest = some r') :
    r.follow (first ++ rest) = some r' := by
  rw [follow_append, h]
  exact h'

theorem next_eq (version : e.eventVersion = eventVersionV1) (about : e.tournament = r.terms.tournament) :
    r.next e = r.apply e := if_pos ⟨version, about⟩

theorem follow_one (version : e.eventVersion = eventVersionV1) (about : e.tournament = r.terms.tournament)
    (h : r.apply e = some r') : r.follow [e] = some r' := by
  rw [follow_cons, next_eq version about, h]
  rfl

@[simp] theorem accept_eq_some {p : Prop} [Decidable p] {next : Replica} :
    Replica.accept p next = some r ↔ p ∧ next = r := by
  unfold Replica.accept
  split <;> simp_all

theorem follow_refunds {key : Pubkey} {payments left : List (Pubkey × Nat)} (about : key = r.terms.tournament)
    (called : r.calledOff = true) (owed : r.owed.Perm (payments ++ left)) :
    ∃ remaining, r.follow (refundEvents key payments) = some { r with owed := remaining } ∧ remaining.Perm left := by
  induction payments generalizing r with
  | nil => exact ⟨r.owed, rfl, owed⟩
  | cons x payments ih =>
      obtain ⟨mem, rest⟩ := List.cons_perm_iff_perm_erase.1 owed.symm
      have paid : r.next (refundIssued key x.1 x.2) = some { r with owed := r.owed.erase x } :=
        (next_eq (e := refundIssued key x.1 x.2) rfl about).trans (accept_eq_some.2 ⟨⟨called, mem⟩, rfl⟩)
      obtain ⟨remaining, followed, perm⟩ := ih (r := { r with owed := r.owed.erase x }) about called rest.symm
      refine ⟨remaining, ?_, perm⟩
      rw [refundEvents, List.map_cons, follow_cons, paid]
      exact followed

def Event.settlement? : Event → Option TournamentCompleted
  | .tournamentCompleted e => some e
  | _ => none

/-- The settlements that a log tells of. -/
def settlements (log : List Event) : List TournamentCompleted := log.filterMap Event.settlement?

section Endings

theorem next_apply (h : r.next e = some r') : r.apply e = some r' := by
  unfold Replica.next at h
  split at h
  · exact h
  · cases h

/-- After the end nothing is settled, and what is paid was owed. -/
theorem next_ended {x : Ending} (ended : r.ending = some x) (h : r.next e = some r') :
    r'.ending = some x ∧ Event.settlement? e = none ∧ (r.calledOff = false → Event.payments e = []) := by
  have told := next_apply h
  cases e with
  | tournamentCreated => cases told
  | participantRegistered | tournamentStarted | matchReported | tournamentCompleted | tournamentCancelled
  | tournamentPartiallyCancelled => simp [Replica.apply, Replica.waiting, Replica.running, ended] at told
  | refundIssued e =>
      obtain ⟨⟨called, _⟩, rfl⟩ := accept_eq_some.1 told
      exact ⟨ended, rfl, fun off => by simp [off] at called⟩
  | resultClaimed | disputeResolved | finalSettled | tournamentClosed =>
      obtain ⟨_, rfl⟩ := accept_eq_some.1 told
      exact ⟨ended, rfl, fun _ => rfl⟩
  | resultProposed | resultDisputed | matchLobbyCommitted | matchFeedBound =>
      obtain rfl := Option.some.inj told
      exact ⟨ended, rfl, fun _ => rfl⟩

theorem follow_ended {x : Ending} {log : List Event} (ended : r.ending = some x) (h : r.follow log = some r') :
    r'.ending = some x ∧ settlements log = [] ∧ (r.calledOff = false → log.flatMap Event.payments = []) := by
  induction log generalizing r with
  | nil =>
      obtain rfl := Option.some.inj h
      exact ⟨ended, rfl, fun _ => rfl⟩
  | cons e log ih =>
      rw [follow_cons, Option.bind_eq_some_iff] at h
      obtain ⟨m, hm, h⟩ := h
      obtain ⟨ended', unsettled, unpaid⟩ := next_ended ended hm
      obtain ⟨last, rest, later⟩ := ih ended' h
      refine ⟨last, by rw [settlements, List.filterMap_cons_none unsettled]; exact rest, fun off => ?_⟩
      have off' : m.calledOff = false := by
        rw [Replica.calledOff, ended']
        rwa [Replica.calledOff, ended] at off
      rw [List.flatMap_cons, unpaid off, later off', List.append_nil]

/-- Before the end nothing is paid, and only a settlement settles. -/
theorem next_going (going : r.ending = none) (h : r.next e = some r') :
    (r'.ending = none ∧ Event.settlement? e = none ∧ Event.payments e = []) ∨
      (r'.calledOff = true ∧ Event.settlement? e = none) ∨
      ∃ c, e = .tournamentCompleted c ∧ r'.ending = some (.completed c) := by
  have told := next_apply h
  cases e with
  | tournamentCreated => cases told
  | refundIssued e => simp [Replica.apply, Replica.calledOff, going] at told
  | tournamentCompleted c =>
      obtain ⟨_, rfl⟩ := accept_eq_some.1 told
      exact .inr (.inr ⟨c, rfl, rfl⟩)
  | tournamentCancelled | tournamentPartiallyCancelled =>
      obtain ⟨_, rfl⟩ := accept_eq_some.1 told
      exact .inr (.inl ⟨rfl, rfl⟩)
  | participantRegistered | tournamentStarted | matchReported | resultClaimed | disputeResolved | finalSettled
  | tournamentClosed =>
      obtain ⟨_, rfl⟩ := accept_eq_some.1 told
      exact .inl ⟨going, rfl, rfl⟩
  | resultProposed | resultDisputed | matchLobbyCommitted | matchFeedBound =>
      obtain rfl := Option.some.inj told
      exact .inl ⟨going, rfl, rfl⟩

theorem calledOff_ended (called : r.calledOff = true) : ∃ x, r.ending = some x ∧ ∀ c, x ≠ .completed c := by
  unfold Replica.calledOff at called
  split at called
  · exact ⟨_, ‹_›, fun _ => Ending.noConfusion⟩
  · exact ⟨_, ‹_›, fun _ => Ending.noConfusion⟩
  · cases called

/-- A log that is accepted settles at most once, and then this is all it says
was paid. -/
theorem follow_settlements {log : List Event} (going : r.ending = none) (h : r.follow log = some r') :
    (∀ c, r'.ending = some (.completed c) → settlements log = [c] ∧
      log.flatMap Event.payments = Event.payments (.tournamentCompleted c)) ∧
    ((∀ c, r'.ending ≠ some (.completed c)) → settlements log = []) := by
  induction log generalizing r with
  | nil =>
      obtain rfl := Option.some.inj h
      exact ⟨fun c done => by simp [going] at done, fun _ => rfl⟩
  | cons e log ih =>
      rw [follow_cons, Option.bind_eq_some_iff] at h
      obtain ⟨m, hm, h⟩ := h
      rw [settlements, List.flatMap_cons]
      rcases next_going going hm with ⟨going', unsettled, unpaid⟩ | ⟨called, unsettled⟩ | ⟨c, rfl, done⟩
      · rw [List.filterMap_cons_none unsettled, unpaid]
        exact ih going' h
      · obtain ⟨x, ended, other⟩ := calledOff_ended called
        obtain ⟨last, rest, _⟩ := follow_ended ended h
        rw [List.filterMap_cons_none unsettled]
        refine ⟨fun c done => ?_, fun _ => rest⟩
        exact absurd (Option.some.inj (last.symm.trans done)) (other c)
      · obtain ⟨last, rest, later⟩ := follow_ended done h
        have unpaid := later (by rw [Replica.calledOff, done])
        refine ⟨fun c' done' => ?_, fun other => absurd last (other c)⟩
        obtain rfl := Ending.completed.inj (Option.some.inj (last.symm.trans done'))
        rw [unpaid, List.append_nil]
        exact ⟨congrArg (_ :: ·) rest, rfl⟩

end Endings

theorem replay_append {log more : List Event} (h : replay log = some r) : replay (log ++ more) = r.follow more := by
  cases log with
  | nil => cases h
  | cons e log =>
      cases e with
      | tournamentCreated e =>
          have opened : (Replica.opening e).follow log = some r := h
          change (Replica.opening e).follow (log ++ more) = _
          rw [follow_append, opened]
          rfl
      | _ => cases h

end BracketChain.Replicas
