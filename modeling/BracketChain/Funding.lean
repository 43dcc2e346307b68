import BracketChain.Bookkeeping
import BracketChain.Scripts

namespace BracketChain.Funding

open Outcome Keys Records Accounts Payout Registration Start Settlement Envelope Refunds Program Runs Layout View
  Lifecycle Refinement Lives Bookkeeping Scripts

/-- The bracket is being built, is played or was played to the end. -/
def Staged (status : TournamentStatus) : Prop :=
  status = .pendingBracketInit ∨ status = .active ∨ status = .completed

/-- There is an entrant for every place that the preset pays. -/
def Funds (t : Tournament) : Prop := placementCount t.payoutPreset ≤ t.participantCount

/-- The first chunk of a tournament with fewer entrants than paid places. -/
def ShortStart (e : Ledger × Action) : Prop :=
  ∃ c t, e.2 = .call (.startTournament c) ∧ e.1.tournament? c.tournament = some t ∧ t.status = .registration ∧
    ¬ Funds t

/-- In a ledger, all staged brackets have enough entrants. -/
def AllFunded (s : Ledger) : Prop := ∀ key t, s.tournament? key = some t → Staged t.status → Funds t

variable {rt : Runtime} {key : Pubkey} {clock : Clock} {b : Action} {v v' : TournamentView} {t t' t'' : Tournament}
  {start s s' : Ledger} {past : History}

theorem funds_congr (preset : t'.payoutPreset = t.payoutPreset) (count : t'.participantCount = t.participantCount) :
    Funds t' ↔ Funds t := by
  rw [Funds, Funds, preset, count]

theorem not_staged_of_registration (h : t.status = .registration) : ¬ Staged t.status := by
  simp [Staged, h]

/-- A chunk leaves a staged bracket with the entrants it found. -/
theorem start_staged {ds : Nat} {byes : Nat} {now : Int} (opens : Opens t t') (bound : ds ≤ u16Max)
    (tallied : tally t' ds byes now = .ok t'') : Staged t''.status ∧ (Funds t'' ↔ Funds t) := by
  obtain ⟨_, pending⟩ := opens_status opens
  have count := (opens_kept opens).1
  have preset := (opens_terms opens).payoutPreset
  rw [tally_ok bound tallied]
  constructor
  · simp only [pending]
    split
    · exact .inr (.inl rfl)
    · exact .inl rfl
  · exact funds_congr preset count

theorem funds_step (effect : Effect rt key clock b v v') (held : ∀ t, v.record = some t → Staged t.status → Funds t)
    (enough : ∀ c t, b = .call (.startTournament c) → c.tournament = key → v.record = some t →
      t.status = .registration → Funds t)
    (ht' : v'.record = some t') (staged : Staged t'.status) : Funds t' := by
  cases effect with
  | others => exact held t' ht' staged
  | create =>
      obtain rfl := Option.some.inj ht'
      exact absurd staged (not_staged_of_registration rfl)
  | join _ _ _ _ _ _ _ open_ | requestSeed _ _ _ _ open_ =>
      obtain rfl := Option.some.inj ht'
      exact absurd staged (not_staged_of_registration open_)
  | revealSeed _ _ _ record =>
      obtain rfl := Option.some.inj ht'
      have funds := held _ record staged
      exact funds
  | start c key_eq record _ opens _ tallied bound =>
      obtain rfl := Option.some.inj ht'
      apply (start_staged opens bound tallied).2.2
      rcases (opens_status opens).1 with registration | pending
      · exact enough c _ rfl key_eq record registration
      · exact held _ record (.inl pending)
  | edit => exact held t' ht' staged
  | advance _ _ _ _ finalizes | conclude _ _ _ _ _ finalizes =>
      obtain rfl := Option.some.inj ht'
      have funds := held _ finalizes.record (.inr (.inl finalizes.running))
      exact funds
  | refund _ _ _ _ _ _ refunding =>
      obtain rfl := Option.some.inj ht'
      apply absurd staged
      rcases refunding_cases refunding with ⟨rfl, _⟩ | ⟨rfl, hs⟩ <;> split
      all_goals simp [Staged, Tournament.depositReturned, *]
  | partialCancel =>
      obtain rfl := Option.some.inj ht'
      simp [Staged] at staged
  | closeChildren => exact held t' ht' staged
  | closeRoot => cases ht'

theorem allFunded_step (wf : Wellformed s) (held : AllFunded s) (enough : ¬ ShortStart (s, b)) (step : Step rt s b s') :
    AllFunded s' := by
  intro key t' ht' staged
  have hk := isTournament_of_record (step_confined wf step).wf ht'
  apply funds_step (step_effect wf hk step) (held key) ?_ ht' staged
  rintro c t rfl rfl ht registration
  by_contra short
  exact enough ⟨c, t, rfl, ht, registration, short⟩

theorem short_start_staged (wf : Wellformed s) (short : ShortStart (s, b)) (step : Step rt s b s') : ¬ AllFunded s' := by
  obtain ⟨c, t, rfl, ht, _, unfunded⟩ := short
  have effect := step_effect wf (isTournament_of_record wf ht) step
  intro held
  generalize hv : viewOf s' c.tournament = v' at effect
  cases effect with
  | others _ other => exact other rfl
  | @start _ _ _ _ _ t₂ record _ opens _ tallied bound =>
      obtain rfl : t = _ := Option.some.inj (ht.symm.trans record)
      obtain ⟨staged, same⟩ := start_staged opens bound tallied
      have ht₂ : s'.tournament? c.tournament = some t₂ := congrArg TournamentView.record hv
      exact unfunded (same.1 (held _ t₂ ht₂ staged))
  | edit _ _ _ call => cases call
  | advance _ _ _ _ finalizes | conclude _ _ _ _ _ finalizes => cases finalizes.call
  | refund _ _ _ _ _ _ refunding => cases refunding

/-- In every run, brackets have an entrant for each paid place in all states
that they are staged in, exactly when none is opened with too few entrants. -/
theorem funded_iff (genesis : Genesis start) (run : Run rt start past s) :
    (∀ q, Visits past s q → AllFunded q) ↔ Always (fun e => ¬ ShortStart e) past := by
  have wf {before : History} {q : Ledger} (reach : Run rt start before q) : Wellformed q :=
    run_wellformed (genesis_wellformed genesis) reach
  constructor
  · rintro funded ⟨q, b⟩ entry short
    obtain ⟨before, after, rfl⟩ := List.append_of_mem entry
    obtain ⟨t, step, visited⟩ := run.next_visited entry
    exact short_start_staged (wf (run.split rfl).1) short step (funded t visited)
  · intro allowed
    refine run.visited (I := AllFunded) ?_ ?_ allowed
    · intro key t ht
      cases (genesis_record genesis key).symm.trans ht
    · intro before q c u reach held enough step
      exact allFunded_step (wf reach) held enough step

/-- A check of the first chunks in a history. -/
def fundedStart (e : Ledger × Action) : Bool :=
  match e.2 with
  | .call (.startTournament c) => (e.1.tournament? c.tournament).all fun t =>
      t.status != .registration || placementCount t.payoutPreset ≤ t.participantCount
  | _ => true

theorem always_funded (h : (past.all fundedStart) = true) : Always (fun e => ¬ ShortStart e) past := by
  rintro ⟨q, b⟩ entry ⟨c, t, rfl, ht, registration, short⟩
  have checked := List.all_eq_true.1 h _ entry
  simp [fundedStart, ht, registration] at checked
  exact short checked

/-- The sample tournament paying three places. -/
def threePlaces : CreateTournament := { sampleTournament with payoutPreset := .standard }

/-- A third player joins in time. -/
def threeJoined : List Action :=
  [sampleInit, .call (.createTournament threePlaces), joinAs 4 threePlaces.key] ++ twoRevealed threePlaces.key ++
    [startWith threePlaces.key []]

theorem threeJoined_funded : ∃ s t, s.tournament? threePlaces.key = some t ∧ t.status = .pendingBracketInit ∧
    Run sampleRuntime sampleGenesis (log sampleRuntime sampleGenesis threeJoined) s ∧
    ∀ q, Visits (log sampleRuntime sampleGenesis threeJoined) s q → AllFunded q :=
  ⟨_, _, rfl, rfl, script_run _ _,
    (funded_iff sampleGenesis_genesis (script_run _ _)).2 (always_funded (by decide))⟩

/-- Two players start early, and the organizer awards the third place to a
wallet that never joined. -/
def paidOutside : List Action :=
  [sampleInit, .call (.createTournament threePlaces)] ++ proposedBy3 threePlaces.key ++
    [.outside (.clock ⟨70, 6⟩), .call (.settleFinal
      ⟨.key 1, threePlaces.key, finalMatch threePlaces.key, none, [.key 12, .key 11, .key 13, .key 17]⟩
      [.key 3, .key 2, .key 4])]

theorem paidOutside_not_funded : ∃ past s t, Run sampleRuntime sampleGenesis past s ∧
    s.tournament? threePlaces.key = some t ∧ t.status = .completed ∧ t.participantCount = 2 ∧
    (.key 4, 15) ∈ (viewOf s threePlaces.key).paid ∧
    s.participant? (.participant threePlaces.key (.key 4)) = none ∧
    ¬ ∀ q, Visits past s q → AllFunded q := by
  refine ⟨_, after sampleRuntime sampleGenesis paidOutside, _, script_run _ _, rfl, rfl, rfl, by decide, rfl, ?_⟩
  intro funded
  have enough : placementCount .standard ≤ 2 := funded _ (.inl rfl) threePlaces.key _ rfl (.inr (.inr rfl))
  exact absurd enough (by decide)

end BracketChain.Funding
