import BracketChain.Refinement

namespace BracketChain.Lives

open Outcome Keys Records Accounts Registration Start Settlement Refunds Program Runs Layout View Lifecycle
  StartEffects RefundEffects Refinement

/-- A run of one tournament: from a reachable ledger up to a state in which
its account was never closed. -/
structure Course (rt : Runtime) (key : Pubkey) (start : Ledger) (past : History) (s : Ledger) : Prop where
  reachable : Reachable rt start
  run : Run rt start past s
  kept : ∀ q, Visits past s q → (q.tournament? key).isSome = true

/-- A run of one tournament from its creation on. -/
structure Life (rt : Runtime) (a : CreateTournament) (born start : Ledger) (past : History) (s : Ledger) :
    Prop where
  reachable : Reachable rt born
  created : Step rt born (.call (.createTournament a)) start
  run : Run rt start past s
  kept : ∀ q, Visits past s q → (q.tournament? a.key).isSome = true

/-- No account of an earlier tournament is open at the address. -/
structure Fresh (key : Pubkey) (s : Ledger) : Prop where
  participant : ∀ w, s.participant? (.participant key w) = none
  node : ∀ slot, s.matchNode? (.matchNode key slot) = none

variable {rt : Runtime} {a : CreateTournament} {born start s : Ledger} {past : History} {key : Pubkey}

theorem key_isTournament (a : CreateTournament) : a.key.isTournament = true := rfl

theorem Course.wf (course : Course rt key start past s) : Wellformed s :=
  run_wellformed (reachable_wellformed course.reachable) course.run

theorem Course.record (course : Course rt key start past s) : ∃ t, (viewOf s key).record = some t :=
  Option.isSome_iff_exists.1 (course.kept s (.inl rfl))

theorem Course.isTournament (course : Course rt key start past s) : key.isTournament = true := by
  obtain ⟨t, ht⟩ := course.record
  exact isTournament_of_record course.wf ht

/-- A property of a course holds throughout when it holds at the start and no
step breaks it. -/
theorem Course.invariant {P : History → Ledger → Prop} (init : P [] start)
    (keep : ∀ past s b t, Course rt key start past s → P past s → Step rt s b t →
      Effect rt key s.clock b (viewOf s key) (viewOf t key) →
      Course rt key start (past ++ [(s, b)]) t → P (past ++ [(s, b)]) t)
    (course : Course rt key start past s) : P past s := by
  obtain ⟨reachable, run, kept⟩ := course
  induction run with
  | nil => exact init
  | snoc run next ih =>
      have earlier : Course rt key start _ _ := ⟨reachable, run, fun q hq => kept q (visits_snoc.2 (.inr hq))⟩
      exact keep _ _ _ _ earlier (ih earlier.kept) next
        (step_effect earlier.wf earlier.isTournament next) ⟨reachable, run.snoc next, kept⟩

/-- The rest of a course from any entry of its history on. -/
theorem Course.from_entry {before after : History} {q : Ledger} {b : Action} (course : Course rt key start past s)
    (h : past = before ++ (q, b) :: after) :
    Course rt key start before q ∧ Course rt key q ((q, b) :: after) s := by
  obtain ⟨reach, t, next, rest⟩ := course.run.split h
  subst h
  refine ⟨⟨course.reachable, reach, ?_⟩, ⟨reachable_run course.reachable reach, (Run.one next).append rest, ?_⟩⟩
  · rintro p (rfl | ⟨c, hc⟩)
    · exact course.kept p (.inr ⟨b, List.mem_append_right _ List.mem_cons_self⟩)
    · exact course.kept p (.inr ⟨c, List.mem_append_left _ hc⟩)
  · rintro p (rfl | ⟨c, hc⟩)
    · exact course.kept p (.inl rfl)
    · exact course.kept p (.inr ⟨c, List.mem_append_right _ hc⟩)

theorem Life.course (life : Life rt a born start past s) : Course rt a.key start past s :=
  ⟨reachable_run life.reachable (Run.one life.created), life.run, life.kept⟩

theorem Life.wf (life : Life rt a born start past s) : Wellformed s := life.course.wf

theorem Life.record (life : Life rt a born start past s) : ∃ t, (viewOf s a.key).record = some t :=
  life.course.record

theorem Life.start_view (life : Life rt a born start past s) : a.organizer.canSign = true ∧
    a.check born.clock.unixTimestamp = .ok () ∧ viewOf start a.key = { viewOf born a.key with
      record := some (a.record born.clock.unixTimestamp)
      vault := some ⟨a.tokenMint, a.key, a.organizerDeposit, false⟩ } := by
  have effect := step_effect (reachable_wellformed life.reachable) (key_isTournament a) life.created
  generalize hv : viewOf start a.key = v at effect
  cases effect with
  | others _ other => exact absurd rfl other
  | create _ _ signer _ checked => exact ⟨signer, checked, rfl⟩
  | edit _ _ _ call => cases call
  | advance _ _ _ _ finalizes => cases finalizes.call
  | conclude _ _ _ _ _ finalizes => cases finalizes.call
  | refund _ _ _ _ _ _ refunding => cases refunding

theorem Life.start_record (life : Life rt a born start past s) :
    start.tournament? a.key = some (a.record born.clock.unixTimestamp) :=
  congrArg TournamentView.record life.start_view.2.2

theorem Life.start_node (life : Life rt a born start past s) :
    (viewOf start a.key).node = (viewOf born a.key).node := by
  rw [life.start_view.2.2]

theorem Life.start_empty (life : Life rt a born start past s) (fresh : Fresh a.key born) (slot : Slot) :
    (viewOf start a.key).node slot = none :=
  (congrFun life.start_node slot).trans (fresh.node slot)

/-- A property of a life holds throughout when creation establishes it and no
later step breaks it. -/
theorem Life.invariant {P : History → Ledger → Prop} (init : P [] start)
    (keep : ∀ past s b t, Life rt a born start past s → P past s → Step rt s b t →
      Effect rt a.key s.clock b (viewOf s a.key) (viewOf t a.key) →
      Life rt a born start (past ++ [(s, b)]) t → P (past ++ [(s, b)]) t)
    (life : Life rt a born start past s) : P past s := by
  have alive {past : History} {s : Ledger} (course : Course rt a.key start past s) :
      Life rt a born start past s := ⟨life.reachable, life.created, course.run, course.kept⟩
  exact life.course.invariant init fun past s b t course ih step effect later =>
    keep past s b t (alive course) ih step effect (alive later)

theorem Life.at_moment {before : History} {q : Ledger} (life : Life rt a born start past s)
    (moment : Moment past s before q) : Life rt a born start before q := by
  refine ⟨life.reachable, life.created, moment.run life.run, ?_⟩
  rintro p (rfl | ⟨b, hb⟩)
  · exact life.kept p moment.visits
  · exact life.kept p (.inr ⟨b, moment.mem hb⟩)

theorem Life.snoc {b : Action} {t : Ledger} (life : Life rt a born start past s) (next : Step rt s b t)
    (open_ : (t.tournament? a.key).isSome = true) : Life rt a born start (past ++ [(s, b)]) t := by
  refine ⟨life.reachable, life.created, life.run.snoc next, fun q visited => ?_⟩
  rcases visits_snoc.1 visited with rfl | visited
  · exact open_
  · exact life.kept q visited

/-- The terms a tournament is created with, which nothing changes. -/
structure SameTerms (t t' : Tournament) : Prop where
  organizer : t'.organizer = t.organizer
  name : t'.name = t.name
  tokenMint : t'.tokenMint = t.tokenMint
  entryFee : t'.entryFee = t.entryFee
  organizerDeposit : t'.organizerDeposit = t.organizerDeposit
  maxParticipants : t'.maxParticipants = t.maxParticipants
  registrationDeadline : t'.registrationDeadline = t.registrationDeadline
  payoutPreset : t'.payoutPreset = t.payoutPreset
  settlementMode : t'.settlementMode = t.settlementMode
  disputeWindowSecs : t'.disputeWindowSecs = t.disputeWindowSecs
  arbitrator : t'.arbitrator = t.arbitrator

theorem SameTerms.refl (t : Tournament) : SameTerms t t := by
  constructor <;> rfl

theorem SameTerms.trans {t t' t'' : Tournament} (h : SameTerms t t') (h' : SameTerms t' t'') :
    SameTerms t t'' := by
  constructor <;> simp only [h.organizer, h.name, h.tokenMint, h.entryFee, h.organizerDeposit, h.maxParticipants,
    h.registrationDeadline, h.payoutPreset, h.settlementMode, h.disputeWindowSecs, h.arbitrator, h'.organizer,
    h'.name, h'.tokenMint, h'.entryFee, h'.organizerDeposit, h'.maxParticipants, h'.registrationDeadline,
    h'.payoutPreset, h'.settlementMode, h'.disputeWindowSecs, h'.arbitrator]

theorem opens_terms {t t' : Tournament} (h : Opens t t') : SameTerms t t' := by
  rcases h with ⟨_, _, _, _, _, _, rfl⟩ | ⟨_, rfl⟩ <;> constructor <;> rfl

theorem opens_status {t t' : Tournament} (h : Opens t t') :
    (t.status = .registration ∨ t.status = .pendingBracketInit) ∧ t'.status = .pendingBracketInit := by
  rcases h with ⟨hreg, _, _, _, _, _, rfl⟩ | ⟨hpend, rfl⟩
  · exact ⟨.inl hreg, rfl⟩
  · exact ⟨.inr hpend, hpend⟩

theorem tally_ok {t t' : Tournament} {count byes : Nat} {now : Int} (bound : count ≤ u16Max)
    (h : tally t count byes now = .ok t') : t' = { t with
      matchesInitialized := t.matchesInitialized + count
      matchesReported := t.matchesReported + byes
      status := if t.matchesInitialized + count = t.totalMatches then .active else t.status
      startedAt := if t.matchesInitialized + count = t.totalMatches then now else t.startedAt } := by
  simp only [tally, bind_ok, orThrow_ok, pure_ok, checkedAdd_eq_some, Nat.mod_eq_of_lt (Nat.lt_succ_of_le bound)] at h
  obtain ⟨_, ⟨_, rfl⟩, _, ⟨_, rfl⟩, rfl⟩ := h
  split <;> rfl

theorem tally_terms {t t' : Tournament} {count byes : Nat} {now : Int} (h : tally t count byes now = .ok t') :
    SameTerms t t' := by
  simp only [tally, bind_ok, orThrow_ok, pure_ok] at h
  obtain ⟨_, _, _, _, rfl⟩ := h
  split <;> constructor <;> rfl

theorem refunding_cases {t t' : Tournament} {c : CancelTournament} {ix : Instruction}
    (h : Refunding t c t' ix) :
    (t' = { t with status := .cancelled } ∧
        (t.status = .registration ∨ t.status = .pendingBracketInit ∨ t.status = .cancelled)) ∨
      (t' = t ∧ t.status = .partialCancelled) := by
  cases ix with
  | cancelTournament b =>
      obtain ⟨_, hst, hflip⟩ := h
      exact .inl ⟨(flipCancelled_ok hflip).1, hst⟩
  | partialRefundChunk b =>
      obtain ⟨_, hst, rfl⟩ := h
      exact .inr ⟨rfl, hst⟩
  | _ => cases h

theorem refunding_status {t t' : Tournament} {c : CancelTournament} {ix : Instruction}
    (h : Refunding t c t' ix) : ∃ status, t' = { t with status := status } ∧ t.status ≠ .completed ∧
      terminal status := by
  rcases refunding_cases h with ⟨rfl, hst⟩ | ⟨rfl, hst⟩
  · exact ⟨.cancelled, rfl, by rcases hst with hst | hst | hst <;> simp [hst], by simp [terminal]⟩
  · exact ⟨.partialCancelled, by rw [← hst], by simp [hst], by simp [terminal]⟩

theorem effect_terms {clock : Clock} {b : Action} {v v' : TournamentView} {t t' : Tournament}
    (h : Effect rt key clock b v v') (ht : v.record = some t) (ht' : v'.record = some t') : SameTerms t t' := by
  have same {t₁ : Tournament} (h₁ : v.record = some t₁) : t₁ = t := Option.some.inj (h₁.symm.trans ht)
  cases h with
  | others =>
      obtain rfl := same ht'
      exact .refl t'
  | create _ _ _ unopened => simp [ht] at unopened
  | edit => exact same ht' ▸ .refl t'
  | join _ _ _ _ record | requestSeed _ _ record | revealSeed _ _ _ record | partialCancel _ _ record =>
      obtain rfl := same record
      obtain rfl := Option.some.inj ht'
      constructor <;> rfl
  | start _ _ record _ opens _ tallied =>
      obtain rfl := same record
      obtain rfl := Option.some.inj ht'
      exact (opens_terms opens).trans (tally_terms tallied)
  | advance _ _ _ _ finalizes | conclude _ _ _ _ _ finalizes =>
      obtain rfl := same finalizes.record
      obtain rfl := Option.some.inj ht'
      constructor <;> rfl
  | refund ix c _ _ record _ refunding =>
      obtain rfl := same record
      obtain rfl := Option.some.inj ht'
      rcases refunding_cases refunding with ⟨rfl, _⟩ | ⟨rfl, _⟩ <;> split <;> constructor <;> rfl
  | closeChildren => exact same ht' ▸ .refl t'
  | closeRoot => cases ht'

theorem Course.terms {t₀ t : Tournament} (course : Course rt key start past s)
    (ht₀ : start.tournament? key = some t₀) (ht : s.tournament? key = some t) : SameTerms t₀ t := by
  refine course.invariant (P := fun _ s => ∀ t, s.tournament? key = some t → SameTerms t₀ t)
    (fun t ht => Option.some.inj (ht₀.symm.trans ht) ▸ .refl t₀) ?_ t ht
  intro past s b s' earlier terms step effect later t' ht'
  obtain ⟨t, ht⟩ := earlier.record
  exact (terms t ht).trans (effect_terms effect ht ht')

/-- The statuses that a step may lead to from another one. -/
inductive StatusStep : TournamentStatus → TournamentStatus → Prop
  | stay (status : TournamentStatus) : StatusStep status status
  | opens : StatusStep .registration .pendingBracketInit
  | starts {status : TournamentStatus} (before : status = .registration ∨ status = .pendingBracketInit) :
      StatusStep status .active
  | cancels {status : TournamentStatus} (before : status = .registration ∨ status = .pendingBracketInit) :
      StatusStep status .cancelled
  | completes : StatusStep .active .completed
  | partialCancels : StatusStep .active .partialCancelled

theorem effect_status {clock : Clock} {b : Action} {v v' : TournamentView} {t t' : Tournament}
    (h : Effect rt key clock b v v') (ht : v.record = some t) (ht' : v'.record = some t') :
    StatusStep t.status t'.status := by
  have same {t₁ : Tournament} (h₁ : v.record = some t₁) : t₁ = t := Option.some.inj (h₁.symm.trans ht)
  cases h with
  | others | edit | closeChildren => exact same ht' ▸ .stay _
  | create _ _ _ unopened => simp [ht] at unopened
  | join _ _ _ _ record | requestSeed _ _ record | revealSeed _ _ _ record =>
      obtain rfl := same record
      obtain rfl := Option.some.inj ht'
      exact .stay _
  | partialCancel _ _ record _ running =>
      obtain rfl := same record
      obtain rfl := Option.some.inj ht'
      exact running ▸ .partialCancels
  | start _ _ record _ opens _ tallied bound =>
      obtain rfl := same record
      obtain rfl := Option.some.inj ht'
      obtain ⟨before, pending⟩ := opens_status opens
      rw [tally_ok bound tallied]
      simp only [pending]
      split
      · exact .starts before
      · rcases before with before | before <;> rw [before]
        · exact .opens
        · exact .stay _
  | advance _ _ _ _ finalizes =>
      obtain rfl := same finalizes.record
      obtain rfl := Option.some.inj ht'
      exact .stay _
  | conclude _ _ _ _ _ finalizes =>
      obtain rfl := same finalizes.record
      obtain rfl := Option.some.inj ht'
      exact finalizes.running ▸ .completes
  | @refund _ _ _ _ t₁ _ _ _ record _ refunding =>
      obtain rfl := same record
      obtain rfl := Option.some.inj ht'
      rcases refunding_cases refunding with ⟨rfl, hst⟩ | ⟨rfl, _⟩
      · have cancels : StatusStep t₁.status .cancelled := by
          rcases hst with hst | hst | hst
          · exact .cancels (.inl hst)
          · exact .cancels (.inr hst)
          · exact hst ▸ .stay _
        split <;> exact cancels
      · split <;> exact .stay _
  | closeRoot => cases ht'

theorem StatusStep.terminal {x y : TournamentStatus} (h : StatusStep x y) (ended : Refunds.terminal x) : y = x := by
  cases h with
  | stay => rfl
  | starts before | cancels before => rcases before with rfl | rfl <;> simp [Refunds.terminal] at ended
  | opens | completes | partialCancels => simp [Refunds.terminal] at ended

/-- A tournament that has ended stays so. -/
theorem Course.ended {t t' : Tournament} (course : Course rt key start past s)
    (ht : start.tournament? key = some t) (ended : Refunds.terminal t.status) (ht' : s.tournament? key = some t') :
    t'.status = t.status := by
  refine course.invariant (P := fun _ s => ∀ t', s.tournament? key = some t' → t'.status = t.status)
    (fun t' ht' => Option.some.inj (ht'.symm.trans ht) ▸ rfl) ?_ t' ht'
  intro past s b s' earlier ih step effect later t' ht'
  obtain ⟨t₁, ht₁⟩ := earlier.record
  have same := ih t₁ ht₁
  exact ((effect_status effect ht₁ ht').terminal (same ▸ ended)).trans same

theorem StatusStep.opening {x y : TournamentStatus} (h : StatusStep x y)
    (hy : y = .registration ∨ y = .pendingBracketInit) : x = .registration ∨ x = .pendingBracketInit := by
  cases h with
  | stay => exact hy
  | opens => exact .inl rfl
  | starts | cancels | completes | partialCancels => simp at hy

theorem StatusStep.playing {x y : TournamentStatus} (h : StatusStep x y) (hy : y = .active ∨ y = .completed) :
    x = .active ∨ x = .completed ∨ y = .active ∧ (x = .registration ∨ x = .pendingBracketInit) := by
  cases h with
  | stay => exact hy.imp_right .inl
  | starts before => exact .inr (.inr ⟨rfl, before⟩)
  | completes => exact .inl rfl
  | opens | cancels | partialCancels => simp at hy

end BracketChain.Lives
