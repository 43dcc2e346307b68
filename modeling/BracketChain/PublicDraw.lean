import BracketChain.Bookkeeping
import BracketChain.Scripts

namespace BracketChain.PublicDraw

open Outcome Keys Records Accounts Registration Seeding Start Settlement Refunds Program Runs Layout View Lifecycle
  Refinement Lives Bookkeeping Scripts

/-- All that the draw depends on: the seed, the number of participants, and
who of them carries which number. -/
structure SameDraw (t₀ t : Tournament) (v₀ v : TournamentView) : Prop where
  seed : t.seedHash = t₀.seedHash
  count : t.participantCount = t₀.participantCount
  numbers : ∀ w, (v.participant w).map Participant.seedIndex = (v₀.participant w).map Participant.seedIndex

theorem SameDraw.refl (t : Tournament) (v : TournamentView) : SameDraw t t v v := ⟨rfl, rfl, fun _ => rfl⟩

theorem SameDraw.trans {t₀ t t' : Tournament} {v₀ v v' : TournamentView} (h : SameDraw t₀ t v₀ v)
    (h' : SameDraw t t' v v') : SameDraw t₀ t' v₀ v' :=
  ⟨h'.seed.trans h.seed, h'.count.trans h.count, fun w => (h'.numbers w).trans (h.numbers w)⟩

theorem KeepsRoles.numbers {p p' : Pubkey → Option Participant} (h : KeepsRoles p p') (w : Pubkey) :
    (p' w).map Participant.seedIndex = (p w).map Participant.seedIndex := by
  simpa [Function.comp_def] using congrArg (Option.map Prod.fst) (h w)

variable {rt : Runtime} {key : Pubkey} {s₀ s : Ledger} {past : History}

theorem opens_seed {t t' : Tournament} (h : Opens t t') (mode : t.settlementMode ≠ .organizerOnly) :
    t'.seedHash = t.seedHash ∧ t'.participantCount = t.participantCount ∧ t'.seedRevealed = t.seedRevealed := by
  rcases h with ⟨_, _, _, _, _, revealed, rfl⟩ | ⟨_, rfl⟩
  · exact ⟨(revealed mode).2, rfl, rfl⟩
  · exact ⟨rfl, rfl, rfl⟩

/-- One step after the reveal: joins are counted, and nothing else changes
the draw while the tournament is open. -/
theorem draw_step {clock : Clock} {b : Action} {v v' : TournamentView} {t t' : Tournament}
    (effect : Effect rt key clock b v v') (ht : v.record = some t) (ht' : v'.record = some t')
    (mode : t.settlementMode ≠ .organizerOnly) (revealed : t.seedRevealed = true) :
    t'.seedRevealed = true ∧ t'.participantCount = t.participantCount + (joinedBy key b).length ∧
      (joinedBy key b = [] → ¬ terminal t'.status → SameDraw t t' v v') := by
  have same {t₁ : Tournament} (h₁ : v.record = some t₁) : t = t₁ := Option.some.inj (ht.symm.trans h₁)
  have quiet (hb : joinedBy key b = []) (revealed' : t'.seedRevealed = true) (draw : SameDraw t t' v v') :
      t'.seedRevealed = true ∧ t'.participantCount = t.participantCount + (joinedBy key b).length ∧
        (joinedBy key b = [] → ¬ terminal t'.status → SameDraw t t' v v') :=
    ⟨revealed', by simp [hb, draw.count], fun _ _ => draw⟩
  cases effect with
  | others k other =>
      obtain rfl := same ht'
      exact quiet (joinedBy_other other) revealed ⟨rfl, rfl, fun _ => rfl⟩
  | create _ _ _ unopened => simp [ht] at unopened
  | join c key_eq _ _ record =>
      obtain rfl := same record
      obtain rfl := Option.some.inj ht'
      have hb : joinedBy key (.call (.joinTournament c)) = [c.player] := if_pos key_eq
      exact ⟨revealed, by simp [hb], by simp [hb]⟩
  | requestSeed _ _ record _ _ _ hidden | revealSeed _ _ _ record _ hidden =>
      obtain rfl := same record
      simp [revealed] at hidden
  | partialCancel _ _ record =>
      obtain rfl := same record
      obtain rfl := Option.some.inj ht'
      exact quiet rfl revealed ⟨rfl, rfl, fun _ => rfl⟩
  | start _ _ record _ opens _ tallied bound =>
      obtain rfl := same record
      obtain rfl := Option.some.inj ht'
      obtain ⟨seed, count, shown⟩ := opens_seed opens mode
      have counted := tally_ok bound tallied
      exact quiet rfl (by rw [counted]; exact shown.trans revealed)
        ⟨by rw [counted]; exact seed, by rw [counted]; exact count, fun _ => rfl⟩
  | edit _ _ _ call =>
      obtain rfl := same ht'
      exact quiet (joinedBy_edit call) revealed ⟨rfl, rfl, fun _ => rfl⟩
  | advance _ _ _ _ finalizes | conclude _ _ _ _ _ finalizes =>
      obtain rfl := same finalizes.record
      obtain rfl := Option.some.inj ht'
      exact quiet (joinedBy_finalize finalizes.call) revealed
        ⟨rfl, rfl, KeepsRoles.numbers (finalizes_keepsRoles finalizes)⟩
  | refund ix c _ ws record _ refunding =>
      obtain rfl := same record
      obtain rfl := Option.some.inj ht'
      obtain ⟨status, rfl, _, _⟩ := refunding_status refunding
      refine quiet (joinedBy_refund refunding) (by split <;> exact revealed)
        ⟨by split <;> rfl, by split <;> rfl, fun w => ?_⟩
      simp only [refundAll]
      split
      · simp [Function.comp_def, Participant.refunded]
      · rfl
  | closeChildren _ _ _ record ended =>
      obtain rfl := same record
      obtain rfl := same ht'
      exact ⟨revealed, rfl, fun _ open_ => absurd ended open_⟩
  | closeRoot => cases ht'

theorem draw_course {t₀ : Tournament} (course : Course rt key s₀ past s) (ht₀ : s₀.tournament? key = some t₀)
    (mode : t₀.settlementMode ≠ .organizerOnly) (revealed : t₀.seedRevealed = true) :
    ∃ t, (viewOf s key).record = some t ∧ t.settlementMode ≠ .organizerOnly ∧ t.seedRevealed = true ∧
      t.participantCount = t₀.participantCount + (joins key past).length ∧
      (joins key past = [] → ¬ terminal t.status → SameDraw t₀ t (viewOf s₀ key) (viewOf s key)) := by
  refine course.invariant (P := fun past s => ∃ t, (viewOf s key).record = some t ∧
    t.settlementMode ≠ .organizerOnly ∧ t.seedRevealed = true ∧
    t.participantCount = t₀.participantCount + (joins key past).length ∧
    (joins key past = [] → ¬ terminal t.status → SameDraw t₀ t (viewOf s₀ key) (viewOf s key)))
    ⟨t₀, ht₀, mode, revealed, rfl, fun _ _ => .refl _ _⟩ ?_
  rintro past s b s' earlier ⟨t, ht, mode, revealed, count, draw⟩ step effect later
  obtain ⟨t', ht'⟩ := later.record
  obtain ⟨revealed', count', draw'⟩ := draw_step effect ht ht' mode revealed
  refine ⟨t', ht', ?_, revealed', ?_, fun hj open_ => ?_⟩
  · rw [(effect_terms effect ht ht').settlementMode]
    exact mode
  · rw [count', count, joins_snoc, List.length_append, Nat.add_assoc]
  · rw [joins_snoc, List.append_eq_nil_iff] at hj
    have open₀ : ¬ terminal t.status := fun ended =>
      open_ ((effect_status effect ht ht').terminal ended ▸ ended)
    exact (draw hj.1 open₀).trans (draw' hj.2 open_)

theorem joins_eq_nil : joins key past = [] ↔ Always (fun e => joinedBy key e.2 = []) past :=
  List.flatMap_eq_nil_iff

/-- Once the seed is public, the draw stays as it is exactly when nobody
joins any more. -/
theorem draw_fixed_iff {t₀ t : Tournament} (course : Course rt key s₀ past s)
    (ht₀ : s₀.tournament? key = some t₀) (mode : t₀.settlementMode ≠ .organizerOnly)
    (revealed : t₀.seedRevealed = true) (ht : s.tournament? key = some t) (open_ : ¬ terminal t.status) :
    SameDraw t₀ t (viewOf s₀ key) (viewOf s key) ↔ Always (fun e => joinedBy key e.2 = []) past := by
  obtain ⟨t', ht', _, _, count, draw⟩ := draw_course course ht₀ mode revealed
  obtain rfl : t = t' := Option.some.inj (ht.symm.trans ht')
  rw [← joins_eq_nil]
  constructor
  · intro same
    have := same.count
    exact List.eq_nil_of_length_eq_zero (by omega)
  · intro hj
    exact draw hj open_

def sampleRevealed : Ledger :=
  after sampleRuntime (created sampleRuntime sampleTournament sampleBorn) (twoRevealed sampleTournament.key)

theorem sampleRevealed_reachable : Reachable sampleRuntime sampleRevealed :=
  have created : SampleLife [] := script_life sampleBorn_reachable rfl rfl rfl
  reachable_run created.course.reachable (script_run _ _)

/-- An empty first chunk closes the registration. -/
def openEmpty : Action := .call (.startTournament ⟨.key 1, sampleTournament.key, [], []⟩)

theorem openEmpty_fixed : ∃ t₀ t, sampleRevealed.tournament? sampleTournament.key = some t₀ ∧
    t.status = .pendingBracketInit ∧ SameDraw t₀ t (viewOf sampleRevealed sampleTournament.key)
      (viewOf (after sampleRuntime sampleRevealed [openEmpty]) sampleTournament.key) :=
  ⟨_, _, rfl, rfl, (draw_fixed_iff (script_course sampleRevealed_reachable _ (by decide) (by decide)) rfl (by decide)
    rfl rfl (by decide)).2 (joins_eq_nil.1 rfl)⟩

/-- A wallet that joins after the reveal changes the draw that the organizer
starts with. -/
theorem lateJoin_redraws : ∃ s past s' past' t t',
    Course sampleRuntime sampleTournament.key sampleRevealed past s ∧
    Course sampleRuntime sampleTournament.key sampleRevealed past' s' ∧
    s.tournament? sampleTournament.key = some t ∧ s'.tournament? sampleTournament.key = some t' ∧
    t.status = .pendingBracketInit ∧ t'.status = .pendingBracketInit ∧ t.settlementMode = .playerReported ∧
    seedPermutation t.seedHash t.participantCount ≠ seedPermutation t'.seedHash t'.participantCount :=
  ⟨_, _, _, _, _, _, script_course sampleRevealed_reachable [openEmpty] (by decide) (by decide),
    script_course sampleRevealed_reachable [joinAs 4 sampleTournament.key, openEmpty] (by decide) (by decide),
    rfl, rfl, rfl, rfl, rfl, by decide⟩

end BracketChain.PublicDraw
