import BracketChain.Completeness
import BracketChain.PublicDraw

namespace BracketChain.FixedDraw

open Outcome Keys Records Accounts Registration Seeding Start Settlement Envelope Refunds Program Runs Layout View
  Lifecycle StartEffects Refinement Lives Bookkeeping Enrolment Matches Seats Building Completeness PublicDraw Scripts

/-- The bump that `find_program_address` settles on: the greatest one whose
address is not on the curve. -/
def canonicalBump (rt : Runtime) (key : Pubkey) (round matchIndex : Nat) : Nat :=
  ((List.range 256).reverse.find? fun b => rt.offCurve (.matchNode key ⟨0, round, matchIndex, b⟩)).getD 0

/-- The address that clients derive for a match. -/
def canonicalSlot (rt : Runtime) (key : Pubkey) (round matchIndex : Nat) : Slot :=
  ⟨0, round, matchIndex, canonicalBump rt key round matchIndex⟩

/-- The bracket byte is zero and the bump canonical. -/
def Canonical (rt : Runtime) (key : Pubkey) (d : MatchInitDescriptor) : Prop :=
  d.slot = canonicalSlot rt key d.round d.matchIndex

instance (rt : Runtime) (key : Pubkey) (d : MatchInitDescriptor) : Decidable (Canonical rt key d) :=
  inferInstanceAs (Decidable (_ = _))

/-- The step is a chunk of canonical descriptors, if it is about the
tournament at all. -/
def CanonicalStart (rt : Runtime) (key : Pubkey) (e : Ledger × Action) : Prop :=
  e.2.tournament = some key →
    ∃ c, e.2 = .call (.startTournament c) ∧ ∀ d ∈ c.descriptors, Canonical rt key d

variable {rt : Runtime} {key : Pubkey} {s₀ s : Ledger} {past : History}

theorem canonical_position {d e : MatchInitDescriptor} (hd : Canonical rt key d) (he : Canonical rt key e)
    (h : MatchInitDescriptor.position d = MatchInitDescriptor.position e) : d.slot = e.slot := by
  obtain ⟨round, index⟩ := Prod.mk.inj h
  rw [hd, he, round, index]

theorem canonical_nodup {ds : List MatchInitDescriptor} (distinct : (ds.map MatchInitDescriptor.slot).Nodup)
    (canonical : ∀ d ∈ ds, Canonical rt key d) : (ds.map MatchInitDescriptor.position).Nodup := by
  refine List.Nodup.map_on (fun d hd e he hp => ?_) (List.Nodup.of_map _ distinct)
  exact List.inj_on_of_nodup_map distinct hd he (canonical_position (canonical d hd) (canonical e he) hp)

theorem canonical_sublist {past' : History} (sub : past'.Sublist past)
    (canonical : ∀ d ∈ accepted key past, Canonical rt key d) : ∀ d ∈ accepted key past', Canonical rt key d := by
  intro d hd
  obtain ⟨e, entry, chunk⟩ := mem_accepted.1 hd
  exact canonical d (mem_accepted.2 ⟨e, sub.subset entry, chunk⟩)

/-- A course of chunks: the matches are those of the accepted descriptors, on
top of the ones before, and only byes are counted as reported. -/
structure Started (key : Pubkey) (v₀ v : TournamentView) (t : Tournament) (ds : List MatchInitDescriptor) :
    Prop where
  node : v.node = place key ds v₀.node
  participant : v.participant = v₀.participant
  reported : t.matchesReported = byesOf ds

theorem place_append (ds es : List MatchInitDescriptor) (node : Slot → Option MatchNode) :
    place key (ds ++ es) node = place key es (place key ds node) :=
  List.foldl_append

theorem byesOf_append (ds es : List MatchInitDescriptor) : byesOf (ds ++ es) = byesOf ds + byesOf es := by
  simp [byesOf]

theorem started_step {clock : Clock} {b : Action} {v₀ v v' : TournamentView} {t t' : Tournament}
    {ds : List MatchInitDescriptor} (h : Started key v₀ v t ds) (effect : Effect rt key clock b v v')
    (ht : v.record = some t) (ht' : v'.record = some t')
    (starts : b.tournament = some key → ∃ c, b = .call (.startTournament c)) :
    Started key v₀ v' t' (ds ++ acceptedBy key b) := by
  have same {t₁ : Tournament} (h₁ : v.record = some t₁) : t = t₁ := Option.some.inj (ht.symm.trans h₁)
  cases effect with
  | others k other =>
      obtain rfl := same ht'
      rw [acceptedBy_other other, List.append_nil]
      exact ⟨h.node, h.participant, h.reported⟩
  | start c key_eq record _ opens chunk tallied bound =>
      obtain rfl := same record
      obtain rfl := Option.some.inj ht'
      have before := tally_ok bound tallied
      rw [acceptedBy, if_pos key_eq]
      refine ⟨?_, h.participant, ?_⟩
      · rw [place_append, ← h.node]
      · rw [before, byesOf_append, ← h.reported]
        rcases opens with ⟨_, _, _, _, _, _, rfl⟩ | ⟨_, rfl⟩ <;> rfl
  | edit ix a _ call key_eq =>
      obtain ⟨c, hc⟩ := starts ((edit_tournament call).trans (congrArg some key_eq))
      rw [Action.call.inj hc] at call
      cases call
  | advance ix a _ _ finalizes | conclude ix a _ _ _ finalizes =>
      have call := finalizes.call
      obtain ⟨c, hc⟩ := starts ((finalize_tournament call).trans (congrArg some finalizes.key_eq))
      rw [Action.call.inj hc] at call
      cases call
  | refund ix a key_eq _ _ _ refunding =>
      obtain ⟨c, hc⟩ := starts ((refunding_tournament refunding).trans (congrArg some key_eq))
      rw [Action.call.inj hc] at refunding
      cases refunding
  | create a key_eq | join a key_eq | requestSeed a key_eq | revealSeed a key_eq | partialCancel a key_eq
  | closeChildren a key_eq | closeRoot a key_eq =>
      obtain ⟨c, hc⟩ := starts (congrArg some key_eq)
      cases hc

theorem started_course {t₀ : Tournament} (course : Course rt key s₀ past s) (ht₀ : s₀.tournament? key = some t₀)
    (registration : t₀.status = .registration) (starts : Always (CanonicalStart rt key) past) :
    (∃ t, s.tournament? key = some t ∧ Started key (viewOf s₀ key) (viewOf s key) t (accepted key past)) ∧
      ∀ d ∈ accepted key past, Canonical rt key d := by
  refine course.invariant (P := fun past s => Always (CanonicalStart rt key) past →
    (∃ t, s.tournament? key = some t ∧ Started key (viewOf s₀ key) (viewOf s key) t (accepted key past)) ∧
      ∀ d ∈ accepted key past, Canonical rt key d) (fun _ => ⟨⟨t₀, ht₀, rfl, rfl, ?_⟩, by simp [accepted]⟩) ?_ starts
  · exact ((reachable_bounded course.reachable ht₀).idle registration).2
  · rintro past s b s' earlier ih step effect later starts
    obtain ⟨starts, last⟩ := always_snoc.1 starts
    obtain ⟨⟨t, ht, started⟩, canonical⟩ := ih starts
    obtain ⟨t', ht'⟩ := later.record
    rw [accepted_snoc]
    refine ⟨⟨t', ht', started_step started effect ht ht' fun own => (last own).imp fun c hc => hc.1⟩, fun d hd => ?_⟩
    rcases List.mem_append.1 hd with hd | hd
    · exact canonical d hd
    · by_cases hb : ∃ c, b = .call (.startTournament c) ∧ c.tournament = key
      · obtain ⟨c, rfl, hk⟩ := hb
        obtain ⟨c', hc, hd'⟩ := last (congrArg some hk)
        obtain rfl : c = c' := by simpa using hc
        rw [acceptedBy, if_pos hk] at hd
        exact hd' d hd
      · rw [acceptedBy_eq_nil fun c hc hk => hb ⟨c, hc, hk⟩] at hd
        simp at hd

section Forced

variable {w : Draw} {k : Nat} {p : Pubkey → Option Participant}

theorem seated_unique (drawn : Drawn w k) (unique : Unique p w.n) {d e : MatchInitDescriptor}
    (hd : Seated p w d) (he : Seated p w e) (slot : d.slot = e.slot) : d = e := by
  obtain ⟨bracket, round, index, bump⟩ := Slot.mk.inj slot
  have sameRank {i a x y} (h : w.perm[i]? = some a) (hx : Carries p x a) (hy : Carries p y a) : x = y :=
    unique a (drawn.lt h) x y hx hy
  have sameSlot {x y : Pubkey} {parent : Nat} (hx : SlotSeated p w x parent) (hy : SlotSeated p w y parent) :
      x = y := by
    obtain ⟨i, o, hi, hx⟩ := hx
    obtain ⟨j, o', hj, hy⟩ := hy
    obtain ⟨rfl, rfl⟩ : i = j ∧ o = o' := by simpa using hi.symm.trans hj
    split at hx
    · rw [if_pos ‹_›] at hy
      exact sameRank (drawn.round0 hi).1 hx.2 hy.2
    · rw [if_neg ‹_›] at hy
      exact hx.trans hy.symm
  have players : d.playerA = e.playerA ∧ d.playerB = e.playerB ∧ d.bye = e.bye := by
    unfold Seated at hd he
    rw [← round, ← index] at he
    split at hd
    · rw [if_pos ‹_›] at he
      obtain ⟨a, o, hw, hA, hB⟩ := hd
      obtain ⟨a', o', hw', hA', hB'⟩ := he
      obtain ⟨rfl, rfl⟩ : a = a' ∧ o = o' := by simpa using hw.symm.trans hw'
      obtain ⟨first, second⟩ := drawn.round0 hw
      cases o with
      | none => exact ⟨sameRank first hA hA', hB.2.trans hB'.2.symm, hB.1.trans hB'.1.symm⟩
      | some b =>
          split at second
          · obtain ⟨b', hb, hbb⟩ := second
            obtain rfl := Option.some.inj hbb
            exact ⟨sameRank first hA hA', sameRank hb hB.2.2 hB'.2.2, hB.1.trans hB'.1.symm⟩
          · cases second
    · rw [if_neg ‹_›] at he
      refine ⟨?_, ?_, hd.1.trans he.1.symm⟩ <;> (have hd := hd.2; have he := he.2; split at hd)
      · rw [if_pos ‹_›] at he
        exact sameSlot hd.1 he.1
      · rw [if_neg ‹_›] at he
        exact hd.1.trans he.1.symm
      · rw [if_pos ‹_›] at he
        exact sameSlot hd.2 he.2
      · rw [if_neg ‹_›] at he
        exact hd.2.trans he.2.symm
  obtain ⟨hA, hB, hbye⟩ := players
  cases d
  cases e
  simp_all

theorem seated_bye (drawn : Drawn w k) {d : MatchInitDescriptor} (seated : Seated p w d)
    (place : MatchInitDescriptor.position d ∈ Elimination.grid (k + 1)) :
    d.bye = true ↔ d.round = 0 ∧ d.matchIndex < 2 ^ (k + 1) - w.n := by
  have low := drawn.low
  unfold Seated at seated
  split at seated
  · have hm : d.matchIndex < 2 ^ (k + 1) / 2 := by
      refine Elimination.round_zero ?_
      rwa [MatchInitDescriptor.position, ‹d.round = 0›] at place
    obtain ⟨a, o, hw, _, opponent⟩ := seated
    have second := (drawn.round0 hw).2
    split at second
    · obtain ⟨b, _, rfl⟩ := second
      simp only [opponent.1, Bool.false_eq_true, false_iff, not_and]
      omega
    · subst second
      simp only [opponent.1, true_iff]
      exact ⟨‹_›, by omega⟩
  · simp [seated.1, ‹¬ d.round = 0›]

theorem byes_forced (drawn : Drawn w k) {ds : List MatchInitDescriptor} (seated : ∀ d ∈ ds, Seated p w d)
    (full : (ds.map MatchInitDescriptor.position).Perm (Elimination.grid (k + 1))) :
    byesOf ds = 2 ^ (k + 1) - w.n := by
  have low := drawn.low
  have fits : 2 ^ (k + 1) - w.n ≤ 2 ^ k := by
    rw [Nat.pow_succ]
    omega
  rw [← Elimination.countP_first k _ fits, ← full.countP_eq, List.countP_map, byesOf, ← List.countP_eq_length_filter]
  refine List.countP_congr fun d hd => ?_
  have place := full.mem_iff.1 (List.mem_map_of_mem hd)
  simp only [Function.comp_apply, decide_eq_true_eq]
  exact seated_bye drawn (seated d hd) place

end Forced

def drawWith (t : Tournament) (k : Nat) : Draw :=
  ⟨seedPermutation t.seedHash t.participantCount, 2 ^ (k + 1), t.participantCount⟩

/-- A full bracket of canonical descriptors that agree with the draw. -/
structure Full (rt : Runtime) (key : Pubkey) (v₀ : TournamentView) (t₀ : Tournament) (k : Nat)
    (ds : List MatchInitDescriptor) : Prop where
  drawn : Drawn (drawWith t₀ k) k
  distinct : (ds.map MatchInitDescriptor.slot).Nodup
  places : (ds.map MatchInitDescriptor.position).Perm (Elimination.grid (k + 1))
  canonical : ∀ d ∈ ds, Canonical rt key d
  seated : ∀ d ∈ ds, Seated v₀.participant (drawWith t₀ k) d

variable {t₀ t : Tournament}

theorem starts_full (course : Course rt key s₀ past s) (ht₀ : s₀.tournament? key = some t₀)
    (mode : t₀.settlementMode ≠ .organizerOnly) (revealed : t₀.seedRevealed = true)
    (registration : t₀.status = .registration) (starts : Always (CanonicalStart rt key) past)
    (ht : s.tournament? key = some t) (active : t.status = .active) :
    Started key (viewOf s₀ key) (viewOf s key) t (accepted key past) ∧
      ∃ k, Dimensioned t k ∧ t.participantCount = t₀.participantCount ∧
        Full rt key (viewOf s₀ key) t₀ k (accepted key past) := by
  have live : ¬ terminal t.status := by simp [active, terminal]
  obtain ⟨⟨t', ht', started⟩, canonical⟩ := started_course course ht₀ registration starts
  obtain rfl : t = t' := Option.some.inj (ht.symm.trans ht')
  obtain ⟨t', ht', built⟩ := course_built course ht₀ registration (unclosed_of_live course ht live)
  obtain rfl : t = t' := Option.some.inj (ht.symm.trans ht')
  -- nobody joins in between, so the draw is that of the start
  have unjoined : joins key past = [] := by
    refine List.flatMap_eq_nil_iff.2 fun e he => ?_
    obtain ⟨q, b⟩ := e
    by_cases own : b.tournament = some key
    · obtain ⟨c, hc, _⟩ := starts _ he own
      obtain rfl : b = .call (.startTournament c) := hc
      rfl
    · exact joinedBy_other own
  obtain ⟨t', ht', _, _, _, draw⟩ := draw_course course ht₀ mode revealed
  obtain rfl : t = t' := Option.some.inj (ht.symm.trans ht')
  have same := draw unjoined live
  obtain ⟨k, dims, places⟩ := built_grid built (canonical_nodup built.distinct canonical) (.inl active)
  have drawOf_eq : drawOf t = some (drawWith t₀ k) := by
    rw [drawOf, if_neg ((course.terms ht₀ ht).settlementMode ▸ mode), same.seed, same.count, dims.size]
    rfl
  refine ⟨started, k, dims, same.count, drawOf_drawn dims drawOf_eq, built.distinct, places, canonical, ?_⟩
  rw [← started.participant]
  exact (built.underway (.inr (.inl active))).seated _ drawOf_eq

/-- Two full brackets over the same start are the same. -/
theorem full_unique {v₀ : TournamentView} {k : Nat} {ds es : List MatchInitDescriptor}
    (unique : Unique v₀.participant t₀.participantCount) (hd : Full rt key v₀ t₀ k ds)
    (he : Full rt key v₀ t₀ k es) : ds ⊆ es := by
  intro d mem
  obtain ⟨e, mem', hp⟩ := List.mem_map.1 (he.places.mem_iff.2 (hd.places.mem_iff.1 (List.mem_map_of_mem mem)))
  have slot := canonical_position (hd.canonical d mem) (he.canonical e mem') hp.symm
  exact seated_unique hd.drawn unique (hd.seated d mem) (he.seated e mem') slot ▸ mem'

theorem place_congr {ds es : List MatchInitDescriptor} (node : Slot → Option MatchNode)
    (hd : (ds.map MatchInitDescriptor.slot).Nodup) (he : (es.map MatchInitDescriptor.slot).Nodup)
    (sub : ds ⊆ es) (sup : es ⊆ ds) : place key ds node = place key es node := by
  funext slot
  by_cases h : ∃ d ∈ ds, d.slot = slot
  · obtain ⟨d, mem, rfl⟩ := h
    rw [place_of_mem node hd mem, place_of_mem node he (sub mem)]
  · rw [place_of_notMem node fun d mem hs => h ⟨d, mem, hs⟩,
      place_of_notMem node fun d mem hs => h ⟨d, sup mem, hs⟩]

/-- The first-round match that the draw demands at index `m`. -/
def Demanded (v : TournamentView) (w : Draw) (m : Nat) (x : MatchNode) : Prop :=
  (∃ a, w.perm[m]? = some a ∧ Carries v.participant x.playerA a) ∧
    if w.bracketSize - 1 - m < w.n then
      x.bye = false ∧ ∃ b, w.perm[w.bracketSize - 1 - m]? = some b ∧ Carries v.participant x.playerB b
    else x.bye = true ∧ x.playerB = default ∧ x.winner = x.playerA ∧ x.status = .completed

theorem full_demanded {v₀ : TournamentView} {k m : Nat} {ds : List MatchInitDescriptor}
    (h : Full rt key v₀ t₀ k ds) (hm : m < 2 ^ (k + 1) / 2) :
    ∃ x, place key ds v₀.node (canonicalSlot rt key 0 m) = some x ∧ Demanded v₀ (drawWith t₀ k) m x := by
  have mem : (0, m) ∈ Elimination.grid (k + 1) :=
    Elimination.mem_grid.2 ⟨Nat.succ_pos k, by simpa [Nat.shiftRight_succ] using hm⟩
  obtain ⟨d, hd, hp⟩ := List.mem_map.1 (h.places.mem_iff.2 mem)
  obtain ⟨round, index⟩ : d.round = 0 ∧ d.matchIndex = m := Prod.mk.inj hp
  have slot := h.canonical d hd
  rw [Canonical, round, index] at slot
  refine ⟨d.node key, slot ▸ place_of_mem _ h.distinct hd, ?_⟩
  have seated := h.seated d hd
  rw [Seated, if_pos round, index] at seated
  obtain ⟨a, o, hw, hA, opponent⟩ := seated
  obtain ⟨first, second⟩ := h.drawn.round0 hw
  refine ⟨⟨a, first, hA⟩, ?_⟩
  change if 2 ^ (k + 1) - 1 - m < (drawWith t₀ k).n then _ else _
  split at second
  · rw [if_pos ‹_›]
    obtain ⟨b, hb, rfl⟩ := second
    refine ⟨opponent.1, b, hb, ?_⟩
    simpa [MatchInitDescriptor.node, opponent.1] using opponent.2.2
  · rw [if_neg ‹_›]
    subst second
    simp [MatchInitDescriptor.node, MatchInitDescriptor.status, opponent.1]

/-- From a closed draw without numbers carried twice, all ways to start the
tournament with canonical descriptors end in the same matches, which are those
that the seed demands. -/
theorem draw_forced {s₁ s₂ : Ledger} {past₁ past₂ : History} {t₁ t₂ : Tournament}
    (ht₀ : s₀.tournament? key = some t₀) (mode : t₀.settlementMode ≠ .organizerOnly)
    (revealed : t₀.seedRevealed = true) (registration : t₀.status = .registration)
    (unique : Unique (viewOf s₀ key).participant t₀.participantCount)
    (course₁ : Course rt key s₀ past₁ s₁) (starts₁ : Always (CanonicalStart rt key) past₁)
    (ht₁ : s₁.tournament? key = some t₁) (active₁ : t₁.status = .active)
    (course₂ : Course rt key s₀ past₂ s₂) (starts₂ : Always (CanonicalStart rt key) past₂)
    (ht₂ : s₂.tournament? key = some t₂) (active₂ : t₂.status = .active) :
    (∀ slot, s₁.matchNode? (.matchNode key slot) = s₂.matchNode? (.matchNode key slot)) ∧
      t₁.matchesReported = t₂.matchesReported ∧ t₁.bracketSize = t₂.bracketSize ∧
      t₁.matchesReported = t₁.bracketSize - t₀.participantCount ∧
      ∀ m < t₁.bracketSize / 2, ∃ x, s₁.matchNode? (.matchNode key (canonicalSlot rt key 0 m)) = some x ∧
        Demanded (viewOf s₁ key) ⟨seedPermutation t₀.seedHash t₀.participantCount, t₁.bracketSize,
          t₀.participantCount⟩ m x := by
  obtain ⟨started₁, k, dims₁, count₁, full₁⟩ := starts_full course₁ ht₀ mode revealed registration starts₁ ht₁ active₁
  obtain ⟨started₂, k₂, dims₂, count₂, full₂⟩ := starts_full course₂ ht₀ mode revealed registration starts₂ ht₂ active₂
  obtain rfl := dims₁.unique dims₂ (count₂.trans count₁.symm)
  have reported₁ := started₁.reported.trans (byes_forced full₁.drawn full₁.seated full₁.places)
  have reported₂ := started₂.reported.trans (byes_forced full₂.drawn full₂.seated full₂.places)
  have nodes : (viewOf s₁ key).node = (viewOf s₂ key).node := by
    rw [started₁.node, started₂.node]
    exact place_congr _ full₁.distinct full₂.distinct (full_unique unique full₁ full₂) (full_unique unique full₂ full₁)
  refine ⟨congrFun nodes, reported₁.trans reported₂.symm, dims₁.size.trans dims₂.size.symm, ?_, fun m hm => ?_⟩
  · rw [reported₁, dims₁.size]
    rfl
  · rw [dims₁.size] at hm ⊢
    obtain ⟨x, hx, demanded⟩ := full_demanded full₁ hm
    refine ⟨x, (congrFun started₁.node _).trans hx, ?_⟩
    rw [Demanded, started₁.participant]
    exact demanded

theorem canonicalStart_of_mem {bs : List Action} (h : ∀ b ∈ bs, ∃ c, b = .call (.startTournament c) ∧
    ∀ d ∈ c.descriptors, Canonical rt key d) (start : Ledger) : Always (CanonicalStart rt key) (log rt start bs) :=
  fun e he _ => h e.2 (mem_log he)

/-- Four wallets joined the sample tournament, and its seed is public. -/
def drawnFour : Ledger :=
  after sampleRuntime (created sampleRuntime sampleTournament sampleBorn) (fourRevealed sampleTournament.key)

theorem drawnFour_life : SampleLife (fourRevealed sampleTournament.key) :=
  script_life sampleBorn_reachable rfl (by decide) (by decide)

theorem drawnFour_course {bs : List Action}
    (kept : ((log sampleRuntime drawnFour bs).all fun e => (e.1.tournament? sampleTournament.key).isSome) = true)
    (last : ((after sampleRuntime drawnFour bs).tournament? sampleTournament.key).isSome = true) :
    Course sampleRuntime sampleTournament.key drawnFour (log sampleRuntime drawnFour bs)
      (after sampleRuntime drawnFour bs) :=
  script_course (reachable_run drawnFour_life.course.reachable drawnFour_life.run) bs kept last

def oneChunk : List Action := [startWith sampleTournament.key [semi0, semi1, lastOf4]]

def twoChunks : List Action := [startWith sampleTournament.key [semi1], startWith sampleTournament.key [lastOf4, semi0]]

theorem twoChunks_forced :
    (viewOf (after sampleRuntime drawnFour oneChunk) sampleTournament.key).node =
      (viewOf (after sampleRuntime drawnFour twoChunks) sampleTournament.key).node := by
  have unique := life_unique drawnFour_life sampleBorn_fresh 4
  have starts₁ : Always (CanonicalStart sampleRuntime sampleTournament.key) (log sampleRuntime drawnFour oneChunk) := by
    refine canonicalStart_of_mem (fun b hb => ?_) _
    obtain rfl := List.mem_singleton.1 hb
    exact ⟨_, rfl, by decide⟩
  have starts₂ : Always (CanonicalStart sampleRuntime sampleTournament.key) (log sampleRuntime drawnFour twoChunks) := by
    refine canonicalStart_of_mem (fun b hb => ?_) _
    rcases List.mem_pair.1 hb with rfl | rfl <;> exact ⟨_, rfl, by decide⟩
  exact funext (draw_forced rfl (by decide) rfl rfl unique (drawnFour_course (by decide) (by decide)) starts₁ rfl rfl
    (drawnFour_course (by decide) (by decide)) starts₂ rfl rfl).1

section Leftovers

/-- A cancelled and refunded tournament whose root is closed before the
accounts of its two players. -/
def leftBehind : Ledger := after sampleRuntime sampleBorn
  [.call (.createTournament sampleTournament), joinAs 2 sampleTournament.key, joinAs 3 sampleTournament.key,
    .call (.cancelTournament ⟨.key 1, sampleTournament.key, some (.key 10),
      [.participant sampleTournament.key (.key 2), .key 11, .participant sampleTournament.key (.key 3), .key 12]⟩),
    .call (.closeTournament ⟨.key 5, sampleTournament.key, .key 1, true, []⟩)]

/-- Its name is used again, by two other players. -/
def reused : Ledger := after sampleRuntime leftBehind
  [.call (.createTournament sampleTournament), joinAs 4 sampleTournament.key, joinAs 5 sampleTournament.key,
    .call (.requestSeed ⟨.key 1, sampleTournament.key, .key 200⟩),
    .call (.revealSeed ⟨.key 5, sampleTournament.key, .key 200⟩)]

theorem reused_reachable : Reachable sampleRuntime reused :=
  reachable_run (reachable_run sampleBorn_reachable (script_run _ _)) (script_run _ _)

def newFinal : MatchInitDescriptor := { sampleFinal with playerA := .key 5, playerB := .key 4 }

/-- The organizer chooses between the final of the new players and that of the
old ones, who carry the same numbers. -/
theorem leftovers_not_forced : ∃ past₁ s₁ t₁ past₂ s₂ t₂,
    Course sampleRuntime sampleTournament.key reused past₁ s₁ ∧
    Course sampleRuntime sampleTournament.key reused past₂ s₂ ∧
    Always (CanonicalStart sampleRuntime sampleTournament.key) past₁ ∧
    Always (CanonicalStart sampleRuntime sampleTournament.key) past₂ ∧
    s₁.tournament? sampleTournament.key = some t₁ ∧ t₁.status = .active ∧
    s₂.tournament? sampleTournament.key = some t₂ ∧ t₂.status = .active ∧
    s₁.matchNode? (finalMatch sampleTournament.key) ≠ s₂.matchNode? (finalMatch sampleTournament.key) := by
  have course {d : MatchInitDescriptor} (hd : d = newFinal ∨ d = sampleFinal) :
      Course sampleRuntime sampleTournament.key reused (log sampleRuntime reused [startWith sampleTournament.key [d]])
        (after sampleRuntime reused [startWith sampleTournament.key [d]]) := by
    rcases hd with rfl | rfl <;> exact script_course reused_reachable _ (by decide) (by decide)
  have canonical {d : MatchInitDescriptor} (hd : Canonical sampleRuntime sampleTournament.key d) :
      Always (CanonicalStart sampleRuntime sampleTournament.key)
        (log sampleRuntime reused [startWith sampleTournament.key [d]]) := by
    refine canonicalStart_of_mem ?_ _
    rintro b hb
    obtain rfl := List.mem_singleton.1 hb
    exact ⟨_, rfl, by simpa using hd⟩
  exact ⟨_, _, _, _, _, _, course (.inl rfl), course (.inr rfl), canonical (by decide), canonical (by decide), rfl, rfl,
    rfl, rfl, by decide⟩

end Leftovers

end BracketChain.FixedDraw
